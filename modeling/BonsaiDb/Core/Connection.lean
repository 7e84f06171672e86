import Mathlib.Logic.Function.Basic

/-!
# Core — connection vocabulary

The parts of `bonsaidb_core` that `storage.rs` reads and returns: schema names, the error kinds
of spec §7, and sessions with the permissions they carry. `bonsaidb_core` is not among the
sources, so these follow the spec (§3 *Session*, §4.5, §7) and the way `storage.rs` uses them:

* `Error` keeps only the kinds a modelled function returns;
* `Permissions` is the decision the permission check consults, for every resource and action
  the storage operations name;
* `Session.checkPermission` is `Session::check_permission`, the only reader of the permissions.
-/

namespace BonsaiDb

/-- `SchemaName`: the authority and name a schema is registered under. -/
structure SchemaName where
  authority : String
  name : String
  deriving DecidableEq, Repr

/-- The `bonsaidb_core::Error` kinds the modelled functions return (spec §7). -/
inductive Error where
  | invalidDatabaseName (name : String)
  | databaseNotFound (name : String)
  | databaseNameAlreadyTaken (name : String)
  | schemaNotRegistered (schema : SchemaName)
  | schemaAlreadyRegistered (schema : SchemaName)
  | schemaMismatch (databaseName : String) (schema storedSchema : SchemaName)
  | userNotFound
  | invalidCredentials
  | permissionDenied
  | database (message : String)
  deriving DecidableEq, Repr

/-- The resources the storage operations check: `bonsaidb_resource_name()`,
`database_resource_name(name)` and `user_resource_name(id)`. -/
inductive ResourceName where
  | bonsaidb
  | database (name : String)
  | user (id : Nat)
  deriving DecidableEq, Repr

/-- `AuthenticationMethod`. -/
inductive AuthenticationMethod where
  | passwordHash
  deriving DecidableEq, Repr

/-- `ServerAction`: the action each storage operation asks permission for. -/
inductive ServerAction where
  | createDatabase
  | deleteDatabase
  | listDatabases
  | listAvailableSchemas
  | createUser
  | deleteUser
  | setPassword
  | authenticate (method : AuthenticationMethod)
  | assumeIdentity
  | modifyUserPermissionGroups
  | modifyUserRoles
  deriving DecidableEq, Repr

/-- Modelled from the spec: `Permissions` (from `bonsaidb_core::permissions`) decides, for a
resource and an action, whether the action is allowed (§4.5 "checks the action's required
permission against the session"). -/
structure Permissions where
  allowed : ResourceName → ServerAction → Bool

namespace Permissions

/-- Modelled from the spec: `Permissions::default()` allows nothing. -/
def default : Permissions := ⟨fun _ _ => false⟩

/-- Modelled from the spec: restricting by `q` keeps what both allow. -/
def restrictedBy (p q : Permissions) : Permissions :=
  ⟨fun r a => p.allowed r a && q.allowed r a⟩

end Permissions

/-- `Identity`: who a session acts as. -/
inductive Identity where
  | user (id : Nat) (username : String)
  | role (id : Nat) (name : String)
  deriving DecidableEq, Repr

/-- `Session` (spec §3): an optional id, an optional identity and its permissions. -/
structure Session where
  id : Option Nat
  identity : Option Identity
  permissions : Permissions

namespace Session

/-- `Session::default()`: no id, no identity, default permissions. -/
def default : Session := ⟨none, none, Permissions.default⟩

/-- `Session::check_permission`: `PermissionDenied` unless the permissions allow the action. -/
def checkPermission (s : Session) (resource : ResourceName) (action : ServerAction) :
    Except Error Unit :=
  if s.permissions.allowed resource action then .ok () else .error .permissionDenied

/-- `Session::restricted_by`. -/
def restrictedBy (s : Session) (p : Permissions) : Session :=
  { s with permissions := s.permissions.restrictedBy p }

theorem checkPermission_eq_ok_iff (s : Session) (resource : ResourceName)
    (action : ServerAction) :
    s.checkPermission resource action = .ok () ↔ s.permissions.allowed resource action := by
  unfold checkPermission
  split <;> simp_all

end Session

end BonsaiDb
