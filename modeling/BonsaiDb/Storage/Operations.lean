import BonsaiDb.Storage.State

/-!
# Storage — operations

The storage operations of `storage.rs`, on the shared `Data`: those of `impl StorageConnection
for StorageInstance` (lines 776–1042) and the `Storage` wrappers that check a permission first
(lines 1044–1292).

Every operation returns its result and the state after it, also when the result is an error:
`delete_database` changes the state before it can fail. The argon2 hasher and a user's effective
permissions are not among the sources; they are the `Collaborators` the operations are given.
-/

namespace BonsaiDb.Local

/-- What `storage.rs` calls that is not among the sources: the argon2 hasher and the permissions
a user's groups and roles grant. -/
structure Collaborators where
  hash : Nat → String → String
  verify : Nat → String → String → Bool
  effectivePermissions : User → Permissions

/-- The pushes of the `add_*_inner` functions: `id` appended unless present; whether it was. -/
def addIdInner (ids : List Nat) (id : Nat) : Bool × List Nat :=
  if id ∈ ids then (false, ids) else (true, ids ++ [id])

/-- The `retain`s of the `remove_*_inner` functions: every `id` dropped; whether the length
changed. -/
def removeIdInner (ids : List Nat) (id : Nat) : Bool × List Nat :=
  let kept := ids.filter (· ≠ id)
  (ids.length ≠ kept.length, kept)

namespace StorageInstance

/-- `User::load`: the user with this id, or with this username. -/
def loadUser (d : Data) : NamedReference → Option User
  | .id id => d.users.find? (·.id = id)
  | .name name => d.users.find? (·.username = name)

/-- `NamedReference::id` in the collection `docs`: an id as given, a name looked up. -/
def namedId (docs : List NamedDocument) : NamedReference → Option Nat
  | .id id => some id
  | .name name => (docs.find? (·.name = name)).map (·.id)

/-- The id `push` gives a new user: one past the largest. -/
def nextUserId (d : Data) : Nat :=
  (d.users.map (·.id)).foldr max 0 + 1

/-- `user.update(&admin)`: the stored user with `u`'s id replaced by `u`. -/
def replaceUser (d : Data) (u : User) : Data :=
  { d with users := d.users.map fun v => if v.id = u.id then u else v }

/-- `add_permission_group_to_user_inner`. -/
def addPermissionGroupToUserInner (u : User) (id : Nat) : Bool × User :=
  let (changed, groups) := addIdInner u.groups id
  (changed, { u with groups })

/-- `remove_permission_group_from_user_inner`. -/
def removePermissionGroupFromUserInner (u : User) (id : Nat) : Bool × User :=
  let (changed, groups) := removeIdInner u.groups id
  (changed, { u with groups })

/-- `add_role_to_user_inner`. -/
def addRoleToUserInner (u : User) (id : Nat) : Bool × User :=
  let (changed, roles) := addIdInner u.roles id
  (changed, { u with roles })

/-- `remove_role_from_user_inner`. -/
def removeRoleFromUserInner (u : User) (id : Nat) : Bool × User :=
  let (changed, roles) := removeIdInner u.roles id
  (changed, { u with roles })

/-- `register_schema`: `SchemaAlreadyRegistered` when the name is taken. -/
def registerSchema (d : Data) (schema : SchemaName) : Except Error Unit × Data :=
  if schema ∈ d.schemas then (.error (.schemaAlreadyRegistered schema), d)
  else (.ok (), { d with schemas := schema :: d.schemas })

/-- `create_database_with_schema` (lines 797–839). -/
def createDatabaseWithSchema (d : Data) (name : String) (schema : SchemaName)
    (onlyIfNeeded : Bool) : Except Error Unit × Data :=
  match validateName name with
  | .error e => (.error e, d)
  | .ok () =>
    if schema ∉ d.schemas then (.error (.schemaNotRegistered schema), d)
    else
      let d := admin d
      if byName d.databases (toAsciiLowercase name) ≠ [] then
        (if onlyIfNeeded then .ok () else .error (.databaseNameAlreadyTaken name), d)
      else
        (.ok (), { d with databases := d.databases ++ [⟨name, schema⟩],
                          availableDatabases := d.availableDatabases.insert name schema })

/-- The part of `delete_database` before the record lookup (lines 857–869): the name leaves
`available_databases` and `open_roots`, and `path.join(name)`, where it exists, is removed with
`remove_dir_all`. That empties the directory and then removes it; where the last component of
`name` is `.` or `..`, the final `rmdir` fails, the directory stays empty, and the error returns
before the lookup (as `Database`, with the I/O error's text, which the model leaves empty). The
open admin database loses its files when they are among those removed. -/
def forgetDatabase (d : Data) (name : String) : Except Error Unit × Data :=
  let folder := Path.join d.path name
  let d := { d with availableDatabases := d.availableDatabases.erase name,
                    openRoots := d.openRoots.erase name }
  if Path.joinExists d.directories d.path name then
    let d := { d with
      adminFiles := d.adminFiles && !decide (folder <+: Path.join d.path adminDatabaseName) }
    if rmdirRefuses name then
      (.error (.database ""), { d with directories := emptyDirectory folder d.directories })
    else (.ok (), { d with directories := deleteDirectory folder d.directories })
  else (.ok (), d)

section forgetDatabase

variable (d : Data) (name : String)

@[simp] theorem forgetDatabase_path : (forgetDatabase d name).2.path = d.path := by
  unfold forgetDatabase; dsimp only; split_ifs <;> rfl

@[simp] theorem forgetDatabase_availableDatabases :
    (forgetDatabase d name).2.availableDatabases = d.availableDatabases.erase name := by
  unfold forgetDatabase; dsimp only; split_ifs <;> rfl

@[simp] theorem forgetDatabase_databases :
    (forgetDatabase d name).2.databases = d.databases := by
  unfold forgetDatabase; dsimp only; split_ifs <;> rfl

end forgetDatabase

/-- `forgetDatabase` fails only where `rmdir` refuses the last component of the name. -/
theorem forgetDatabase_error {d : Data} {name : String} {e : Error}
    (h : (forgetDatabase d name).1 = .error e) : rmdirRefuses name = true := by
  unfold forgetDatabase at h
  dsimp only at h
  split_ifs at h with _ hrefuses
  exact hrefuses

/-- The open admin database keeps its files unless `path.join(name)` holds them. -/
theorem forgetDatabase_adminFiles {d : Data} {name : String} (hf : d.adminFiles = true)
    (hp : ¬ Path.join d.path name <+: Path.join d.path adminDatabaseName) :
    (forgetDatabase d name).2.adminFiles = true := by
  rw [join_adminDatabaseName] at hp
  unfold forgetDatabase
  dsimp only
  split_ifs <;> simp [hf, hp]

/-- A directory survives `forgetDatabase` unless it lies under `path.join(name)`. -/
theorem mem_forgetDatabase_directories {d : Data} {name : String} {q : Path}
    (hq : q ∈ d.directories) (hp : ¬ Path.join d.path name <+: q) :
    q ∈ (forgetDatabase d name).2.directories := by
  unfold forgetDatabase
  dsimp only
  split_ifs
  · exact mem_emptyDirectory.mpr ⟨hq, fun h => absurd h hp⟩
  · exact mem_deleteDirectory.mpr ⟨hq, hp⟩
  · exact hq

/-- The record lookup of `delete_database` (lines 871–882): the record the `ByName` view finds
for the name's ASCII lowercase is deleted, or the call fails with `DatabaseNotFound`. -/
def deleteRecord (d : Data) (name : String) : Except Error Unit × Data :=
  match byName d.databases (toAsciiLowercase name) with
  | _ :: _ =>
    (.ok (), { d with databases :=
      d.databases.eraseP fun r => toAsciiLowercase r.name = toAsciiLowercase name })
  | [] => (.error (.databaseNotFound name), d)

/-- The admin database `open_roots` opens again once `delete_database` has dropped it from
`open_roots`: its directory is gone, so the new one starts with empty collections, and its files
are on disk. -/
def reopenAdmin (d : Data) : Data :=
  { d with databases := [], users := [], permissionGroups := [], roles := [], adminFiles := true }

/-- `delete_database` (lines 855–883): the name is forgotten before its admin record is looked
up, on the admin database opened at the start; deleting `ADMIN_DATABASE_NAME` drops that
database from `open_roots`, so the next `admin()` opens it anew (`reopenAdmin`). -/
def deleteDatabase (d : Data) (name : String) : Except Error Unit × Data :=
  match forgetDatabase (admin d) name with
  | (.error e, d) => (.error e, d)
  | (.ok (), d) =>
    let (result, d) := deleteRecord d name
    (result, if name = adminDatabaseName then reopenAdmin d else d)

section deleteDatabase

variable (d : Data) (name : String)

@[simp] theorem deleteRecord_path : (deleteRecord d name).2.path = d.path := by
  unfold deleteRecord; split <;> rfl

@[simp] theorem deleteRecord_availableDatabases :
    (deleteRecord d name).2.availableDatabases = d.availableDatabases := by
  unfold deleteRecord; split <;> rfl

@[simp] theorem deleteRecord_directories :
    (deleteRecord d name).2.directories = d.directories := by
  unfold deleteRecord; split <;> rfl

@[simp] theorem deleteRecord_adminFiles :
    (deleteRecord d name).2.adminFiles = d.adminFiles := by
  unfold deleteRecord; split <;> rfl

@[simp] theorem reopenAdmin_path : (reopenAdmin d).path = d.path := rfl

@[simp] theorem reopenAdmin_availableDatabases :
    (reopenAdmin d).availableDatabases = d.availableDatabases := rfl

@[simp] theorem reopenAdmin_directories : (reopenAdmin d).directories = d.directories := rfl

/-- Each outcome of `delete_database`: the directory removal fails, or the record lookup runs,
on the state `forgetDatabase` leaves, and deleting `ADMIN_DATABASE_NAME` reopens the admin
database. -/
theorem deleteDatabase_cases :
    (∃ e, (forgetDatabase (admin d) name).1 = .error e ∧
      deleteDatabase d name = (.error e, (forgetDatabase (admin d) name).2)) ∨
    ((forgetDatabase (admin d) name).1 = .ok () ∧
      deleteDatabase d name = ((deleteRecord (forgetDatabase (admin d) name).2 name).1,
        if name = adminDatabaseName then
          reopenAdmin (deleteRecord (forgetDatabase (admin d) name).2 name).2
        else (deleteRecord (forgetDatabase (admin d) name).2 name).2)) := by
  unfold deleteDatabase
  rcases forgetDatabase (admin d) name with ⟨e | _, d'⟩
  · exact .inl ⟨e, rfl, rfl⟩
  · exact .inr ⟨rfl, rfl⟩

@[simp] theorem deleteDatabase_path : (deleteDatabase d name).2.path = d.path := by
  rcases deleteDatabase_cases d name with ⟨e, -, h⟩ | ⟨-, h⟩ <;> rw [h]
  · simp [admin]
  · split_ifs <;> simp [admin]

@[simp] theorem deleteDatabase_availableDatabases :
    (deleteDatabase d name).2.availableDatabases = d.availableDatabases.erase name := by
  rcases deleteDatabase_cases d name with ⟨e, -, h⟩ | ⟨-, h⟩ <;> rw [h]
  · simp [admin]
  · split_ifs <;> simp [admin]

/-- Whatever `delete_database` returns, its directories are those `forgetDatabase` leaves. -/
theorem deleteDatabase_directories :
    (deleteDatabase d name).2.directories = (forgetDatabase (admin d) name).2.directories := by
  rcases deleteDatabase_cases d name with ⟨e, -, h⟩ | ⟨-, h⟩ <;> rw [h]
  split_ifs <;> simp

/-- `delete_database` leaves the admin database's files on disk unless the directory it
removes holds them. -/
theorem deleteDatabase_adminFiles {d : Data} {name : String} (hf : d.adminFiles = true)
    (hp : ¬ Path.join d.path name <+: Path.join d.path adminDatabaseName) :
    (deleteDatabase d name).2.adminFiles = true := by
  have hf' := forgetDatabase_adminFiles (d := admin d) (by simpa [admin] using hf)
    (by simpa [admin] using hp)
  rcases deleteDatabase_cases d name with ⟨e, -, h⟩ | ⟨-, h⟩ <;> rw [h]
  · exact hf'
  · split_ifs
    · rfl
    · simpa using hf'

end deleteDatabase

/-- `delete_database` of a name other than `ADMIN_DATABASE_NAME` keeps every record whose name
differs from it in ASCII lowercase. -/
theorem mem_deleteDatabase_databases {d : Data} {name : String} {r : DatabaseRecord}
    (hname : name ≠ adminDatabaseName) (hr : r ∈ d.databases)
    (hne : toAsciiLowercase r.name ≠ toAsciiLowercase name) :
    r ∈ (deleteDatabase d name).2.databases := by
  have hr' : r ∈ (forgetDatabase (admin d) name).2.databases := by simpa [admin] using hr
  rcases deleteDatabase_cases d name with ⟨e, -, h⟩ | ⟨-, h⟩ <;> rw [h]
  · exact hr'
  · rw [if_neg hname]
    unfold deleteRecord
    split
    · exact (List.mem_eraseP_of_neg (by simpa using hne)).mpr hr'
    · exact hr'

/-- `database_without_schema` (lines 589–616): the registered schema, its roots opened. -/
def databaseWithoutSchema (d : Data) (name : String) : Except Error SchemaName × Data :=
  match d.availableDatabases.get name with
  | none => (.error (.databaseNotFound name), d)
  | some schema =>
    if schema ∈ d.schemas then (.ok schema, openRoots d name)
    else (.error (.schemaNotRegistered schema), d)

/-- `database::<DB>` for a schema `DB` named `expected` (lines 841–852). -/
def database (d : Data) (name : String) (expected : SchemaName) : Except Error Unit × Data :=
  match databaseWithoutSchema d name with
  | (.ok schema, d) =>
    (if schema = expected then .ok () else .error (.schemaMismatch name expected schema), d)
  | (.error e, d) => (.error e, d)

/-- `list_databases`. -/
def listDatabases (d : Data) : Except Error (List DatabaseRecord) :=
  .ok (d.availableDatabases.map fun (name, schema) => ⟨name, schema⟩)

/-- `list_available_schemas`. -/
def listAvailableSchemas (d : Data) : Except Error (List SchemaName) :=
  .ok (d.availableDatabases.map (·.2)).eraseDups

/-- `create_user`. -/
def createUser (d : Data) (username : String) : Except Error Nat × Data :=
  let d := admin d
  (.ok (nextUserId d), { d with users := d.users ++ [⟨nextUserId d, username, [], [], none⟩] })

/-- `delete_user`. -/
def deleteUser (d : Data) (user : NamedReference) : Except Error Unit × Data :=
  let d := admin d
  match loadUser d user with
  | none => (.error .userNotFound, d)
  | some u => (.ok (), { d with users := d.users.filter (·.id ≠ u.id) })

/-- `set_user_password`. -/
def setUserPassword (c : Collaborators) (d : Data) (user : NamedReference)
    (password : String) : Except Error Unit × Data :=
  let d := admin d
  match loadUser d user with
  | none => (.error .userNotFound, d)
  | some u => (.ok (), replaceUser d { u with argonHash := some (c.hash u.id password) })

/-- `assume_user` (lines 669–698): the next session id, registered in `sessions`, and a handle
holding it. -/
def assumeUser (c : Collaborators) (d : Data) (u : User) : Storage × Data :=
  let id := d.lastSessionId + 1
  (⟨some id, ⟨some id, some (.user u.id u.username), c.effectivePermissions u⟩⟩,
    { d with lastSessionId := id, sessions := d.sessions ++ [id] })

/-- `authenticate_inner` for a password. -/
def authenticateInner (c : Collaborators) (d : Data) (u : User) (password : String) :
    Except Error Storage × Data :=
  match u.argonHash with
  | none => (.error .invalidCredentials, d)
  | some hash =>
    if c.verify u.id password hash then
      let (st, d) := assumeUser c d u
      (.ok st, d)
    else (.error .invalidCredentials, d)

/-- `authenticate`. -/
def authenticate (c : Collaborators) (d : Data) (user : NamedReference) (password : String) :
    Except Error Storage × Data :=
  let d := admin d
  match loadUser d user with
  | none => (.error .invalidCredentials, d)
  | some u => authenticateInner c d u password

/-- `assume_identity`; `none` for an identity other than a user, where it calls `todo!()`. -/
def assumeIdentity (c : Collaborators) (d : Data) (identity : Identity) :
    Option (Except Error Storage × Data) :=
  let d := admin d
  match identity with
  | .user id _ =>
    some (match loadUser d (.id id) with
      | none => (.error .invalidCredentials, d)
      | some u =>
        let (st, d) := assumeUser c d u
        (.ok st, d))
  | .role _ _ => none

/-- `update_user_with_named_id` over the collection `docs` (lines 618–645). -/
def updateUserWithNamedId (docs : Data → List NamedDocument) (d : Data)
    (user other : NamedReference) (callback : User → Nat → Except Error (Bool × User)) :
    Except Error Unit × Data :=
  let d := admin d
  match loadUser d user, namedId (docs d) other with
  | some u, some id =>
    match callback u id with
    | .error e => (.error e, d)
    | .ok (changed, u) => (.ok (), if changed then replaceUser d u else d)
  | _, _ => (.error .userNotFound, d)

/-- `add_permission_group_to_user`. -/
def addPermissionGroupToUser (d : Data) (user group : NamedReference) :
    Except Error Unit × Data :=
  updateUserWithNamedId (·.permissionGroups) d user group
    fun u id => .ok (addPermissionGroupToUserInner u id)

/-- `remove_permission_group_from_user`. -/
def removePermissionGroupFromUser (d : Data) (user group : NamedReference) :
    Except Error Unit × Data :=
  updateUserWithNamedId (·.permissionGroups) d user group
    fun u id => .ok (removePermissionGroupFromUserInner u id)

/-- `add_role_to_user`, which resolves the role among the permission groups (line 1022). -/
def addRoleToUser (d : Data) (user role : NamedReference) : Except Error Unit × Data :=
  updateUserWithNamedId (·.permissionGroups) d user role
    fun u id => .ok (addRoleToUserInner u id)

/-- `remove_role_from_user`. -/
def removeRoleFromUser (d : Data) (user role : NamedReference) : Except Error Unit × Data :=
  updateUserWithNamedId (·.roles) d user role
    fun u id => .ok (removeRoleFromUserInner u id)

end StorageInstance

namespace Storage

/-- An operation behind a permission check: the check's error, or the operation. -/
def guarded {α : Type} (check : Except Error Unit) (op : Data → Except Error α × Data)
    (d : Data) : Except Error α × Data :=
  match check with
  | .error e => (.error e, d)
  | .ok () => op d

/-- The callback of the `Storage` user-update wrappers: the permission check on the user, then
the instance's callback. -/
def checkedCallback (st : Storage) (action : ServerAction) (inner : User → Nat → Bool × User)
    (u : User) (id : Nat) : Except Error (Bool × User) :=
  match st.checkPermission (.user u.id) action with
  | .error e => .error e
  | .ok () => .ok (inner u id)

/-- The id `user.id::<User>` resolves a reference to. -/
def userId (d : Data) : NamedReference → Option Nat
  | .id id => some id
  | .name name => (d.users.find? (·.username = name)).map (·.id)

variable (st : Storage)

/-- `create_database_with_schema` (lines 1060–1072). -/
def createDatabaseWithSchema (d : Data) (name : String) (schema : SchemaName)
    (onlyIfNeeded : Bool) : Except Error Unit × Data :=
  guarded (st.checkPermission (.database name) .createDatabase)
    (StorageInstance.createDatabaseWithSchema · name schema onlyIfNeeded) d

/-- `delete_database` (lines 1079–1085). -/
def deleteDatabase (d : Data) (name : String) : Except Error Unit × Data :=
  guarded (st.checkPermission (.database name) .deleteDatabase)
    (StorageInstance.deleteDatabase · name) d

/-- `list_databases` (lines 1088–1094). -/
def listDatabases (d : Data) : Except Error (List DatabaseRecord) :=
  (st.checkPermission .bonsaidb .listDatabases).bind fun () => StorageInstance.listDatabases d

/-- `list_available_schemas` (lines 1097–1103). -/
def listAvailableSchemas (d : Data) : Except Error (List SchemaName) :=
  (st.checkPermission .bonsaidb .listAvailableSchemas).bind fun () =>
    StorageInstance.listAvailableSchemas d

/-- `create_user` (lines 1106–1112). -/
def createUser (d : Data) (username : String) : Except Error Nat × Data :=
  guarded (st.checkPermission .bonsaidb .createUser) (StorageInstance.createUser · username) d

/-- `delete_user`: the user's id is looked up before the check. -/
def deleteUser (d : Data) (user : NamedReference) : Except Error Unit × Data :=
  let d := StorageInstance.admin d
  match userId d user with
  | none => (.error .userNotFound, d)
  | some id => guarded (st.checkPermission (.user id) .deleteUser)
      (StorageInstance.deleteUser · user) d

/-- `set_user_password`: the user's id is looked up before the check. -/
def setUserPassword (c : Collaborators) (d : Data) (user : NamedReference) (password : String) :
    Except Error Unit × Data :=
  let d := StorageInstance.admin d
  match userId d user with
  | none => (.error .userNotFound, d)
  | some id => guarded (st.checkPermission (.user id) .setPassword)
      (StorageInstance.setUserPassword c · user password) d

/-- `authenticate`: the user is loaded before the check. -/
def authenticate (c : Collaborators) (d : Data) (user : NamedReference) (password : String) :
    Except Error Storage × Data :=
  let d := StorageInstance.admin d
  match StorageInstance.loadUser d user with
  | none => (.error .invalidCredentials, d)
  | some u => guarded (st.checkPermission (.user u.id) (.authenticate .passwordHash))
      (StorageInstance.authenticateInner c · u password) d

/-- `assume_identity`: checked on the user's id; any other identity is `UserNotFound`. -/
def assumeIdentity (c : Collaborators) (d : Data) (identity : Identity) :
    Except Error Storage × Data :=
  match identity with
  | .user id _ =>
    guarded (st.checkPermission (.user id) .assumeIdentity) (fun d =>
      let d := StorageInstance.admin d
      match StorageInstance.loadUser d (.id id) with
      | none => (.error .invalidCredentials, d)
      | some u =>
        let (st', d) := StorageInstance.assumeUser c d u
        (.ok st', d)) d
  | .role _ _ => (.error .userNotFound, d)

/-- `add_permission_group_to_user` (lines 1196–1221): checked in the callback, on the loaded
user. -/
def addPermissionGroupToUser (d : Data) (user group : NamedReference) :
    Except Error Unit × Data :=
  StorageInstance.updateUserWithNamedId (·.permissionGroups) d user group
    (checkedCallback st .modifyUserPermissionGroups StorageInstance.addPermissionGroupToUserInner)

/-- `remove_permission_group_from_user` (lines 1224–1249). -/
def removePermissionGroupFromUser (d : Data) (user group : NamedReference) :
    Except Error Unit × Data :=
  StorageInstance.updateUserWithNamedId (·.permissionGroups) d user group
    (checkedCallback st .modifyUserPermissionGroups
      StorageInstance.removePermissionGroupFromUserInner)

/-- `add_role_to_user`, which resolves the role among the permission groups (line 1263). -/
def addRoleToUser (d : Data) (user role : NamedReference) : Except Error Unit × Data :=
  StorageInstance.updateUserWithNamedId (·.permissionGroups) d user role
    (checkedCallback st .modifyUserRoles StorageInstance.addRoleToUserInner)

/-- `remove_role_from_user` (lines 1273–1291). -/
def removeRoleFromUser (d : Data) (user role : NamedReference) : Except Error Unit × Data :=
  StorageInstance.updateUserWithNamedId (·.roles) d user role
    (checkedCallback st .modifyUserRoles StorageInstance.removeRoleFromUserInner)

end Storage

end BonsaiDb.Local
