import BonsaiDb.Core.Connection
import BonsaiDb.Core.Map
import Mathlib.Data.List.Infix

/-!
# Storage — state

The state a `StorageInstance` shares between its handles (`Data` in `storage.rs`), together with
what it keeps on disk: the directories under the storage path and the admin collections of
database records, users, permission groups and roles, which the admin database's files in
`path.join(ADMIN_DATABASE_NAME)` hold.

* Paths are resolved as the file system resolves them: `Path.join` is `path.join(name)` followed
  by the resolution of `.`, `..` and empty components, and an absolute `name` replaces the path;
  `Path.joinExists` also asks that each `.` and `..` is looked up in a directory that exists.
* The admin `database::ByName` view (not among the sources) keys each database record by its
  name's ASCII lowercase, which is the key `create_database_with_schema` and `delete_database`
  query it with (`byName`).
* A `Storage` value is a handle on the shared state: its `AuthenticatedSession` (by session id)
  and its effective `Session`.
-/

namespace BonsaiDb.Local

/-! ## Paths -/

/-- A path: its components from the file-system root. -/
abbrev Path := List String

/-- A string's characters split at each `/`. -/
def splitSlash : List Char → List (List Char)
  | [] => [[]]
  | c :: cs =>
    if c = '/' then [] :: splitSlash cs
    else match splitSlash cs with
      | [] => [[c]]
      | p :: ps => (c :: p) :: ps

/-- Resolving `components` from `base`: empty and `.` components stay put, `..` goes up. -/
def resolve : Path → List String → Path
  | p, [] => p
  | p, c :: cs =>
    if c = "" ∨ c = "." then resolve p cs
    else if c = ".." then resolve p.dropLast cs
    else resolve (p ++ [c]) cs

/-- `path.join(name)` as the file system resolves it. -/
def Path.join (path : Path) (name : String) : Path :=
  resolve (if name.toList.head? = some '/' then [] else path)
    ((splitSlash name.toList).map String.mk)

/-- `fs::create_dir_all(p)`: `p` and each missing ancestor. -/
def createDirAll (p : Path) (dirs : List Path) : List Path :=
  dirs ++ (p.inits.filter fun q => q ≠ [] ∧ q ∉ dirs)

/-- Walking `components` from `p` as the kernel does: a `.` or a `..` is looked up in the
directory it follows, which must exist (the root always does). -/
def walks (dirs : List Path) : Path → List String → Bool
  | _, [] => true
  | p, c :: cs =>
    if c = "" then walks dirs p cs
    else if c = "." then decide (p = [] ∨ p ∈ dirs) && walks dirs p cs
    else if c = ".." then decide (p = [] ∨ p ∈ dirs) && walks dirs p.dropLast cs
    else walks dirs (p ++ [c]) cs

/-- `path.join(name).exists()` for a directory: the walk succeeds and ends on one. -/
def Path.joinExists (dirs : List Path) (path : Path) (name : String) : Bool :=
  walks dirs (if name.toList.head? = some '/' then [] else path)
      ((splitSlash name.toList).map String.mk) &&
    decide (Path.join path name ∈ dirs)

/-- Whether the last component of `name` is `.` or `..`: `rmdir` refuses to remove such a path,
so `remove_dir_all(path.join(name))` empties the directory and then fails. -/
def rmdirRefuses (name : String) : Bool :=
  match ((splitSlash name.toList).filter (· ≠ [])).getLast? with
  | some c => c = ['.'] || c = ['.', '.']
  | none => false

/-- Deleting the directory `p` deletes everything under it. -/
def deleteDirectory (p : Path) (dirs : List Path) : List Path :=
  dirs.filter fun d => ¬ p <+: d

/-- Emptying the directory `p` deletes everything under it and keeps `p`. -/
def emptyDirectory (p : Path) (dirs : List Path) : List Path :=
  dirs.filter fun d => ¬ (p <+: d ∧ d ≠ p)

theorem mem_createDirAll_self {p : Path} (hp : p ≠ []) (dirs : List Path) :
    p ∈ createDirAll p dirs := by
  by_cases h : p ∈ dirs
  · exact List.mem_append_left _ h
  · exact List.mem_append_right _
      (List.mem_filter.mpr ⟨(List.mem_inits _ _).mpr (List.prefix_refl p), by simp [hp, h]⟩)

theorem mem_deleteDirectory {p q : Path} {dirs : List Path} :
    q ∈ deleteDirectory p dirs ↔ q ∈ dirs ∧ ¬ p <+: q := by
  simp [deleteDirectory]

theorem mem_emptyDirectory {p q : Path} {dirs : List Path} :
    q ∈ emptyDirectory p dirs ↔ q ∈ dirs ∧ (p <+: q → q = p) := by
  simp only [emptyDirectory, List.mem_filter, decide_eq_true_eq, not_and, not_not]

/-! ## Names -/

/-- `ADMIN_DATABASE_NAME` (spec §6). -/
def adminDatabaseName : String := "_admin"

@[simp] theorem join_adminDatabaseName (path : Path) :
    Path.join path adminDatabaseName = path ++ [adminDatabaseName] := rfl

/-- Modelled from the spec: the name the `Admin` schema registers under; the sources do not
give it. -/
def adminSchemaName : SchemaName := ⟨"khonsulabs", "bonsaidb-admin"⟩

/-- `str::to_ascii_lowercase`. -/
def toAsciiLowercase (s : String) : String :=
  ⟨s.toList.map Char.toLower⟩

@[simp] theorem toAsciiLowercase_adminDatabaseName :
    toAsciiLowercase adminDatabaseName = adminDatabaseName := rfl

/-- The character test of `Storage::validate_name` at char index `index`. -/
def nameCharValid (index : Nat) (c : Char) : Bool :=
  c.isAlphanum || (index == 0 && c == '_') || (index > 0 && (c == '.' || c == '-'))

/-- `Storage::validate_name`. -/
def validateName (name : String) : Except Error Unit :=
  if name.toList.enum.all fun (i, c) => nameCharValid i c then .ok ()
  else .error (.invalidDatabaseName name)

theorem validateName_adminDatabaseName : validateName adminDatabaseName = .ok () := rfl

/-- The characters spec §4.4 allows at char index `index`: `[A-Za-z0-9]` anywhere, `_` only at
index 0, `.` and `-` only after it. -/
def AllowedNameChar (index : Nat) (c : Char) : Prop :=
  ('A' ≤ c ∧ c ≤ 'Z' ∨ 'a' ≤ c ∧ c ≤ 'z' ∨ '0' ≤ c ∧ c ≤ '9') ∨ index = 0 ∧ c = '_' ∨
    0 < index ∧ (c = '.' ∨ c = '-')

/-- `is_ascii_alphanumeric` and the index tests are the spec's character classes. -/
theorem nameCharValid_iff (index : Nat) (c : Char) :
    nameCharValid index c = true ↔ AllowedNameChar index c := by
  simp only [nameCharValid, Char.isAlphanum, Char.isAlpha, Char.isUpper, Char.isLower,
    Char.isDigit, Bool.or_eq_true, Bool.and_eq_true, decide_eq_true_eq, beq_iff_eq,
    AllowedNameChar, Char.le_def, or_assoc, ge_iff_le, gt_iff_lt]
  exact Iff.rfl

/-- `validate_name` accepts a name exactly when every character is allowed at its char index. -/
theorem validateName_eq_ok_iff (name : String) :
    validateName name = .ok () ↔
      ∀ i (h : i < name.toList.length), AllowedNameChar i (name.toList.get ⟨i, h⟩) := by
  simp only [validateName, ← nameCharValid_iff]
  split_ifs with hall
  · simp only [List.all_eq_true, Prod.forall, List.mem_enum_iff_getElem?,
      List.getElem?_eq_some_iff] at hall
    exact ⟨fun _ i hi => hall i _ ⟨hi, rfl⟩, fun _ => rfl⟩
  · simp only [List.all_eq_true, Prod.forall, List.mem_enum_iff_getElem?,
      List.getElem?_eq_some_iff, not_forall] at hall
    obtain ⟨i, c, ⟨hi, rfl⟩, hc⟩ := hall
    exact ⟨fun h => (nomatch h), fun h => absurd (h i hi) hc⟩

/-- `validate_name` accepts exactly the names whose every character is allowed at its char index,
and rejects any other with `InvalidDatabaseName(name)`; the empty name, with no character to test,
is accepted. -/
theorem empty_database_name_accepted :
    validateName "" = .ok () ∧ ∀ name,
      (validateName name = .ok () ↔
        ∀ i (h : i < name.toList.length), AllowedNameChar i (name.toList.get ⟨i, h⟩)) ∧
      (validateName name ≠ .ok () → validateName name = .error (.invalidDatabaseName name)) :=
  ⟨rfl, fun name => ⟨validateName_eq_ok_iff name, fun h => by
    unfold validateName at h ⊢
    split_ifs at h ⊢
    · exact absurd rfl h
    · rfl⟩⟩

/-! ## Admin collections -/

/-- A `DatabaseRecord` of the admin database. -/
structure DatabaseRecord where
  name : String
  schema : SchemaName
  deriving DecidableEq, Repr

/-- A `User` document of the admin database. -/
structure User where
  id : Nat
  username : String
  groups : List Nat
  roles : List Nat
  argonHash : Option String
  deriving DecidableEq, Repr

/-- A `PermissionGroup` or `Role` document: its id and name. -/
structure NamedDocument where
  id : Nat
  name : String
  deriving DecidableEq, Repr

/-- A reference by id or by name (`NamedReference`, what a `Nameable` argument becomes). -/
inductive NamedReference where
  | id (id : Nat)
  | name (name : String)
  deriving DecidableEq, Repr

/-- A query of the `database::ByName` view with the key `key`: the records whose name's ASCII
lowercase is `key`. -/
def byName (records : List DatabaseRecord) (key : String) : List DatabaseRecord :=
  records.filter fun r => toAsciiLowercase r.name = key

theorem byName_ne_nil_iff {records : List DatabaseRecord} {key : String} :
    byName records key ≠ [] ↔ ∃ r ∈ records, toAsciiLowercase r.name = key := by
  simp [byName, List.filter_eq_nil_iff]

theorem byName_ne_nil_of_subset {records records' : List DatabaseRecord} {key : String}
    (h : byName records key ≠ []) (hs : records ⊆ records') : byName records' key ≠ [] := by
  obtain ⟨r, hr, hk⟩ := byName_ne_nil_iff.mp h
  exact byName_ne_nil_iff.mpr ⟨r, hs hr, hk⟩

/-! ## Shared state -/

/-- A `StorageInstance`'s shared `Data` and the storage's disk. -/
structure Data where
  path : Path
  schemas : List SchemaName
  availableDatabases : Map SchemaName
  openRoots : List String
  directories : List Path
  databases : List DatabaseRecord
  users : List User
  permissionGroups : List NamedDocument
  roles : List NamedDocument
  /-- Whether the files of the open admin database are still on disk: deleting or emptying its
  directory, or a directory above it, removes them while its roots stay open. -/
  adminFiles : Bool
  sessions : List Nat
  lastSessionId : Nat
  subscribers : List (Nat × Option Nat)
  subscribersBySession : List (Nat × List Nat)

namespace StorageInstance

/-- `impl StorageConnection for StorageInstance`: `session` (lines 780–782). -/
def session : Option Session := none

/-- `StorageInstance::open_roots`: cached roots, or the tree store opened (and its directory
created) under `path.join(name)`. -/
def openRoots (d : Data) (name : String) : Data :=
  if name ∈ d.openRoots then d
  else { d with openRoots := name :: d.openRoots,
                directories := createDirAll (Path.join d.path name) d.directories }

/-- `StorageInstance::admin`: the admin database, its roots opened. -/
def admin (d : Data) : Data :=
  openRoots d adminDatabaseName

section openRoots

variable (d : Data) (name : String)

@[simp] theorem openRoots_path : (openRoots d name).path = d.path := by
  unfold openRoots; split <;> rfl

@[simp] theorem openRoots_schemas : (openRoots d name).schemas = d.schemas := by
  unfold openRoots; split <;> rfl

@[simp] theorem openRoots_availableDatabases :
    (openRoots d name).availableDatabases = d.availableDatabases := by
  unfold openRoots; split <;> rfl

@[simp] theorem openRoots_databases : (openRoots d name).databases = d.databases := by
  unfold openRoots; split <;> rfl

@[simp] theorem openRoots_sessions : (openRoots d name).sessions = d.sessions := by
  unfold openRoots; split <;> rfl

@[simp] theorem openRoots_lastSessionId :
    (openRoots d name).lastSessionId = d.lastSessionId := by
  unfold openRoots; split <;> rfl

@[simp] theorem openRoots_users : (openRoots d name).users = d.users := by
  unfold openRoots; split <;> rfl

@[simp] theorem openRoots_adminFiles : (openRoots d name).adminFiles = d.adminFiles := by
  unfold openRoots; split <;> rfl

end openRoots

/-- Opening the admin database's roots for the first time creates its directory. -/
theorem mem_admin_directories {d : Data} (h : adminDatabaseName ∉ d.openRoots) :
    Path.join d.path adminDatabaseName ∈ (admin d).directories := by
  rw [admin, openRoots, if_neg h]
  exact mem_createDirAll_self (by simp) _

end StorageInstance

/-- A `Storage` handle: the session id of its `AuthenticatedSession`, and its effective
session. -/
structure Storage where
  authentication : Option Nat
  effectiveSession : Session

namespace Storage

/-- `impl From<StorageInstance> for Storage`: no authentication, the default session. -/
def ofInstance : Storage := ⟨none, Session.default⟩

/-- `Storage::session`, which asks the instance (lines 1048–1050). -/
def session (_ : Storage) : Option Session := StorageInstance.session

/-- `Storage::check_permission`. -/
def checkPermission (st : Storage) (resource : ResourceName) (action : ServerAction) :
    Except Error Unit :=
  match st.session with
  | none => .ok ()
  | some session => session.checkPermission resource action

/-- `Storage::cache_available_databases`: every `ByName` entry, key to schema. -/
def cacheAvailableDatabases (records : List DatabaseRecord) : Map SchemaName :=
  records.foldl (fun m r => m.insert (toAsciiLowercase r.name) r.schema) []

/-- A key of the rebuilt map is exactly a key of the `ByName` view. -/
theorem cacheAvailableDatabases_get_isSome (records : List DatabaseRecord) (key : String) :
    ((cacheAvailableDatabases records).get key).isSome ↔ byName records key ≠ [] := by
  suffices ∀ m : Map SchemaName, ((records.foldl
      (fun m r => m.insert (toAsciiLowercase r.name) r.schema) m).get key).isSome ↔
      (m.get key).isSome ∨ byName records key ≠ [] by simpa using this []
  induction records with
  | nil => simp [byName]
  | cons r rs ih =>
    intro m
    rw [List.foldl_cons, ih]
    by_cases hk : toAsciiLowercase r.name = key
    · simp [hk, byName, List.filter_cons]
    · simp [hk, byName, List.filter_cons]

/-- No handle's check ever denies: `Storage::session` asks the instance, which has no
session. -/
theorem checkPermission_eq_ok (st : Storage) (resource : ResourceName) (action : ServerAction) :
    st.checkPermission resource action = .ok () := rfl

/-- `Storage::with_effective_permissions`. -/
def withEffectivePermissions (st : Storage) (p : Permissions) : Storage :=
  { st with effectiveSession := st.effectiveSession.restrictedBy p }

end Storage

end BonsaiDb.Local
