import BonsaiDb.Storage.Operations

/-!
# Storage — opening a storage and running it

`Storage::open` on what a storage keeps on disk, and the states a program reaches from it by
calling storage operations, through the instance or through any `Storage` handle, in any order
(`Reachable`). Every call other than `delete_database` only adds to the database registry, the
admin records and the directories (`Grows`).
-/

namespace BonsaiDb.Local

/-- What a storage keeps on disk between two opens: its directories, and the admin collections
the files of its admin database hold. -/
structure Disk where
  directories : List Path
  databases : List DatabaseRecord
  users : List User
  permissionGroups : List NamedDocument
  roles : List NamedDocument

/-- The disk as a storage at `path` opens it: the admin database's files are in
`path.join(ADMIN_DATABASE_NAME)`, and where that directory does not exist the admin database
starts empty. -/
def Disk.atPath (disk : Disk) (path : Path) : Disk :=
  if Path.join path adminDatabaseName ∈ disk.directories then disk
  else ⟨disk.directories, [], [], [], []⟩

/-- The parts of `StorageConfiguration` that `Storage::open` reads into the state. -/
structure StorageConfiguration where
  path : Path
  initialSchemas : List SchemaName
  /-- The `encryption` feature, with the local vault key storage. -/
  encryption : Bool

/-- Modelled from the spec: `LocalVaultKeyStorage::new(path.join("vault-keys"))` keeps its keys
in the directory `vault-keys` under the storage path (§6). -/
def vaultKeysDirectory (path : Path) : Path :=
  Path.join path "vault-keys"

namespace Storage

/-- The part of `Storage::create_admin_database_if_needed` after `register_schema::<Admin>`
(lines 422–428): the admin database is opened, or created where it is not found. -/
def ensureAdminDatabase (d : Data) : Except Error Data :=
  match StorageInstance.database d adminDatabaseName adminSchemaName with
  | (.ok (), d) => .ok d
  | (.error (.databaseNotFound _), d) =>
    match createDatabaseWithSchema ofInstance d adminDatabaseName adminSchemaName true with
    | (.ok (), d) => .ok d
    | (.error e, _) => .error e
  | (.error e, _) => .error e

/-- `Storage::create_admin_database_if_needed` (lines 420–430). -/
def createAdminDatabaseIfNeeded (d : Data) : Except Error Data :=
  match StorageInstance.registerSchema d adminSchemaName with
  | (.error e, _) => .error e
  | (.ok (), d) => ensureAdminDatabase d

/-- `Storage::open` (lines 261–352) on a storage whose disk holds `disk`. -/
def «open» (config : StorageConfiguration) (disk : Disk) : Except Error Data :=
  let disk := disk.atPath config.path
  let dirs := createDirAll config.path disk.directories
  let dirs := if config.encryption then createDirAll (vaultKeysDirectory config.path) dirs
    else dirs
  let d := StorageInstance.admin ⟨config.path, config.initialSchemas, [], [], dirs,
    disk.databases, disk.users, disk.permissionGroups, disk.roles, true, [], 0, [], []⟩
  createAdminDatabaseIfNeeded { d with availableDatabases := cacheAvailableDatabases d.databases }

end Storage

/-- What the state leaves on disk for the next `Storage::open`: its directories, and the admin
collections while the open admin database's files are on disk. -/
def Data.disk (d : Data) : Disk :=
  if d.adminFiles then ⟨d.directories, d.databases, d.users, d.permissionGroups, d.roles⟩
  else ⟨d.directories, [], [], [], []⟩

/-- One call of a storage operation, with its arguments. -/
inductive StorageCall where
  | createDatabaseWithSchema (name : String) (schema : SchemaName) (onlyIfNeeded : Bool)
  | deleteDatabase (name : String)
  | database (name : String) (schema : SchemaName)
  | listDatabases
  | listAvailableSchemas
  | registerSchema (schema : SchemaName)
  | createUser (username : String)
  | deleteUser (user : NamedReference)
  | setUserPassword (user : NamedReference) (password : String)
  | authenticate (user : NamedReference) (password : String)
  | assumeIdentity (identity : Identity)
  | addPermissionGroupToUser (user group : NamedReference)
  | removePermissionGroupFromUser (user group : NamedReference)
  | addRoleToUser (user role : NamedReference)
  | removeRoleFromUser (user role : NamedReference)

namespace StorageCall

variable (c : Collaborators) (d : Data)

/-- The state after the call through the instance; `none` where it panics. -/
def onInstance : StorageCall → Option Data
  | .createDatabaseWithSchema name schema o =>
    some (StorageInstance.createDatabaseWithSchema d name schema o).2
  | .deleteDatabase name => some (StorageInstance.deleteDatabase d name).2
  | .database name schema => some (StorageInstance.database d name schema).2
  | .listDatabases | .listAvailableSchemas => some d
  | .registerSchema schema => some (StorageInstance.registerSchema d schema).2
  | .createUser username => some (StorageInstance.createUser d username).2
  | .deleteUser user => some (StorageInstance.deleteUser d user).2
  | .setUserPassword user password => some (StorageInstance.setUserPassword c d user password).2
  | .authenticate user password => some (StorageInstance.authenticate c d user password).2
  | .assumeIdentity identity => (StorageInstance.assumeIdentity c d identity).map (·.2)
  | .addPermissionGroupToUser user group =>
    some (StorageInstance.addPermissionGroupToUser d user group).2
  | .removePermissionGroupFromUser user group =>
    some (StorageInstance.removePermissionGroupFromUser d user group).2
  | .addRoleToUser user role => some (StorageInstance.addRoleToUser d user role).2
  | .removeRoleFromUser user role => some (StorageInstance.removeRoleFromUser d user role).2

/-- The state after the call through the handle `st`. -/
def onStorage (st : Storage) : StorageCall → Data
  | .createDatabaseWithSchema name schema o => (st.createDatabaseWithSchema d name schema o).2
  | .deleteDatabase name => (st.deleteDatabase d name).2
  | .database name schema => (StorageInstance.database d name schema).2
  | .listDatabases | .listAvailableSchemas => d
  | .registerSchema schema => (StorageInstance.registerSchema d schema).2
  | .createUser username => (st.createUser d username).2
  | .deleteUser user => (st.deleteUser d user).2
  | .setUserPassword user password => (st.setUserPassword c d user password).2
  | .authenticate user password => (st.authenticate c d user password).2
  | .assumeIdentity identity => (st.assumeIdentity c d identity).2
  | .addPermissionGroupToUser user group => (st.addPermissionGroupToUser d user group).2
  | .removePermissionGroupFromUser user group => (st.removePermissionGroupFromUser d user group).2
  | .addRoleToUser user role => (st.addRoleToUser d user role).2
  | .removeRoleFromUser user role => (st.removeRoleFromUser d user role).2

end StorageCall

/-- The states reached from `Storage::open` by calls that `allowed` admits (given the storage
path), through the instance or any handle, in any order. -/
inductive Reachable (c : Collaborators) (allowed : Path → StorageCall → Prop) : Data → Prop where
  | «open» {config : StorageConfiguration} {disk : Disk} {d : Data} :
    Storage.open config disk = .ok d → Reachable c allowed d
  | onInstance {d d' : Data} (call : StorageCall) : Reachable c allowed d →
    allowed d.path call → call.onInstance c d = some d' → Reachable c allowed d'
  | onStorage {d : Data} (st : Storage) (call : StorageCall) : Reachable c allowed d →
    allowed d.path call → Reachable c allowed (call.onStorage c d st)

/-! ## What every call but `delete_database` keeps -/

/-- Every session id assigned so far is in the `sessions` table. -/
def SessionsKept (d : Data) : Prop :=
  ∀ id, 0 < id → id ≤ d.lastSessionId → id ∈ d.sessions

/-- `assume_user` registers the id it assigns. -/
theorem SessionsKept.assumeUser {c : Collaborators} {d : Data} (h : SessionsKept d) (u : User) :
    SessionsKept (StorageInstance.assumeUser c d u).2 := by
  intro id hid hle
  simp only [StorageInstance.assumeUser] at hle ⊢
  rcases Nat.lt_or_eq_of_le hle with hlt | rfl
  · exact List.mem_append_left _ (h id hid (Nat.lt_succ_iff.mp hlt))
  · exact List.mem_append_right _ (List.mem_singleton_self _)

/-- `d'` keeps the storage path, every registered name, every admin record, every directory
and every assigned session of `d`. -/
structure Grows (d d' : Data) : Prop where
  path : d'.path = d.path
  available : ∀ k, (d.availableDatabases.get k).isSome → (d'.availableDatabases.get k).isSome
  databases : d.databases ⊆ d'.databases
  directories : d.directories ⊆ d'.directories
  sessions : SessionsKept d → SessionsKept d'

namespace Grows

theorem refl (d : Data) : Grows d d :=
  ⟨rfl, fun _ h => h, List.Subset.refl _, List.Subset.refl _, id⟩

theorem trans {d₁ d₂ d₃ : Data} (h₁ : Grows d₁ d₂) (h₂ : Grows d₂ d₃) : Grows d₁ d₃ :=
  ⟨h₂.path.trans h₁.path, fun k h => h₂.available k (h₁.available k h),
    List.Subset.trans h₁.databases h₂.databases, List.Subset.trans h₁.directories h₂.directories,
    fun h => h₂.sessions (h₁.sessions h)⟩

/-- A change to fields neither the registry nor the session table reads. -/
theorem of_frame {d d' : Data} (hp : d'.path = d.path)
    (ha : d'.availableDatabases = d.availableDatabases) (hd : d'.databases = d.databases)
    (hr : d'.directories = d.directories) (hs : d'.sessions = d.sessions)
    (hl : d'.lastSessionId = d.lastSessionId) : Grows d d' :=
  ⟨hp, fun _ h => ha ▸ h, hd ▸ List.Subset.refl _, hr ▸ List.Subset.refl _,
    fun h id hid hle => hs ▸ h id hid (hl ▸ hle)⟩

theorem openRoots (d : Data) (name : String) : Grows d (StorageInstance.openRoots d name) := by
  unfold StorageInstance.openRoots
  split
  · exact refl d
  · exact ⟨rfl, fun _ h => h, List.Subset.refl _, List.subset_append_left _ _, id⟩

theorem admin (d : Data) : Grows d (StorageInstance.admin d) :=
  openRoots d adminDatabaseName

theorem replaceUser (d : Data) (u : User) : Grows d (StorageInstance.replaceUser d u) :=
  of_frame rfl rfl rfl rfl rfl rfl

theorem guarded {α : Type} {op : Data → Except Error α × Data} (hop : ∀ d, Grows d (op d).2)
    (check : Except Error Unit) (d : Data) : Grows d (Storage.guarded check op d).2 := by
  unfold Storage.guarded
  split
  · exact refl d
  · exact hop d

theorem createDatabaseWithSchema (d : Data) (name : String) (schema : SchemaName) (o : Bool) :
    Grows d (StorageInstance.createDatabaseWithSchema d name schema o).2 := by
  unfold StorageInstance.createDatabaseWithSchema
  dsimp only
  split
  · exact refl d
  · split
    · exact refl d
    · split
      · exact admin d
      · refine (admin d).trans ⟨rfl, fun k h => ?_, List.subset_append_left _ _,
          List.Subset.refl _, id⟩
        by_cases hk : name = k
        · simp [hk]
        · simpa [hk] using h

theorem database (d : Data) (name : String) (schema : SchemaName) :
    Grows d (StorageInstance.database d name schema).2 := by
  have hw : Grows d (StorageInstance.databaseWithoutSchema d name).2 := by
    unfold StorageInstance.databaseWithoutSchema
    split
    · exact refl d
    · split
      · exact openRoots d name
      · exact refl d
  unfold StorageInstance.database
  split <;> next _ _ h => simpa [h] using hw

theorem registerSchema (d : Data) (schema : SchemaName) :
    Grows d (StorageInstance.registerSchema d schema).2 := by
  unfold StorageInstance.registerSchema
  split
  · exact refl d
  · exact of_frame rfl rfl rfl rfl rfl rfl

theorem createUser (d : Data) (username : String) :
    Grows d (StorageInstance.createUser d username).2 :=
  (admin d).trans (of_frame rfl rfl rfl rfl rfl rfl)

theorem deleteUser (d : Data) (user : NamedReference) :
    Grows d (StorageInstance.deleteUser d user).2 := by
  unfold StorageInstance.deleteUser
  dsimp only
  split
  · exact admin d
  · exact (admin d).trans (of_frame rfl rfl rfl rfl rfl rfl)

theorem setUserPassword (c : Collaborators) (d : Data) (user : NamedReference) (p : String) :
    Grows d (StorageInstance.setUserPassword c d user p).2 := by
  unfold StorageInstance.setUserPassword
  dsimp only
  split
  · exact admin d
  · exact (admin d).trans (replaceUser _ _)

theorem assumeUser (c : Collaborators) (d : Data) (u : User) :
    Grows d (StorageInstance.assumeUser c d u).2 :=
  ⟨rfl, fun _ h => h, List.Subset.refl _, List.Subset.refl _, (·.assumeUser u)⟩

theorem authenticateInner (c : Collaborators) (d : Data) (u : User) (p : String) :
    Grows d (StorageInstance.authenticateInner c d u p).2 := by
  unfold StorageInstance.authenticateInner
  split
  · exact refl d
  · split
    · exact assumeUser c d u
    · exact refl d

theorem authenticate (c : Collaborators) (d : Data) (user : NamedReference) (p : String) :
    Grows d (StorageInstance.authenticate c d user p).2 := by
  unfold StorageInstance.authenticate
  dsimp only
  split
  · exact admin d
  · exact (admin d).trans (authenticateInner _ _ _ _)

theorem updateUserWithNamedId (docs : Data → List NamedDocument) (d : Data)
    (user other : NamedReference) (callback : User → Nat → Except Error (Bool × User)) :
    Grows d (StorageInstance.updateUserWithNamedId docs d user other callback).2 := by
  unfold StorageInstance.updateUserWithNamedId
  dsimp only
  split
  · split
    · exact admin d
    · split
      · exact (admin d).trans (replaceUser _ _)
      · exact admin d
  · exact admin d

theorem assumeIdentity {c : Collaborators} {d : Data} {identity : Identity}
    {r : Except Error Storage × Data} (h : StorageInstance.assumeIdentity c d identity = some r) :
    Grows d r.2 := by
  unfold StorageInstance.assumeIdentity at h
  dsimp only at h
  split at h
  · cases h
    split
    · exact admin d
    · next u _ => exact (admin d).trans (assumeUser c _ u)
  · cases h

theorem storage_createDatabaseWithSchema (st : Storage) (d : Data) (name : String)
    (schema : SchemaName) (o : Bool) : Grows d (st.createDatabaseWithSchema d name schema o).2 :=
  guarded (createDatabaseWithSchema · name schema o) _ d

theorem storage_deleteUser (st : Storage) (d : Data) (user : NamedReference) :
    Grows d (st.deleteUser d user).2 := by
  unfold Storage.deleteUser
  dsimp only
  split
  · exact admin d
  · exact (admin d).trans (guarded (deleteUser · user) _ _)

theorem storage_setUserPassword (st : Storage) (c : Collaborators) (d : Data)
    (user : NamedReference) (p : String) : Grows d (st.setUserPassword c d user p).2 := by
  unfold Storage.setUserPassword
  dsimp only
  split
  · exact admin d
  · exact (admin d).trans (guarded (setUserPassword c · user p) _ _)

theorem storage_authenticate (st : Storage) (c : Collaborators) (d : Data)
    (user : NamedReference) (p : String) : Grows d (st.authenticate c d user p).2 := by
  unfold Storage.authenticate
  dsimp only
  split
  · exact admin d
  · exact (admin d).trans (guarded (authenticateInner c · _ p) _ _)

theorem storage_assumeIdentity (st : Storage) (c : Collaborators) (d : Data)
    (identity : Identity) : Grows d (st.assumeIdentity c d identity).2 := by
  unfold Storage.assumeIdentity
  split
  · refine guarded (fun d => ?_) _ d
    dsimp only
    split
    · exact admin d
    · next u _ => exact (admin d).trans (assumeUser c _ u)
  · exact refl d

end Grows

namespace StorageCall

/-- Every call through the instance other than `delete_database` grows the state. -/
theorem onInstance_grows {c : Collaborators} {d d' : Data} {call : StorageCall}
    (hcall : ∀ name, call ≠ .deleteDatabase name) (h : call.onInstance c d = some d') :
    Grows d d' := by
  cases call with
  | deleteDatabase name => exact absurd rfl (hcall name)
  | assumeIdentity identity =>
    obtain ⟨r, hr, rfl⟩ := Option.map_eq_some'.mp h
    exact Grows.assumeIdentity hr
  | createDatabaseWithSchema => cases h; exact .createDatabaseWithSchema ..
  | database => cases h; exact .database ..
  | listDatabases | listAvailableSchemas => cases h; exact .refl d
  | registerSchema => cases h; exact .registerSchema ..
  | createUser => cases h; exact .createUser ..
  | deleteUser => cases h; exact .deleteUser ..
  | setUserPassword => cases h; exact .setUserPassword ..
  | authenticate => cases h; exact .authenticate ..
  | addPermissionGroupToUser | removePermissionGroupFromUser | addRoleToUser
    | removeRoleFromUser => cases h; exact .updateUserWithNamedId ..

/-- Every call through a handle other than `delete_database` grows the state. -/
theorem onStorage_grows (c : Collaborators) (d : Data) (st : Storage) {call : StorageCall}
    (hcall : ∀ name, call ≠ .deleteDatabase name) : Grows d (call.onStorage c d st) := by
  cases call with
  | deleteDatabase name => exact absurd rfl (hcall name)
  | createDatabaseWithSchema => exact .storage_createDatabaseWithSchema ..
  | database => exact .database ..
  | listDatabases | listAvailableSchemas => exact .refl d
  | registerSchema => exact .registerSchema ..
  | createUser => exact .guarded (.createUser · _) ..
  | deleteUser => exact .storage_deleteUser ..
  | setUserPassword => exact .storage_setUserPassword ..
  | authenticate => exact .storage_authenticate ..
  | assumeIdentity => exact .storage_assumeIdentity ..
  | addPermissionGroupToUser | removePermissionGroupFromUser | addRoleToUser
    | removeRoleFromUser => exact .updateUserWithNamedId ..

end StorageCall

end BonsaiDb.Local
