import BonsaiDb.Storage.Lifecycle

/-!
# Storage — the admin database and the registry

`Storage::open` leaves `ADMIN_DATABASE_NAME` in place: registered in `available_databases`, with
its `DatabaseRecord` and its directory (`AdminPresent`). Every call other than `delete_database`
only adds to these (`Grows`), and `delete_database` keeps them unless its name is the admin
database's up to ASCII case, or resolves from the storage path to the admin directory or to a
directory above it (`DeletesAdmin`). So the admin database is present in every state reached by
calls that are not such deletes (`admin_database_present`), and one such delete right after an
open removes it.

The runs at the end start from a fresh storage. `delete_database` forgets the name and deletes
`path.join(name)` before it looks the record up; `create_database_with_schema` registers the
exact name while the `ByName` view keys the record by the name's lowercase; and no handle's
permission check denies.
-/

namespace BonsaiDb.Local

/-! ## Opening and creating the admin database -/

namespace StorageInstance

theorem registerSchema_ok {d d' : Data} {schema : SchemaName}
    (h : registerSchema d schema = (.ok (), d')) :
    d' = { d with schemas := schema :: d.schemas } := by
  unfold registerSchema at h
  split_ifs at h
  · simp at h
  · exact (Prod.mk.inj h).2.symm

theorem database_of_get_none {d : Data} {name : String} (expected : SchemaName)
    (h : d.availableDatabases.get name = none) :
    database d name expected = (.error (.databaseNotFound name), d) := by
  simp [database, databaseWithoutSchema, h]

/-- Creating a valid name whose lowercase the `ByName` view lacks appends its record and
registers the exact name. -/
theorem createDatabaseWithSchema_of_vacant {d : Data} {name : String} {schema : SchemaName}
    (o : Bool) (hv : validateName name = .ok ()) (hs : schema ∈ d.schemas)
    (hfree : byName d.databases (toAsciiLowercase name) = []) :
    createDatabaseWithSchema d name schema o =
      (.ok (), { admin d with databases := d.databases ++ [⟨name, schema⟩],
                              availableDatabases := d.availableDatabases.insert name schema }) := by
  simp [createDatabaseWithSchema, hv, hs, hfree, admin]

end StorageInstance

/-- `ADMIN_DATABASE_NAME` is a key of `available_databases`, its `DatabaseRecord` is in the admin
collection, and its directory exists. -/
structure AdminPresent (d : Data) : Prop where
  available : (d.availableDatabases.get adminDatabaseName).isSome
  record : byName d.databases adminDatabaseName ≠ []
  directory : Path.join d.path adminDatabaseName ∈ d.directories

theorem AdminPresent.grows {d d' : Data} (h : AdminPresent d) (hg : Grows d d') :
    AdminPresent d' where
  available := hg.available _ h.available
  record := byName_ne_nil_of_subset h.record hg.databases
  directory := hg.path ▸ hg.directories h.directory

namespace Storage

theorem ensureAdminDatabase_grows {d d' : Data} (h : ensureAdminDatabase d = .ok d') :
    Grows d d' := by
  have h₁ := Grows.database d adminDatabaseName adminSchemaName
  unfold ensureAdminDatabase at h
  split at h
  · next d₁ hd => cases h; rwa [hd] at h₁
  · next _ d₁ hd =>
    -- the lookup found nothing, and the call creates the admin database
    have h₂ := Grows.storage_createDatabaseWithSchema ofInstance d₁ adminDatabaseName
      adminSchemaName true
    split at h
    · next d₂ hc => cases h; rw [hd] at h₁; rw [hc] at h₂; exact h₁.trans h₂
    · cases h
  · cases h

theorem createAdminDatabaseIfNeeded_grows {d d' : Data}
    (h : createAdminDatabaseIfNeeded d = .ok d') : Grows d d' := by
  unfold createAdminDatabaseIfNeeded at h
  split at h
  · cases h
  · next d₁ hreg =>
    have h₁ : Grows d d₁ := by simpa [hreg] using Grows.registerSchema d adminSchemaName
    exact h₁.trans (ensureAdminDatabase_grows h)

/-- After `register_schema::<Admin>`, the admin database is found or created, given that the
registry was rebuilt from the records and the admin directory exists. -/
theorem ensureAdminDatabase_adminPresent {d d' : Data} (hs : adminSchemaName ∈ d.schemas)
    (hdir : Path.join d.path adminDatabaseName ∈ d.directories)
    (hcache : ∀ key, (d.availableDatabases.get key).isSome ↔ byName d.databases key ≠ [])
    (h : ensureAdminDatabase d = .ok d') : AdminPresent d' := by
  cases hget : d.availableDatabases.get adminDatabaseName with
  | some schema =>
    have hrec := (hcache adminDatabaseName).mp (by simp [hget])
    exact AdminPresent.grows ⟨by simp [hget], hrec, hdir⟩ (ensureAdminDatabase_grows h)
  | none =>
    have hfree : byName d.databases adminDatabaseName = [] := by
      simpa [hget] using hcache adminDatabaseName
    rw [ensureAdminDatabase, StorageInstance.database_of_get_none _ hget] at h
    simp only [createDatabaseWithSchema, checkPermission_eq_ok, guarded,
      StorageInstance.createDatabaseWithSchema_of_vacant _ validateName_adminDatabaseName hs
        (by rwa [toAsciiLowercase_adminDatabaseName])] at h
    cases h
    exact ⟨by simp, byName_ne_nil_iff.mpr ⟨_, List.mem_append_right _ (List.mem_singleton_self _),
      toAsciiLowercase_adminDatabaseName⟩, (Grows.admin d).path ▸ (Grows.admin d).directories hdir⟩

end Storage

/-- `Storage::open` establishes the admin database. -/
theorem open_adminPresent {config : StorageConfiguration} {disk : Disk} {d : Data}
    (h : Storage.open config disk = .ok d) : AdminPresent d := by
  unfold Storage.open Storage.createAdminDatabaseIfNeeded at h
  dsimp only at h
  split at h
  · cases h
  · next d₁ hreg =>
    obtain rfl := StorageInstance.registerSchema_ok hreg
    refine Storage.ensureAdminDatabase_adminPresent ?_ ?_ ?_ h
    · exact List.mem_cons_self _ _
    · exact StorageInstance.mem_admin_directories (List.not_mem_nil _)
    · exact Storage.cacheAvailableDatabases_get_isSome _

/-! ## Which calls keep it -/

/-- A call that can remove the admin database: `delete_database` of a name that is
`ADMIN_DATABASE_NAME` up to ASCII case, or that resolves from the storage path to the admin
directory or to a directory above it. -/
def DeletesAdmin (path : Path) : StorageCall → Prop
  | .deleteDatabase name => toAsciiLowercase name = adminDatabaseName ∨
      Path.join path name <+: Path.join path adminDatabaseName
  | _ => False

namespace AdminPresent

variable {c : Collaborators} {d d' : Data} {call : StorageCall}

theorem deleteDatabase (h : AdminPresent d) {name : String}
    (hcall : ¬ DeletesAdmin d.path (.deleteDatabase name)) :
    AdminPresent (StorageInstance.deleteDatabase d name).2 := by
  simp only [DeletesAdmin, not_or] at hcall
  obtain ⟨hname, hdir⟩ := hcall
  have hne : name ≠ adminDatabaseName := by
    rintro rfl
    exact hname toAsciiLowercase_adminDatabaseName
  obtain ⟨r, hr, hk⟩ := byName_ne_nil_iff.mp h.record
  refine ⟨?_, byName_ne_nil_iff.mpr
    ⟨r, StorageInstance.mem_deleteDatabase_databases hne hr (hk ▸ Ne.symm hname), hk⟩, ?_⟩
  · simpa [Map.get_erase_ne _ hne] using h.available
  · rw [StorageInstance.deleteDatabase_path, StorageInstance.deleteDatabase_directories]
    exact StorageInstance.mem_forgetDatabase_directories
      ((Grows.admin d).directories h.directory) (by rwa [(Grows.admin d).path])

theorem onInstance (h : AdminPresent d) (hcall : ¬ DeletesAdmin d.path call)
    (h' : call.onInstance c d = some d') : AdminPresent d' := by
  by_cases hdel : ∃ name, call = .deleteDatabase name
  · obtain ⟨name, rfl⟩ := hdel
    cases h'
    exact h.deleteDatabase hcall
  · exact h.grows (StorageCall.onInstance_grows (fun name he => hdel ⟨name, he⟩) h')

theorem onStorage (h : AdminPresent d) (st : Storage) (hcall : ¬ DeletesAdmin d.path call) :
    AdminPresent (call.onStorage c d st) := by
  by_cases hdel : ∃ name, call = .deleteDatabase name
  · obtain ⟨name, rfl⟩ := hdel
    exact h.deleteDatabase hcall
  · exact h.grows (StorageCall.onStorage_grows c d st fun name he => hdel ⟨name, he⟩)

end AdminPresent

/-- In every state reached from `Storage::open` by calls, through the instance or any handle,
that do not delete the admin database by name or by path, the admin database is present. -/
theorem admin_database_present {c : Collaborators} {d : Data}
    (h : Reachable c (fun path call => ¬ DeletesAdmin path call) d) : AdminPresent d := by
  induction h with
  | «open» h => exact open_adminPresent h
  | onInstance call _ hcall h' ih => exact ih.onInstance hcall h'
  | onStorage st call _ hcall ih => exact ih.onStorage st hcall

/-! ## Runs from a fresh storage -/

/-- A schema the configuration registers. -/
def basicSchema : SchemaName := ⟨"khonsulabs", "basic"⟩

/-- A storage at `/db` with `basicSchema`, built with the `encryption` feature. -/
def freshConfig : StorageConfiguration := ⟨["db"], [basicSchema], true⟩

/-- An empty disk. -/
def emptyDisk : Disk := ⟨[], [], [], [], []⟩

/-- The state `Storage::open freshConfig` reaches on an empty disk. -/
def freshStorage : Data :=
  match Storage.open freshConfig emptyDisk with
  | .ok d => d
  | .error _ => ⟨[], [], [], [], [], [], [], [], [], true, [], 0, [], []⟩

theorem open_freshConfig : Storage.open freshConfig emptyDisk = .ok freshStorage := rfl

/-- Collaborators for the runs: a password hashes to itself, and no user is granted anything. -/
def plainCollaborators : Collaborators :=
  ⟨fun _ password => password, fun _ password hash => password == hash, fun _ => .default⟩

/-- `freshStorage` after creating the database `b1` and deleting it through the default
handle. -/
def createdAndDeleted : Data :=
  (Storage.ofInstance.deleteDatabase
    (StorageInstance.createDatabaseWithSchema freshStorage "b1" basicSchema false).2 "b1").2

theorem createdAndDeleted_adminPresent :
    Reachable plainCollaborators (fun path call => ¬ DeletesAdmin path call) createdAndDeleted ∧
      AdminPresent createdAndDeleted :=
  have hr : Reachable plainCollaborators (fun path call => ¬ DeletesAdmin path call)
      createdAndDeleted :=
    .onStorage _ (.deleteDatabase "b1")
      (.onInstance (.createDatabaseWithSchema "b1" basicSchema false) (.open open_freshConfig)
        not_false rfl)
      (by unfold DeletesAdmin; decide)
  ⟨hr, admin_database_present hr⟩

/-- Right after an open, `delete_database(ADMIN_DATABASE_NAME)` removes the admin database. -/
theorem admin_database_deletable :
    ¬ ∀ d, Reachable plainCollaborators (fun _ _ => True) d → AdminPresent d := fun h =>
  absurd (h _ (.onInstance (.deleteDatabase adminDatabaseName) (.open open_freshConfig) trivial
    rfl)).available (by decide)

/-- `delete_database("vault-keys")` on `freshStorage`: no database has that name, so the call
fails with `DatabaseNotFound`, after it has deleted the vault's key directory. -/
theorem failed_delete_removes_vault_keys :
    vaultKeysDirectory freshStorage.path ∈ freshStorage.directories ∧
      (StorageInstance.deleteDatabase freshStorage "vault-keys").1 =
        .error (.databaseNotFound "vault-keys") ∧
      vaultKeysDirectory freshStorage.path ∉
        (StorageInstance.deleteDatabase freshStorage "vault-keys").2.directories :=
  ⟨by decide, rfl, by decide⟩

/-- `freshStorage` after `create_database_with_schema("MyDb", basicSchema, false)`. -/
def mixedCaseStorage : Data :=
  (StorageInstance.createDatabaseWithSchema freshStorage "MyDb" basicSchema false).2

/-- The registry binds `MyDb`, while the map `cache_available_databases` rebuilds binds `mydb`:
`database("MyDb")` succeeds before a reopen and fails with `DatabaseNotFound` after it. -/
theorem mixed_case_database_lost_on_reopen :
    mixedCaseStorage.availableDatabases.get "MyDb" = some basicSchema ∧
      (Storage.cacheAvailableDatabases mixedCaseStorage.databases).get "MyDb" = none ∧
      (Storage.cacheAvailableDatabases mixedCaseStorage.databases).get "mydb" = some basicSchema ∧
      (StorageInstance.database mixedCaseStorage "MyDb" basicSchema).1 = .ok () ∧
      (Storage.open freshConfig mixedCaseStorage.disk).map
        (fun d => (StorageInstance.database d "MyDb" basicSchema).1) =
        .ok (.error (.databaseNotFound "MyDb")) :=
  ⟨rfl, rfl, rfl, rfl, rfl⟩

/-- A handle whose effective permissions deny everything creates a database: its check on
`CreateDatabase` passes, and the database is registered. -/
theorem denied_handle_creates_database :
    (Storage.ofInstance.withEffectivePermissions .default).effectiveSession.permissions.allowed
        (.database "b1") .createDatabase = false ∧
      (Storage.ofInstance.withEffectivePermissions .default).createDatabaseWithSchema
        freshStorage "b1" basicSchema false =
        StorageInstance.createDatabaseWithSchema freshStorage "b1" basicSchema false ∧
      (StorageInstance.createDatabaseWithSchema freshStorage "b1" basicSchema false).1 = .ok () ∧
      (StorageInstance.createDatabaseWithSchema freshStorage "b1" basicSchema
        false).2.availableDatabases.get "b1" = some basicSchema := by
  refine ⟨rfl, ?_, rfl, rfl⟩
  simp only [Storage.createDatabaseWithSchema, Storage.checkPermission_eq_ok, Storage.guarded]

end BonsaiDb.Local
