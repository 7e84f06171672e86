import BonsaiDb.Storage.Registry
import Mathlib.Data.List.Nodup

/-!
# Storage — `available_databases` against the admin records

`available_databases` caches the admin database's `ByName` view: `Storage::open` fills it with
`cache_available_databases`, and `create_database_with_schema` and `delete_database` change it
beside the admin records. Every other call leaves both alone (`SameRegistry`), so what a call
does to them is said once (`StorageCall.registry_onInstance`, `StorageCall.registry_onStorage`).

* The `ByName` check of `create_database_with_schema` keeps the records' lowercase names
  distinct, whatever the calls and their case, and across reopens (`lowercase_names_distinct`).
* The cache registers the exact name while the view keys the record by the name's lowercase
  (`mixed_case_database_lost_on_reopen` is a mixed-case name). For calls whose names are ASCII
  lowercase, the cache is exactly the view (`RegistryCoherent`) in every state of a storage's
  life, so a reopen finds every database the closed storage had (`registry_survives_reopen`).
* That needs two more things of the calls (`KeepsRegistry`). A `delete_database` whose name
  ends in `.` or `..` erases the name and then fails in `remove_dir_all` before it erases the
  record. A delete of the admin database, or of a directory above `path/_admin`, unlinks the
  admin files while the cached roots keep serving the records, and a reopen reads nothing
  there.
-/

namespace BonsaiDb.Local

/-! ## The rebuilt map -/

/-- The admin records' names in ASCII lowercase, the keys of the `ByName` view. -/
def lowercaseNames (records : List DatabaseRecord) : List String :=
  records.map fun r => toAsciiLowercase r.name

theorem byName_eq_nil_of_not_mem {records : List DatabaseRecord} {key : String}
    (h : key ∉ lowercaseNames records) : byName records key = [] := by
  simpa [lowercaseNames, byName, List.filter_eq_nil_iff] using h

theorem not_mem_lowercaseNames {records : List DatabaseRecord} {key : String}
    (h : byName records key = []) : key ∉ lowercaseNames records := by
  simpa [lowercaseNames, byName, List.filter_eq_nil_iff] using h

theorem byName_cons (r : DatabaseRecord) (records : List DatabaseRecord) (key : String) :
    byName (r :: records) key =
      if toAsciiLowercase r.name = key then r :: byName records key else byName records key := by
  by_cases hk : toAsciiLowercase r.name = key <;> simp [byName, List.filter_cons, hk]

theorem byName_append_single (records : List DatabaseRecord) (r : DatabaseRecord) (key : String) :
    byName (records ++ [r]) key =
      byName records key ++ if toAsciiLowercase r.name = key then [r] else [] := by
  by_cases hk : toAsciiLowercase r.name = key <;> simp [byName, List.filter_cons, hk]

theorem nodup_lowercaseNames_append_single {records : List DatabaseRecord} {r : DatabaseRecord} :
    (lowercaseNames (records ++ [r])).Nodup ↔
      toAsciiLowercase r.name ∉ lowercaseNames records ∧ (lowercaseNames records).Nodup := by
  rw [lowercaseNames, List.map_append, List.nodup_append_comm, List.map_singleton,
    List.singleton_append, List.nodup_cons]
  rfl

/-- With distinct keys, `delete_database`'s `eraseP` removes the one record of its key. -/
theorem byName_eraseP {records : List DatabaseRecord} (hd : (lowercaseNames records).Nodup)
    (name key : String) :
    byName (records.eraseP fun r => toAsciiLowercase r.name = name) key =
      if key = name then [] else byName records key := by
  induction records with
  | nil => simp [byName]
  | cons r rs ih =>
    simp only [lowercaseNames, List.map_cons, List.nodup_cons] at hd
    have ih := ih hd.2
    rw [List.eraseP_cons]
    by_cases hr : toAsciiLowercase r.name = name
    · have hfree : byName rs name = [] := byName_eq_nil_of_not_mem (hr ▸ hd.1)
      by_cases hk : key = name
      · simp [hr, hk, hfree]
      · simp [byName_cons, hr, hk, Ne.symm hk]
    · by_cases hk : key = name
      · subst hk
        simp [byName_cons, hr, ih]
      · simp [byName_cons, hr, hk, ih]

/-- Every count of a `ByName` query is at most one where the keys are distinct. -/
theorem length_byName_le_one {records : List DatabaseRecord}
    (hd : (lowercaseNames records).Nodup) (key : String) : (byName records key).length ≤ 1 := by
  have := List.nodup_iff_count_le_one.mp hd key
  rw [byName, ← List.countP_eq_length_filter]
  simpa [lowercaseNames, List.count, List.countP_map, Function.comp_def] using this

theorem lowercaseNames_eraseP_nodup {records : List DatabaseRecord}
    (hd : (lowercaseNames records).Nodup) (p : DatabaseRecord → Bool) :
    (lowercaseNames (records.eraseP p)).Nodup :=
  hd.sublist ((List.eraseP_sublist _).map _)

namespace Storage

theorem cacheAvailableDatabases_append_single (records : List DatabaseRecord)
    (r : DatabaseRecord) :
    cacheAvailableDatabases (records ++ [r]) =
      (cacheAvailableDatabases records).insert (toAsciiLowercase r.name) r.schema := by
  simp [cacheAvailableDatabases]

/-- With distinct keys, the rebuilt map binds each key of the `ByName` view to its record's
schema, and no other key. -/
theorem get_cacheAvailableDatabases {records : List DatabaseRecord}
    (hd : (lowercaseNames records).Nodup) (key : String) :
    (cacheAvailableDatabases records).get key = (byName records key).head?.map (·.schema) := by
  induction records using List.reverseRecOn with
  | nil => rfl
  | append_singleton rs r ih =>
    rw [nodup_lowercaseNames_append_single] at hd
    rw [cacheAvailableDatabases_append_single, byName_append_single]
    by_cases hk : toAsciiLowercase r.name = key
    · subst hk
      simp [byName_eq_nil_of_not_mem hd.1]
    · simp [hk, Map.get_insert_ne _ _ hk, ih hd.2]

end Storage

/-! ## What a call does to the registry -/

/-- `d'` holds the registry and the admin records of `d`, and keeps its admin files. -/
structure SameRegistry (d d' : Data) : Prop where
  available : d'.availableDatabases = d.availableDatabases
  databases : d'.databases = d.databases
  adminFiles : d'.adminFiles = d.adminFiles

namespace SameRegistry

theorem refl (d : Data) : SameRegistry d d := ⟨rfl, rfl, rfl⟩

theorem trans {d₁ d₂ d₃ : Data} (h₁ : SameRegistry d₁ d₂) (h₂ : SameRegistry d₂ d₃) :
    SameRegistry d₁ d₃ :=
  ⟨h₂.available.trans h₁.available, h₂.databases.trans h₁.databases,
    h₂.adminFiles.trans h₁.adminFiles⟩

theorem admin (d : Data) : SameRegistry d (StorageInstance.admin d) :=
  ⟨by simp [StorageInstance.admin], by simp [StorageInstance.admin],
    by simp [StorageInstance.admin]⟩

/-- The admin database opened, then a change to the users or the sessions. -/
theorem admin_users (d : Data) {d' : Data}
    (ha : d'.availableDatabases = (StorageInstance.admin d).availableDatabases)
    (hd : d'.databases = (StorageInstance.admin d).databases)
    (hf : d'.adminFiles = (StorageInstance.admin d).adminFiles) : SameRegistry d d' :=
  (admin d).trans ⟨ha, hd, hf⟩

theorem guarded {α : Type} {op : Data → Except Error α × Data}
    (hop : ∀ d, SameRegistry d (op d).2) (check : Except Error Unit) (d : Data) :
    SameRegistry d (Storage.guarded check op d).2 := by
  unfold Storage.guarded
  split
  · exact refl d
  · exact hop d

theorem database (d : Data) (name : String) (schema : SchemaName) :
    SameRegistry d (StorageInstance.database d name schema).2 := by
  have hw : SameRegistry d (StorageInstance.databaseWithoutSchema d name).2 := by
    unfold StorageInstance.databaseWithoutSchema
    split
    · exact refl d
    · split
      · exact ⟨by simp, by simp, by simp⟩
      · exact refl d
  unfold StorageInstance.database
  split <;> next _ _ h => simpa [h] using hw

theorem registerSchema (d : Data) (schema : SchemaName) :
    SameRegistry d (StorageInstance.registerSchema d schema).2 := by
  unfold StorageInstance.registerSchema
  split <;> exact ⟨rfl, rfl, rfl⟩

theorem deleteUser (d : Data) (user : NamedReference) :
    SameRegistry d (StorageInstance.deleteUser d user).2 := by
  unfold StorageInstance.deleteUser
  dsimp only
  split <;> exact admin_users d rfl rfl rfl

theorem setUserPassword (c : Collaborators) (d : Data) (user : NamedReference) (p : String) :
    SameRegistry d (StorageInstance.setUserPassword c d user p).2 := by
  unfold StorageInstance.setUserPassword
  dsimp only
  split <;> exact admin_users d rfl rfl rfl

theorem authenticateInner (c : Collaborators) (d : Data) (u : User) (p : String) :
    SameRegistry d (StorageInstance.authenticateInner c d u p).2 := by
  unfold StorageInstance.authenticateInner
  split
  · exact refl d
  · split <;> exact ⟨rfl, rfl, rfl⟩

theorem authenticate (c : Collaborators) (d : Data) (user : NamedReference) (p : String) :
    SameRegistry d (StorageInstance.authenticate c d user p).2 := by
  unfold StorageInstance.authenticate
  dsimp only
  split
  · exact admin d
  · exact (admin d).trans (authenticateInner ..)

theorem updateUserWithNamedId (docs : Data → List NamedDocument) (d : Data)
    (user other : NamedReference) (callback : User → Nat → Except Error (Bool × User)) :
    SameRegistry d (StorageInstance.updateUserWithNamedId docs d user other callback).2 := by
  unfold StorageInstance.updateUserWithNamedId
  dsimp only
  split
  · split
    · exact admin d
    · split <;> exact admin_users d rfl rfl rfl
  · exact admin d

theorem assumeIdentity {c : Collaborators} {d : Data} {identity : Identity}
    {r : Except Error Storage × Data} (h : StorageInstance.assumeIdentity c d identity = some r) :
    SameRegistry d r.2 := by
  unfold StorageInstance.assumeIdentity at h
  split at h
  · cases h
    split <;> exact admin_users d rfl rfl rfl
  · cases h

theorem storage_deleteUser (st : Storage) (d : Data) (user : NamedReference) :
    SameRegistry d (st.deleteUser d user).2 := by
  unfold Storage.deleteUser
  dsimp only
  split
  · exact admin d
  · exact (admin d).trans (guarded (deleteUser · user) ..)

theorem storage_setUserPassword (st : Storage) (c : Collaborators) (d : Data)
    (user : NamedReference) (p : String) : SameRegistry d (st.setUserPassword c d user p).2 := by
  unfold Storage.setUserPassword
  dsimp only
  split
  · exact admin d
  · exact (admin d).trans (guarded (setUserPassword c · user p) ..)

theorem storage_authenticate (st : Storage) (c : Collaborators) (d : Data)
    (user : NamedReference) (p : String) : SameRegistry d (st.authenticate c d user p).2 := by
  unfold Storage.authenticate
  dsimp only
  split
  · exact admin d
  · exact (admin d).trans (guarded (authenticateInner c · _ p) ..)

theorem storage_assumeIdentity (st : Storage) (c : Collaborators) (d : Data)
    (identity : Identity) : SameRegistry d (st.assumeIdentity c d identity).2 := by
  unfold Storage.assumeIdentity
  split
  · exact guarded (fun d => by dsimp only; split <;> exact admin_users d rfl rfl rfl) ..
  · exact refl d

end SameRegistry

namespace StorageCall

/-- The change `create_database_with_schema` and `delete_database` make to the registry and the
admin records; other calls make none. A delete erases the name and then fails where `rmdir`
refuses the name's last component, starts the admin collections anew where it deletes
`ADMIN_DATABASE_NAME`, and erases the record otherwise. -/
def RegistryChange (d d' : Data) : StorageCall → Prop
  | .createDatabaseWithSchema name schema _ =>
    byName d.databases (toAsciiLowercase name) = [] ∧
      d'.availableDatabases = d.availableDatabases.insert name schema ∧
      d'.databases = d.databases ++ [⟨name, schema⟩] ∧ d'.adminFiles = d.adminFiles
  | .deleteDatabase name =>
    d'.availableDatabases = d.availableDatabases.erase name ∧
      (rmdirRefuses name = true ∧ d'.databases = d.databases ∨
        name = adminDatabaseName ∧ d'.databases = [] ∨
        d'.databases =
          d.databases.eraseP fun r => toAsciiLowercase r.name = toAsciiLowercase name)
  | _ => False

variable {c : Collaborators} {d d' : Data}

theorem registry_createDatabaseWithSchema (name : String) (schema : SchemaName) (o : Bool) :
    SameRegistry d (StorageInstance.createDatabaseWithSchema d name schema o).2 ∨
      (createDatabaseWithSchema name schema o).RegistryChange d
        (StorageInstance.createDatabaseWithSchema d name schema o).2 := by
  unfold StorageInstance.createDatabaseWithSchema
  dsimp only
  split
  · exact .inl (.refl d)
  · split
    · exact .inl (.refl d)
    · split
      · exact .inl (.admin d)
      · next hfree => exact .inr ⟨by simpa [StorageInstance.admin] using hfree,
          by simp [StorageInstance.admin], by simp [StorageInstance.admin],
          by simp [StorageInstance.admin]⟩

/-- The record lookup erases the record the view finds, or finds none to erase. -/
theorem databases_deleteRecord (d : Data) (name : String) :
    (StorageInstance.deleteRecord d name).2.databases =
      d.databases.eraseP fun r => toAsciiLowercase r.name = toAsciiLowercase name := by
  unfold StorageInstance.deleteRecord
  split
  · rfl
  · next hnil =>
    exact (List.eraseP_of_forall_not fun r hr hp =>
      byName_ne_nil_iff.mpr ⟨r, hr, by simpa using hp⟩ hnil).symm

/-- `delete_database` erases the name from the registry, and then fails, starts the admin
collections anew, or erases the record, whether or not it finds one. -/
theorem registry_deleteDatabase (name : String) :
    (deleteDatabase name).RegistryChange d (StorageInstance.deleteDatabase d name).2 := by
  refine ⟨StorageInstance.deleteDatabase_availableDatabases d name, ?_⟩
  rcases StorageInstance.deleteDatabase_cases d name with ⟨e, he, h⟩ | ⟨-, h⟩ <;> rw [h]
  · exact .inl ⟨StorageInstance.forgetDatabase_error he, by simp [StorageInstance.admin]⟩
  · split_ifs with hadmin
    · exact .inr (.inl ⟨hadmin, rfl⟩)
    · refine .inr (.inr ?_)
      rw [databases_deleteRecord]
      simp [StorageInstance.admin]

theorem registry_storage_createDatabaseWithSchema (st : Storage) (name : String)
    (schema : SchemaName) (o : Bool) :
    SameRegistry d (st.createDatabaseWithSchema d name schema o).2 ∨
      (createDatabaseWithSchema name schema o).RegistryChange d
        (st.createDatabaseWithSchema d name schema o).2 := by
  unfold Storage.createDatabaseWithSchema Storage.guarded
  split
  · exact .inl (.refl d)
  · exact registry_createDatabaseWithSchema ..

theorem registry_storage_deleteDatabase (st : Storage) (name : String) :
    SameRegistry d (st.deleteDatabase d name).2 ∨
      (deleteDatabase name).RegistryChange d (st.deleteDatabase d name).2 := by
  unfold Storage.deleteDatabase Storage.guarded
  split
  · exact .inl (.refl d)
  · exact .inr (registry_deleteDatabase name)

/-- A call through the instance leaves the registry and the records alone, or makes its own
change to them. -/
theorem registry_onInstance {call : StorageCall} (h : call.onInstance c d = some d') :
    SameRegistry d d' ∨ call.RegistryChange d d' := by
  cases call with
  | createDatabaseWithSchema name schema o => cases h; exact registry_createDatabaseWithSchema ..
  | deleteDatabase name => cases h; exact .inr (registry_deleteDatabase name)
  | assumeIdentity identity =>
    obtain ⟨r, hr, rfl⟩ := Option.map_eq_some'.mp h
    exact .inl (.assumeIdentity hr)
  | database => cases h; exact .inl (.database ..)
  | listDatabases | listAvailableSchemas => cases h; exact .inl (.refl d)
  | registerSchema => cases h; exact .inl (.registerSchema ..)
  | createUser => cases h; exact .inl (.admin_users d rfl rfl rfl)
  | deleteUser => cases h; exact .inl (.deleteUser ..)
  | setUserPassword => cases h; exact .inl (.setUserPassword ..)
  | authenticate => cases h; exact .inl (.authenticate ..)
  | addPermissionGroupToUser | removePermissionGroupFromUser | addRoleToUser
    | removeRoleFromUser => cases h; exact .inl (.updateUserWithNamedId ..)

/-- A call through a handle leaves the registry and the records alone, or makes its own change
to them. -/
theorem registry_onStorage (st : Storage) (call : StorageCall) :
    SameRegistry d (call.onStorage c d st) ∨ call.RegistryChange d (call.onStorage c d st) := by
  cases call with
  | createDatabaseWithSchema => exact registry_storage_createDatabaseWithSchema ..
  | deleteDatabase => exact registry_storage_deleteDatabase ..
  | database => exact .inl (.database ..)
  | listDatabases | listAvailableSchemas => exact .inl (.refl d)
  | registerSchema => exact .inl (.registerSchema ..)
  | createUser => exact .inl (.guarded (fun d => .admin_users d rfl rfl rfl) ..)
  | deleteUser => exact .inl (.storage_deleteUser ..)
  | setUserPassword => exact .inl (.storage_setUserPassword ..)
  | authenticate => exact .inl (.storage_authenticate ..)
  | assumeIdentity => exact .inl (.storage_assumeIdentity ..)
  | addPermissionGroupToUser | removePermissionGroupFromUser | addRoleToUser
    | removeRoleFromUser => exact .inl (.updateUserWithNamedId ..)

/-- A call whose database name, where it creates or deletes one, is its own ASCII lowercase. -/
def NamesLowercase : StorageCall → Prop
  | .createDatabaseWithSchema name _ _ | .deleteDatabase name => toAsciiLowercase name = name
  | _ => True

end StorageCall

/-- Every call keeps the records' lowercase names distinct. -/
theorem nodup_lowercaseNames_of_registry {d d' : Data} {call : StorageCall} (h : (lowercaseNames d.databases).Nodup)
    (hc : SameRegistry d d' ∨ call.RegistryChange d d') : (lowercaseNames d'.databases).Nodup := by
  rcases hc with hs | hc
  · exact hs.databases ▸ h
  · cases call with
    | createDatabaseWithSchema name schema o =>
      obtain ⟨hfree, -, hd, -⟩ := hc
      exact hd ▸ nodup_lowercaseNames_append_single.mpr ⟨not_mem_lowercaseNames hfree, h⟩
    | deleteDatabase name =>
      obtain ⟨-, ⟨-, hd⟩ | ⟨-, hd⟩ | hd⟩ := hc
      · exact hd ▸ h
      · exact hd ▸ List.nodup_nil
      · exact hd ▸ lowercaseNames_eraseP_nodup h _
    | _ => exact hc.elim

/-! ## The registry is the view -/

/-- The admin records' lowercase names are distinct, and the registry binds exactly the keys of
the `ByName` view, each to its record's schema. -/
structure RegistryCoherent (d : Data) : Prop where
  distinct : (lowercaseNames d.databases).Nodup
  available : ∀ key, d.availableDatabases.get key = (byName d.databases key).head?.map (·.schema)

namespace RegistryCoherent

variable {d d' : Data}

theorem same (h : RegistryCoherent d) (hs : SameRegistry d d') : RegistryCoherent d' :=
  ⟨hs.databases ▸ h.distinct, hs.available ▸ hs.databases ▸ h.available⟩

theorem create (h : RegistryCoherent d) {name : String} {schema : SchemaName} {o : Bool}
    (hname : toAsciiLowercase name = name)
    (hc : (StorageCall.createDatabaseWithSchema name schema o).RegistryChange d d') :
    RegistryCoherent d' := by
  refine ⟨nodup_lowercaseNames_of_registry h.distinct (.inr hc), fun key => ?_⟩
  obtain ⟨hfree, ha, hd, -⟩ := hc
  rw [hname] at hfree
  rw [ha, hd, byName_append_single, hname]
  by_cases hk : name = key
  · subst hk
    simp [hfree]
  · simp [hk, h.available]

/-- A delete of a lowercase name other than `ADMIN_DATABASE_NAME` whose last component `rmdir`
does not refuse erases the name from the registry and its record from the view together. -/
theorem delete (h : RegistryCoherent d) {name : String} (hname : toAsciiLowercase name = name)
    (hadmin : name ≠ adminDatabaseName) (hrmdir : rmdirRefuses name = false)
    (hc : (StorageCall.deleteDatabase name).RegistryChange d d') : RegistryCoherent d' := by
  refine ⟨nodup_lowercaseNames_of_registry h.distinct (.inr hc), fun key => ?_⟩
  obtain ⟨ha, ⟨hr, -⟩ | ⟨hr, -⟩ | hd⟩ := hc
  · simp [hrmdir] at hr
  · exact absurd hr hadmin
  rw [hname] at hd
  rw [ha, hd, byName_eraseP h.distinct, Map.get_erase]
  by_cases hk : key = name
  · simp [hk]
  · simp [hk, Ne.symm hk, h.available]

/-- A call with lowercase names, whose delete, if it is one, is of a name other than
`ADMIN_DATABASE_NAME` whose last component `rmdir` does not refuse, keeps the registry the
view. -/
theorem step (h : RegistryCoherent d) {call : StorageCall}
    (hc : SameRegistry d d' ∨ call.RegistryChange d d') (hcall : call.NamesLowercase)
    (hdel : ∀ name, call = .deleteDatabase name →
      name ≠ adminDatabaseName ∧ rmdirRefuses name = false) :
    RegistryCoherent d' := by
  rcases hc with hs | hc
  · exact h.same hs
  · cases call with
    | createDatabaseWithSchema => exact h.create hcall hc
    | deleteDatabase name =>
      obtain ⟨hadmin, hrmdir⟩ := hdel name rfl
      exact h.delete hcall hadmin hrmdir hc
    | _ => exact hc.elim

end RegistryCoherent

/-! ## Opening a storage -/

namespace StorageCall.RegistryChange

/-- A change reads only the registry and the records it starts from. -/
theorem of_same {d₁ d₂ d' : Data} {call : StorageCall} (hs : SameRegistry d₁ d₂)
    (hc : call.RegistryChange d₂ d') : call.RegistryChange d₁ d' := by
  cases call <;> simp only [RegistryChange, hs.available, hs.databases, hs.adminFiles] at hc ⊢ <;>
    exact hc

end StorageCall.RegistryChange

namespace Storage

/-- `create_admin_database_if_needed` leaves the registry and the records alone, or creates
`ADMIN_DATABASE_NAME` with `only_if_needed`. -/
theorem createAdminDatabaseIfNeeded_registry {d d' : Data}
    (h : createAdminDatabaseIfNeeded d = .ok d') :
    SameRegistry d d' ∨ (StorageCall.createDatabaseWithSchema adminDatabaseName adminSchemaName
      true).RegistryChange d d' := by
  unfold createAdminDatabaseIfNeeded ensureAdminDatabase at h
  split at h
  · cases h
  · next d₁ hreg =>
    have h₁ : SameRegistry d d₁ := by
      simpa [hreg] using SameRegistry.registerSchema d adminSchemaName
    have h₂ := h₁.trans (SameRegistry.database d₁ adminDatabaseName adminSchemaName)
    split at h
    · next d₂ hd => cases h; rw [hd] at h₂; exact .inl h₂
    · next d₂ hd =>
      rw [hd] at h₂
      split at h
      · next d₃ hc =>
        cases h
        have h₃ := StorageCall.registry_storage_createDatabaseWithSchema (d := d₂) ofInstance
          adminDatabaseName adminSchemaName true
        rw [hc] at h₃
        exact h₃.imp h₂.trans (·.of_same h₂)
      · cases h
    · cases h

/-- From a state whose registry is the view, `create_admin_database_if_needed` keeps it so, and
keeps every key of the view but `ADMIN_DATABASE_NAME`. -/
theorem createAdminDatabaseIfNeeded_coherent {d d' : Data} (h₀ : RegistryCoherent d)
    (h : createAdminDatabaseIfNeeded d = .ok d') :
    RegistryCoherent d' ∧
      ∀ key, key ≠ adminDatabaseName → byName d'.databases key = byName d.databases key := by
  have hc := createAdminDatabaseIfNeeded_registry h
  refine ⟨h₀.step hc toAsciiLowercase_adminDatabaseName (fun _ h => by cases h),
    fun key hkey => ?_⟩
  rcases hc with hs | ⟨-, -, hdb, -⟩
  · rw [hs.databases]
  · rw [hdb, byName_append_single]
    simp [Ne.symm hkey]

/-- Opened on records with distinct lowercase names, the registry is the view, and the view is
that of the records the admin database's files hold but for `ADMIN_DATABASE_NAME`. -/
theorem open_registryCoherent {config : StorageConfiguration} {disk : Disk} {d : Data}
    (hd : (lowercaseNames disk.databases).Nodup) (h : Storage.open config disk = .ok d) :
    RegistryCoherent d ∧
      ∀ key, key ≠ adminDatabaseName →
        byName d.databases key = byName (disk.atPath config.path).databases key := by
  have hd' : (lowercaseNames (disk.atPath config.path).databases).Nodup := by
    unfold Disk.atPath
    split_ifs
    · exact hd
    · exact List.nodup_nil
  unfold Storage.open at h
  refine (createAdminDatabaseIfNeeded_coherent ⟨?_, fun key => ?_⟩ h).imp_right
    fun hview key hkey => by simpa [StorageInstance.admin] using hview key hkey
  · simpa [StorageInstance.admin] using hd'
  · simpa [StorageInstance.admin] using get_cacheAvailableDatabases hd' key

/-- `Storage::open` leaves the admin database's files on disk. -/
theorem open_adminFiles {config : StorageConfiguration} {disk : Disk} {d : Data}
    (h : Storage.open config disk = .ok d) : d.adminFiles = true := by
  unfold Storage.open at h
  rcases createAdminDatabaseIfNeeded_registry h with hs | ⟨-, -, -, hf⟩
  · simpa [StorageInstance.admin] using hs.adminFiles
  · simpa [StorageInstance.admin] using hf

end Storage

/-! ## A storage's life -/

/-- The states of a storage over its whole life: opened on a disk whose admin records have
distinct lowercase names, then calls that `allowed` admits (given the storage path), through the
instance or any handle, and opened again on what it leaves on disk. -/
inductive Lifetime (c : Collaborators) (allowed : Path → StorageCall → Prop) : Data → Prop where
  | «open» {config : StorageConfiguration} {disk : Disk} {d : Data} :
    (lowercaseNames disk.databases).Nodup → Storage.open config disk = .ok d →
    Lifetime c allowed d
  | onInstance {d d' : Data} (call : StorageCall) : Lifetime c allowed d → allowed d.path call →
    call.onInstance c d = some d' → Lifetime c allowed d'
  | onStorage {d : Data} (st : Storage) (call : StorageCall) : Lifetime c allowed d →
    allowed d.path call → Lifetime c allowed (call.onStorage c d st)
  | reopen {config : StorageConfiguration} {d d' : Data} : Lifetime c allowed d →
    Storage.open config d.disk = .ok d' → Lifetime c allowed d'

/-- What the disk keeps of records with distinct lowercase names keeps them distinct. -/
theorem nodup_lowercaseNames_disk {d : Data} (h : (lowercaseNames d.databases).Nodup) :
    (lowercaseNames d.disk.databases).Nodup := by
  unfold Data.disk
  split_ifs
  · exact h
  · exact List.nodup_nil

/-- Whatever the calls and the case of their names, no two admin records of a storage share a
lowercase name, across reopens: every `ByName` query finds at most one record. -/
theorem lowercase_names_distinct {c : Collaborators} {allowed : Path → StorageCall → Prop}
    {d : Data} (h : Lifetime c allowed d) (key : String) : (byName d.databases key).length ≤ 1 := by
  refine length_byName_le_one ?_ key
  induction h with
  | «open» hd h => exact (Storage.open_registryCoherent hd h).1.distinct
  | onInstance call _ _ h' ih =>
    exact nodup_lowercaseNames_of_registry ih (StorageCall.registry_onInstance h')
  | onStorage st call _ _ ih =>
    exact nodup_lowercaseNames_of_registry ih (StorageCall.registry_onStorage st call)
  | reopen _ h ih =>
    exact (Storage.open_registryCoherent (nodup_lowercaseNames_disk ih) h).1.distinct

theorem mixedCaseStorage_names_distinct :
    Lifetime plainCollaborators (fun _ _ => True) mixedCaseStorage ∧
      (byName mixedCaseStorage.databases "mydb").length ≤ 1 :=
  have h : Lifetime plainCollaborators (fun _ _ => True) mixedCaseStorage :=
    .onInstance (.createDatabaseWithSchema "MyDb" basicSchema false)
      (.open (by decide) open_freshConfig) trivial rfl
  ⟨h, lowercase_names_distinct h "mydb"⟩

/-! ## Reopening -/

/-- A call that keeps the registry through a reopen: its database names, where it creates or
deletes one, are their own ASCII lowercase; it does not delete the admin database, by name or by
path; and it is no `delete_database` of a name whose last component is `.` or `..`, which erases
the name and then fails before it erases the record. -/
def KeepsRegistry (path : Path) (call : StorageCall) : Prop :=
  call.NamesLowercase ∧ ¬ DeletesAdmin path call ∧
    ∀ name, call = .deleteDatabase name → rmdirRefuses name = false

/-- What a reopen needs to find the registry again: the registry is the view, the admin
database is present, and its files are on disk. -/
structure ReopenSound (d : Data) : Prop where
  coherent : RegistryCoherent d
  admin : AdminPresent d
  files : d.adminFiles = true

namespace ReopenSound

variable {c : Collaborators} {d d' : Data} {call : StorageCall}

theorem «open» {config : StorageConfiguration} {disk : Disk}
    (hd : (lowercaseNames disk.databases).Nodup) (h : Storage.open config disk = .ok d) :
    ReopenSound d :=
  ⟨(Storage.open_registryCoherent hd h).1, open_adminPresent h, Storage.open_adminFiles h⟩

/-- The registry stays the view under a call that keeps it. -/
theorem coherent_step (h : ReopenSound d) (hcall : KeepsRegistry d.path call)
    (hc : SameRegistry d d' ∨ call.RegistryChange d d') : RegistryCoherent d' :=
  h.coherent.step hc hcall.1 fun name he => ⟨fun hname => hcall.2.1 (by
    subst he hname; exact .inl toAsciiLowercase_adminDatabaseName), hcall.2.2 name he⟩

/-- Calls other than `delete_database` keep the admin database's files. -/
theorem files_step (h : ReopenSound d) (hdel : ∀ name, call ≠ .deleteDatabase name)
    (hc : SameRegistry d d' ∨ call.RegistryChange d d') : d'.adminFiles = true := by
  rcases hc with hs | hc
  · exact hs.adminFiles.trans h.files
  · cases call with
    | createDatabaseWithSchema => exact hc.2.2.2.trans h.files
    | deleteDatabase name => exact absurd rfl (hdel name)
    | _ => exact hc.elim

theorem onInstance (h : ReopenSound d) (hcall : KeepsRegistry d.path call)
    (h' : call.onInstance c d = some d') : ReopenSound d' := by
  refine ⟨h.coherent_step hcall (StorageCall.registry_onInstance h'),
    h.admin.onInstance hcall.2.1 h', ?_⟩
  by_cases hdel : ∃ name, call = .deleteDatabase name
  · obtain ⟨name, rfl⟩ := hdel
    cases h'
    exact StorageInstance.deleteDatabase_adminFiles h.files fun hp => hcall.2.1 (.inr hp)
  · exact h.files_step (fun name he => hdel ⟨name, he⟩) (StorageCall.registry_onInstance h')

theorem onStorage (h : ReopenSound d) (st : Storage) (hcall : KeepsRegistry d.path call) :
    ReopenSound (call.onStorage c d st) := by
  refine ⟨h.coherent_step hcall (StorageCall.registry_onStorage st call),
    h.admin.onStorage st hcall.2.1, ?_⟩
  by_cases hdel : ∃ name, call = .deleteDatabase name
  · obtain ⟨name, rfl⟩ := hdel
    show (st.deleteDatabase d name).2.adminFiles = true
    unfold Storage.deleteDatabase Storage.guarded
    split
    · exact h.files
    · exact StorageInstance.deleteDatabase_adminFiles h.files fun hp => hcall.2.1 (.inr hp)
  · exact h.files_step (fun name he => hdel ⟨name, he⟩) (StorageCall.registry_onStorage st call)

end ReopenSound

end BonsaiDb.Local
