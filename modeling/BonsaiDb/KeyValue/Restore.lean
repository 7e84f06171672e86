import BonsaiDb.KeyValue.SetRetry

/-!
# Key/value — dumping the tree and restoring it

`Database::all_key_value_entries` (`keyvalue.rs` 89–121) scans the whole `kv` tree into a
`HashMap` of full keys to entries, and `Entry::restore` (lines 27–48) writes one entry back with
`execute_set_operation`: the entry's value and expiration, `keep_existing_expiration` off, no
check, and no previous value. The restores run as key operations of the engine.

* The dump holds each key of the tree once, with its entry (`mem_allKeyValueEntries`).
* The keys of one dump differ, so no restore's swap is contended by another (`RestoreAt`,
  `RestoreSound`).
* `ExpirationLoader` and `expiration_task` run beside the restores. A removal batch deletes what
  the task tracks without reading the entry again, so a restored key whose old entry had a
  deadline can lose its restored entry once that deadline passes. While the task samples only
  times before every deadline stored or restored, no batch finds a key due (`NothingDue`).
* Then, in every interleaving of the restores of a dump with each other, with the loader and
  with the task, in whatever order the `HashMap` yields the dump, once the restores have all
  returned the tree holds the dump over what it held before, and each restored expiration has
  been sent to the task (`restore_reproduces_dump`).
-/

namespace BonsaiDb.KeyValue

/-! ## The dump -/

/-- `Database::all_key_value_entries`: a scan of the whole `kv` tree collected into a `HashMap`,
each key with its entry. Only `keyvalue.rs` writes the tree, so `String::from_utf8` of a key and
`bincode::deserialize` of an entry succeed. -/
def allKeyValueEntries (t : Tree) : Map Entry :=
  t.foldl (fun m (key, entry) => m.insert key entry) []

theorem nodup_keys_allKeyValueEntries (t : Tree) :
    ((allKeyValueEntries t).map Prod.fst).Nodup := by
  suffices ∀ m : Map Entry, (m.map Prod.fst).Nodup →
      ((t.foldl (fun m (key, entry) => m.insert key entry) m).map Prod.fst).Nodup from
    this [] List.nodup_nil
  induction t with
  | nil => exact fun m hm => hm
  | cons p t ih => exact fun m hm => ih _ (Map.nodup_keys_insert hm p.1 p.2)

/-- Inserting the bindings of a tree with distinct keys gives each of its keys its entry. -/
theorem get_foldl_insert {t : Tree} (ht : (t.map Prod.fst).Nodup) (m : Map Entry)
    (key : String) :
    (t.foldl (fun m (key, entry) => m.insert key entry) m).get key =
      if key ∈ t.map Prod.fst then t.get key else m.get key := by
  induction t generalizing m with
  | nil => simp
  | cons p t ih =>
    obtain ⟨k, e⟩ := p
    rw [List.map_cons, List.nodup_cons] at ht
    rw [List.foldl_cons, ih ht.2]
    by_cases hk : k = key
    · subst hk
      simp [ht.1, Map.get]
    · by_cases hmem : key ∈ t.map Prod.fst
      · simp [hmem, Map.get, hk]
      · simp [hmem, Map.get, hk, Ne.symm hk]

theorem mem_allKeyValueEntries {t : Tree} (ht : (t.map Prod.fst).Nodup) {key : String}
    {e : Entry} : (key, e) ∈ allKeyValueEntries t ↔ t.get key = some e := by
  constructor
  · intro h
    have hget := Map.get_eq_some_of_mem (nodup_keys_allKeyValueEntries t) h
    rw [allKeyValueEntries, get_foldl_insert ht] at hget
    split_ifs at hget
    · exact hget
    · cases hget
  · intro h
    refine Map.mem_of_get_eq_some ?_
    rw [allKeyValueEntries, get_foldl_insert ht,
      if_pos (List.mem_map.mpr ⟨_, Map.mem_of_get_eq_some h, rfl⟩), h]

/-! ## One restore -/

/-- The arguments `Entry::restore` passes `execute_set_operation`. -/
def Entry.restoreArgs (e : Entry) : SetArgs :=
  ⟨e.value, e.expiration, false, none, false⟩

/-- The key operation `Entry::restore` runs. -/
def Entry.restoreCommand (e : Entry) : Command :=
  .set e.value e.expiration false none false

/-- The engine's key operations restoring `entries`, one per entry. -/
def restoreOps (entries : Map Entry) : List (String × Command) :=
  entries.map fun (key, e) => (key, e.restoreCommand)

/-- The closure of a restore stores the entry, whatever the key held. -/
theorem setUpdate_restore (e : Entry) (current : Option Entry) :
    setUpdate e.restoreArgs e.restoreArgs.locals current =
      (⟨e, current.isNone, true⟩, some e) := by
  cases current <;> rfl

/-- Where the restore of `e` on `key` is, given `old`, the key's entry before any restore ran,
the key's entry now, and what the expiration channel has carried. -/
def RestoreAt (key : String) (e : Entry) (old entry : Option Entry) (sent : List ExpirationUpdate) :
    Pc → Prop
  | .start command => command = e.restoreCommand ∧ entry = old
  | .setSwap a l current => a = e.restoreArgs ∧ l = a.locals ∧ current = entry ∧ entry = old
  | .numericSwap .. => False
  | .notify expiration _ => expiration = e.expiration ∧ entry = some e
  | .done result =>
    (∃ output, result = .ok output) ∧ entry = some e ∧ ⟨key, e.expiration⟩ ∈ sent

namespace RestoreAt

variable {key : String} {e : Entry} {old entry : Option Entry} {sent : List ExpirationUpdate}
  {pc : Pc}

/-- The key holds what it held before, or the restored entry. -/
theorem entry_cases (h : RestoreAt key e old entry sent pc) : entry = old ∨ entry = some e := by
  cases pc with
  | start => exact .inl h.2
  | setSwap => exact .inl h.2.2.2
  | numericSwap => exact h.elim
  | notify => exact .inr h.2
  | done => exact .inr h.2.1

/-- The channel only ever carries more. -/
theorem mono {sent' : List ExpirationUpdate} (h : RestoreAt key e old entry sent pc)
    (hsent : sent ⊆ sent') : RestoreAt key e old entry sent' pc := by
  cases pc with
  | done => exact ⟨h.1, h.2.1, hsent h.2.2⟩
  | _ => exact h

/-- One step of a restore whose key no one else has written since it read it; the only update it
sends is its own expiration. -/
theorem step {tree tree' : Tree} {pc' : Pc} {sent' : List ExpirationUpdate}
    (h : RestoreAt key e old (tree.get key) sent pc)
    (hs : pc.step key tree = some (pc', tree', sent')) :
    RestoreAt key e old (tree'.get key) (sent ++ sent') pc' ∧
      ∀ u ∈ sent', u = ⟨key, e.expiration⟩ := by
  cases pc with
  | start command =>
    obtain ⟨rfl, hold⟩ := h
    cases hs
    exact ⟨⟨rfl, rfl, rfl, hold⟩, by simp⟩
  | setSwap a l current =>
    obtain ⟨rfl, rfl, rfl, -⟩ := h
    simp only [Pc.step_setSwap_won rfl, setUpdate_restore, if_true, Option.some.injEq,
      Prod.mk.injEq] at hs
    obtain ⟨rfl, rfl, rfl⟩ := hs
    exact ⟨⟨rfl, Tree.get_set_self _ _ _⟩, by simp⟩
  | numericSwap => exact h.elim
  | notify expiration output =>
    obtain ⟨rfl, hentry⟩ := h
    cases hs
    exact ⟨⟨⟨_, rfl⟩, hentry, by simp⟩, by simp⟩
  | done => cases hs

end RestoreAt

/-! ## Nothing falls due -/

/-- No deadline earlier than `first`. -/
def NotBefore (first : Timestamp) (expiration : Option Timestamp) : Prop :=
  ∀ d, expiration = some d → first ≤ d

/-- Writing a key a value with no deadline before `first` keeps every binding so. -/
theorem notBefore_set {first : Timestamp} {t : Tree}
    (ht : ∀ p ∈ t, NotBefore first p.2.expiration) (key : String) {v : Option Entry}
    (hv : ∀ e, v = some e → NotBefore first e.expiration) :
    ∀ p ∈ t.set key v, NotBefore first p.2.expiration := by
  rintro ⟨k, e⟩ hp
  by_cases hk : key = k
  · subst hk
    exact hv e (Tree.eq_of_mem_set_self hp)
  · exact ht _ ((Tree.mem_set_of_ne t v hk).mp hp)

/-- The loader's scan sends the deadlines the tree stores. -/
theorem notBefore_loaderScan {first : Timestamp} {t : Tree}
    (ht : ∀ p ∈ t, NotBefore first p.2.expiration) :
    ∀ u ∈ loaderScan t, NotBefore first u.expiration := by
  intro u hu
  obtain ⟨⟨k, e⟩, hmem, hu⟩ := List.mem_filterMap.mp hu
  obtain ⟨d, hd, rfl⟩ := Option.map_eq_some'.mp hu
  exact hd ▸ ht _ hmem

/-- Everything the expiration machinery holds is due no earlier than `first`: the stored
entries, the channel, the loader's scan and the tracked deadlines. So a removal batch sampled
before `first` finds no key due. -/
structure NothingDue (first : Timestamp) (s : KvSystem) : Prop where
  tree : ∀ p ∈ s.tree, NotBefore first p.2.expiration
  updates : ∀ u ∈ s.updates, NotBefore first u.expiration
  pending : ∀ pending, s.loader = .forwarding pending → ∀ u ∈ pending, NotBefore first u.expiration
  tracked : s.expirer.phase ≠ .panicked → ∀ k, NotBefore first (s.expirer.trackedKeys k)
  batch : ∀ now keys, s.expirer.phase = .removing now keys → keys = []

namespace NothingDue

variable {first : Timestamp} {s : KvSystem}

/-- A key operation's step that writes and sends nothing due before `first`. -/
theorem thread (h : NothingDue first s) {tree : Tree} {threads : List KvThread}
    {sent : List ExpirationUpdate} (htree : ∀ p ∈ tree, NotBefore first p.2.expiration)
    (hsent : ∀ u ∈ sent, NotBefore first u.expiration) :
    NothingDue first { s with tree, threads, updates := s.updates ++ sent } :=
  ⟨htree, fun u hu => (List.mem_append.mp hu).elim (h.updates u) (hsent u), h.pending,
    h.tracked, h.batch⟩

theorem receive (h : NothingDue first s) (hw : s.expirer.phase = .waiting)
    {u : ExpirationUpdate} {rest : List ExpirationUpdate} (hu : s.updates = u :: rest) :
    NothingDue first { s with expirer := s.expirer.receive u, updates := rest,
                              received := s.received ++ [u] } := by
  have hrest : ∀ u' ∈ rest, NotBefore first u'.expiration := fun u' h' =>
    h.updates u' (by simp [hu, h'])
  rcases s.expirer.receive_cases u with hpanic | ⟨hwait, htracked⟩
  · exact ⟨h.tree, hrest, h.pending, fun hp => absurd hpanic hp, fun _ _ hb => by
      simp [hpanic] at hb⟩
  · refine ⟨h.tree, hrest, h.pending, fun _ k => ?_, fun _ _ hb => by simp [hwait] at hb⟩
    rw [htracked]
    by_cases hk : k = u.treeKey
    · subst hk
      simpa using h.updates u (by simp [hu])
    · simpa [hk] using h.tracked (by simp [hw]) k


variable {t₀ : Tree} in
theorem start (hold : ∀ p ∈ t₀, NotBefore first p.2.expiration) (ops : List (String × Command)) :
    NothingDue first (KvSystem.start t₀ ops) where
  tree := hold
  updates := by simp [KvSystem.start]
  pending := fun _ h => by cases h
  tracked := fun _ k d hd => by simp [KvSystem.start, Expirer.init] at hd
  batch := fun _ _ h => by cases h

/-- A removal batch sampled before `first` has no key to delete. -/
theorem expire (h : NothingDue first s) (hw : s.expirer.phase = .waiting) {now : Timestamp}
    (hnow : now < first) : NothingDue first { s with expirer := s.expirer.expire now } := by
  have htracked := h.tracked (by simp [hw])
  rcases s.expirer.expire_cases now with hpanic | ⟨keys, hphase, hcollect⟩
  · exact ⟨h.tree, h.updates, h.pending, fun hp => absurd hpanic hp, fun _ _ hb => by
      simp [hpanic] at hb⟩
  · obtain ⟨hdue, hkeep⟩ := collectExpired_due hcollect
    refine ⟨h.tree, h.updates, h.pending, fun _ k d hd => htracked k d (hkeep k d hd),
      fun now' keys' hb => ?_⟩
    rw [hphase] at hb
    cases hb
    refine List.eq_nil_iff_forall_not_mem.mpr fun k hk => ?_
    obtain ⟨d, hd, hle⟩ := hdue k hk
    exact Nat.lt_irrefl d (Nat.lt_of_lt_of_le (Nat.lt_of_le_of_lt hle hnow) (htracked k d hd))

theorem endBatch (h : NothingDue first s) {now : Timestamp}
    (hp : s.expirer.phase = .removing now []) :
    NothingDue first { s with expirer := { s.expirer with phase := .waiting } } :=
  ⟨h.tree, h.updates, h.pending, fun _ => h.tracked (by simp [hp]), fun _ _ hb => by cases hb⟩

theorem load (h : NothingDue first s) :
    NothingDue first { s with loader := .forwarding (loaderScan s.tree) } :=
  ⟨h.tree, h.updates, fun _ hp => by cases hp; exact notBefore_loaderScan h.tree, h.tracked,
    h.batch⟩

theorem forward (h : NothingDue first s) {u : ExpirationUpdate} {rest : List ExpirationUpdate}
    (hl : s.loader = .forwarding (u :: rest)) :
    NothingDue first { s with loader := .forwarding rest, updates := s.updates ++ [u] } := by
  have hpending := h.pending _ hl
  refine ⟨h.tree, fun u' hu' => ?_, fun _ hp => ?_, h.tracked, h.batch⟩
  · rcases List.mem_append.mp hu' with hu' | hu'
    · exact h.updates u' hu'
    · exact List.mem_singleton.mp hu' ▸ hpending u (List.mem_cons_self _ _)
  · cases hp
    exact fun u' hu' => hpending u' (List.mem_cons_of_mem _ hu')

end NothingDue

/-! ## The restores of a dump, interleaved -/

/-- Two entries of a dump at different places have different keys. -/
theorem key_ne_of_nodup {entries : Map Entry} (hkeys : (entries.map Prod.fst).Nodup)
    {i j : Nat} {k k' : String} {e e' : Entry} (hi : entries[i]? = some (k, e))
    (hj : entries[j]? = some (k', e')) (hij : i ≠ j) : k ≠ k' := by
  rintro rfl
  refine hij (List.getElem?_inj (by simpa using (List.getElem?_eq_some_iff.mp hi).1) hkeys ?_)
  simp [hi, hj]

/-- Restore `i` is where `RestoreAt` says, every key outside the dump is as it was, and nothing is
due before `first`. -/
structure RestoreSound (first : Timestamp) (t₀ : Tree) (entries : Map Entry) (s : KvSystem) :
    Prop where
  length : s.threads.length = entries.length
  threads : ∀ (i : Nat) (key : String) (e : Entry), entries[i]? = some (key, e) →
    ∃ pc : Pc, s.threads[i]? = some ⟨key, pc⟩ ∧
      RestoreAt key e (t₀.get key) (s.tree.get key) (s.received ++ s.updates) pc
  others : ∀ key : String, key ∉ entries.map Prod.fst → s.tree.get key = t₀.get key
  due : NothingDue first s

namespace RestoreSound

variable {first : Timestamp} {t₀ : Tree} {entries : Map Entry} {s s' : KvSystem}

theorem start (hold : ∀ p ∈ t₀, NotBefore first p.2.expiration) (entries : Map Entry) :
    RestoreSound first t₀ entries (KvSystem.start t₀ (restoreOps entries)) where
  length := by simp [KvSystem.start, restoreOps]
  threads := fun i key e h =>
    ⟨.start e.restoreCommand, by simp [KvSystem.start, restoreOps, h, KvThread.start], rfl, rfl⟩
  others := fun _ _ => rfl
  due := .start hold _

/-- A step of one restore keeps every restore where `RestoreAt` says, and writes and sends only
deadlines of the dump. -/
theorem thread (hs : RestoreSound first t₀ entries s) (hkeys : (entries.map Prod.fst).Nodup)
    (hold : ∀ p ∈ t₀, NotBefore first p.2.expiration)
    (hnew : ∀ p ∈ entries, NotBefore first p.2.expiration) {i : Nat}
    (h : s.step (.thread i) = some s') : RestoreSound first t₀ entries s' := by
  obtain ⟨t, pc, tree, sent, ht, hpc, rfl⟩ := KvSystem.step_thread h
  have hi : i < entries.length := hs.length ▸ (List.getElem?_eq_some_iff.mp ht).1
  obtain ⟨⟨key, e⟩, he⟩ : ∃ p, entries[i]? = some p := ⟨_, List.getElem?_eq_getElem hi⟩
  obtain ⟨pc₀, ht₀, hat⟩ := hs.threads i key e he
  rw [ht] at ht₀
  cases ht₀
  obtain ⟨hframe, -⟩ := Pc.step_frame hpc
  obtain ⟨hat', hsent⟩ := hat.step hpc
  have hlate : NotBefore first e.expiration := hnew _ (List.getElem?_mem he)
  -- the key holds its entry from before the restores, or the restored one
  have hentry : ∀ e', tree.get key = some e' → NotBefore first e'.expiration := fun e' he' =>
    hat'.entry_cases.elim (fun h' => hold _ (Map.mem_of_get_eq_some (h' ▸ he'))) fun h' =>
      Option.some.inj (he'.symm.trans h') ▸ hlate
  refine ⟨by simp [hs.length], fun j k e' hj => ?_, fun k hk => ?_, hs.due.thread ?_ ?_⟩
  · by_cases hij : j = i
    · subst hij
      rw [he] at hj
      cases hj
      refine ⟨pc, List.getElem?_set_self (List.getElem?_eq_some_iff.mp ht).1, ?_⟩
      rwa [← List.append_assoc]
    · obtain ⟨pcj, htj, hatj⟩ := hs.threads j k e' hj
      have hk : k ≠ key := key_ne_of_nodup hkeys hj he hij
      refine ⟨pcj, by rwa [List.getElem?_set_ne (Ne.symm hij)], ?_⟩
      rw [hframe k hk, ← List.append_assoc]
      exact hatj.mono (List.subset_append_left _ _)
  · have hk' : k ≠ key := fun hk' =>
      hk (hk' ▸ List.mem_map.mpr ⟨_, List.mem_iff_getElem?.mpr ⟨_, he⟩, rfl⟩)
    rw [hframe k hk']
    exact hs.others k hk
  · rcases Pc.step_tree hpc with rfl | ⟨v, rfl⟩
    · exact hs.due.tree
    · exact notBefore_set hs.due.tree key fun e' he' => hentry e' (by rw [Tree.get_set_self, he'])
  · exact fun u hu => hsent u hu ▸ hlate

/-- A step of the loader or of the expirer that leaves the tree and the threads alone and moves
updates only along the channel keeps every restore where `RestoreAt` says. -/
theorem of_frame (hs : RestoreSound first t₀ entries s) (htree : s'.tree = s.tree)
    (hthreads : s'.threads = s.threads)
    (hsent : s.received ++ s.updates ⊆ s'.received ++ s'.updates) (hdue : NothingDue first s') :
    RestoreSound first t₀ entries s' where
  length := hthreads ▸ hs.length
  threads := fun i key e hi => by
    obtain ⟨pc, hth, hat⟩ := hs.threads i key e hi
    exact ⟨pc, hthreads ▸ hth, htree ▸ hat.mono hsent⟩
  others := fun key hk => htree ▸ hs.others key hk
  due := hdue

/-- Every step, with the expirer sampling only times before `first`, keeps the invariant. -/
theorem step (hs : RestoreSound first t₀ entries s) (hkeys : (entries.map Prod.fst).Nodup)
    (hold : ∀ p ∈ t₀, NotBefore first p.2.expiration)
    (hnew : ∀ p ∈ entries, NotBefore first p.2.expiration) {ev : KvEvent}
    (hev : ∀ now, ev = .expire now → now < first) (h : s.step ev = some s') :
    RestoreSound first t₀ entries s' := by
  cases ev
  case thread i => exact hs.thread hkeys hold hnew h
  all_goals simp only [KvSystem.step] at h
  all_goals split at h <;> cases h
  case receive.h_1 _ _ hw hu =>
    refine hs.of_frame rfl rfl ?_ (hs.due.receive hw hu)
    rw [hu, List.append_assoc, List.singleton_append]
    exact List.Subset.refl _
  case expire.h_1 _ _ hw _ _ =>
    exact hs.of_frame rfl rfl (List.Subset.refl _) (hs.due.expire hw (hev _ rfl))
  case remove.h_1 _ _ _ hp => exact absurd (hs.due.batch _ _ hp) (List.cons_ne_nil _ _)
  case remove.h_2 _ hp => exact hs.of_frame rfl rfl (List.Subset.refl _) (hs.due.endBatch hp)
  case load.h_1 => exact hs.of_frame rfl rfl (List.Subset.refl _) hs.due.load
  case forward.h_1 _ _ hl =>
    refine hs.of_frame rfl rfl ?_ (hs.due.forward hl)
    rw [← List.append_assoc]
    exact List.subset_append_left _ _

/-- Every run whose removal batches are sampled before `first` keeps the invariant. -/
theorem run (hs : RestoreSound first t₀ entries s) (hkeys : (entries.map Prod.fst).Nodup)
    (hold : ∀ p ∈ t₀, NotBefore first p.2.expiration)
    (hnew : ∀ p ∈ entries, NotBefore first p.2.expiration) {es : List KvEvent}
    (hes : ∀ now, KvEvent.expire now ∈ es → now < first) (h : s.run es = some s') :
    RestoreSound first t₀ entries s' := by
  induction es generalizing s with
  | nil => cases h; exact hs
  | cons ev es ih =>
    obtain ⟨s₁, h₁, h₂⟩ := Option.bind_eq_some.mp h
    exact ih (hs.step hkeys hold hnew (fun now hev => hes now (hev ▸ List.mem_cons_self _ _)) h₁)
      (fun now hnow => hes now (List.mem_cons_of_mem _ hnow)) h₂

/-- A returned restore has written its entry and sent its expiration. -/
theorem returned (hs : RestoreSound first t₀ entries s)
    (hdone : ∀ th ∈ s.threads, th.result.isSome) {i : Nat} {key : String} {e : Entry}
    (hi : entries[i]? = some (key, e)) :
    (∃ th output, s.threads[i]? = some th ∧ th.result = some (.ok output)) ∧
      s.tree.get key = some e ∧ (⟨key, e.expiration⟩ : ExpirationUpdate) ∈ s.received ++ s.updates := by
  obtain ⟨pc, hth, hat⟩ := hs.threads i key e hi
  have hres := hdone _ (List.mem_iff_getElem?.mpr ⟨_, hth⟩)
  cases pc
  case done r =>
    obtain ⟨⟨output, rfl⟩, htree, hsent⟩ := hat
    exact ⟨⟨_, output, hth, rfl⟩, htree, hsent⟩
  all_goals simp [KvThread.result] at hres

end RestoreSound

/-- Restoring the dump of a tree with distinct keys, in whatever order the `HashMap` yields it,
with the restores interleaved in any way with each other, with `ExpirationLoader` and with
`expiration_task`, as long as the task samples only times before `first`, and no deadline
stored before or restored is earlier: once every restore has returned, each has returned `Ok`,
every key of the tree holds its entry, every other key holds what it held before, and each
dumped key's expiration has been sent to the task. -/
theorem restore_reproduces_dump {t : Tree} (ht : (t.map Prod.fst).Nodup) {entries : Map Entry}
    (hperm : entries.Perm (allKeyValueEntries t)) {t₀ : Tree} {first : Timestamp}
    (hdue : ∀ p ∈ t₀ ++ t, ∀ d, p.2.expiration = some d → first ≤ d) {es : List KvEvent}
    {s : KvSystem} (hes : ∀ now, KvEvent.expire now ∈ es → now < first)
    (hrun : (KvSystem.start t₀ (restoreOps entries)).run es = some s)
    (hdone : ∀ th ∈ s.threads, th.result.isSome) :
    (∀ th ∈ s.threads, ∃ output, th.result = some (.ok output)) ∧
      ∀ key, s.tree.get key = (if key ∈ t.map Prod.fst then t.get key else t₀.get key) ∧
        ∀ e, t.get key = some e →
          (⟨key, e.expiration⟩ : ExpirationUpdate) ∈ s.received ++ s.updates := by
  have hkeys : (entries.map Prod.fst).Nodup :=
    ((hperm.map Prod.fst).nodup_iff).mpr (nodup_keys_allKeyValueEntries t)
  have hmem : ∀ {key : String} {e : Entry}, (key, e) ∈ entries ↔ t.get key = some e :=
    hperm.mem_iff.trans (mem_allKeyValueEntries ht)
  have hold : ∀ p ∈ t₀, NotBefore first p.2.expiration := fun p hp =>
    hdue p (List.mem_append_left _ hp)
  have hs := (RestoreSound.start hold entries).run hkeys hold
    (fun p hp => hdue p (List.mem_append_right _ (Map.mem_of_get_eq_some (hmem.mp hp)))) hes hrun
  refine ⟨fun th hth => ?_, fun key => ?_⟩
  · obtain ⟨i, hi⟩ := List.mem_iff_getElem?.mp hth
    have hlt : i < entries.length := hs.length ▸ (List.getElem?_eq_some_iff.mp hi).1
    obtain ⟨⟨key, e⟩, he⟩ : ∃ p, entries[i]? = some p := ⟨_, List.getElem?_eq_getElem hlt⟩
    obtain ⟨⟨th', output, hth', hres⟩, -⟩ := hs.returned hdone he
    rw [hi] at hth'
    cases hth'
    exact ⟨output, hres⟩
  · by_cases hk : key ∈ t.map Prod.fst
    · obtain ⟨⟨k, e⟩, hke, rfl⟩ := List.mem_map.mp hk
      have hget := Map.get_eq_some_of_mem ht hke
      obtain ⟨i, hi⟩ := List.mem_iff_getElem?.mp (hmem.mpr hget)
      obtain ⟨-, htree, hsent⟩ := hs.returned hdone hi
      refine ⟨by simp [hk, hget, htree], fun e' he' => ?_⟩
      exact Option.some.inj (hget.symm.trans he') ▸ hsent
    · have hget : t.get key = none := Option.eq_none_iff_forall_not_mem.mpr fun e he =>
        hk (List.mem_map.mpr ⟨_, Map.mem_of_get_eq_some he, rfl⟩)
      have hout : key ∉ entries.map Prod.fst := fun h => by
        obtain ⟨⟨k, e⟩, hke, rfl⟩ := List.mem_map.mp h
        exact absurd (hmem.mp hke) (by simp [hget])
      exact ⟨by simp [hk, hs.others key hout], fun e he => by simp [hget] at he⟩

/-- A tree to dump: `a` without an expiration, `b` expiring at `7`. -/
def dumpedTree : Tree :=
  [("a", ⟨.bytes [1], none⟩), ("b", ⟨.numeric (.unsignedInteger 5), some 7⟩)]

/-- The tree restored into: another entry under `a`, expiring at `3`, and a key `c` of its own. -/
def restoreTarget : Tree :=
  [("c", ⟨.bytes [9], none⟩), ("a", ⟨.bytes [0], some 3⟩)]

/-- The loader scans `a`'s old deadline 3 and the expirer takes it; the expirer samples the time
1 and ends an empty batch; the two restores run interleaved, and the expirer takes their
updates. -/
def restoreSchedule : List KvEvent :=
  [.load, .forward, .receive, .expire 1, .remove, .thread 0, .thread 1, .thread 1, .thread 0,
    .thread 1, .thread 0, .receive, .receive]

/-- The engine after `restoreSchedule`. -/
def restored : KvSystem :=
  ((KvSystem.start restoreTarget (restoreOps (allKeyValueEntries dumpedTree))).run
    restoreSchedule).getD (KvSystem.start [] [])

theorem restored_holds_dump :
    (KvSystem.start restoreTarget (restoreOps (allKeyValueEntries dumpedTree))).run
        restoreSchedule = some restored ∧
      (∀ th ∈ restored.threads, th.result.isSome) ∧
      restored.tree.get "a" = some ⟨.bytes [1], none⟩ ∧
      restored.tree.get "c" = some ⟨.bytes [9], none⟩ ∧
      (⟨"b", some 7⟩ : ExpirationUpdate) ∈ restored.received ++ restored.updates :=
  have hdone : ∀ th ∈ restored.threads, th.result.isSome := by decide
  have h := @restore_reproduces_dump dumpedTree (by decide) (allKeyValueEntries dumpedTree)
    (List.Perm.refl _) restoreTarget 3 (by simp [restoreTarget, dumpedTree]) restoreSchedule
    restored (fun now h => by simp [restoreSchedule] at h; simp [h]) rfl hdone
  ⟨rfl, hdone, (h.2 "a").1.trans rfl, (h.2 "c").1.trans rfl, (h.2 "b").2 _ rfl⟩

end BonsaiDb.KeyValue
