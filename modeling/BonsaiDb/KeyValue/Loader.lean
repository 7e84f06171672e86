import BonsaiDb.KeyValue.ExpirationOrder

/-!
# Key/value — restoring deadlines at open

`ExpirationLoader::execute` (`keyvalue.rs` 767–802) runs once per database open: it scans the `kv`
tree and hands every stored expiration to `expiration_task` through
`update_key_expiration_async`, so that entries written before the open still expire.

For a key that no key operation touches, the key's stored deadline is, at every point of every
interleaving, in exactly one place (`KeyPlace`): not yet scanned; on its way to the expirer, once;
tracked at the stored expiration; or in the removal batch under way. So once the loader has
forwarded its scan and the expirer has taken every waiting update, the expirer tracks exactly the
stored expiration (`loader_restores_deadline`).

A key operation on the key during the load breaks this: the scan's update can reach the expirer
after the operation's newer one, and the expirer then tracks the deadline the scan read.
-/

namespace BonsaiDb.KeyValue

/-- The expiration stored under `key`, if an entry is stored. -/
def storedExpiration (t : Tree) (key : String) : Option Timestamp :=
  (t.get key).bind (·.expiration)

/-- The updates the loader has yet to forward. -/
def Loader.pending : Loader → List ExpirationUpdate
  | .queued => []
  | .forwarding pending => pending

/-- The keys a removal batch still has to delete. -/
def Phase.batch : Phase → List String
  | .removing _ keys => keys
  | _ => []

/-- The updates for `key` the expirer has not taken yet: with the loader, or in the channel. -/
def KvSystem.inFlight (s : KvSystem) (key : String) : List ExpirationUpdate :=
  (s.loader.pending ++ s.updates).filter (·.treeKey = key)

theorem loaderScan_cons (k : String) (e : Entry) (t : Tree) :
    loaderScan ((k, e) :: t) =
      (e.expiration.map fun d => ⟨k, some d⟩).toList ++ loaderScan t := by
  cases h : e.expiration <;> simp [loaderScan, h]

/-- With one binding per key, the scan sends `key`'s stored expiration, and nothing else for
`key`. -/
theorem filter_loaderScan {t : Tree} (ht : (t.map Prod.fst).Nodup) (key : String) :
    (loaderScan t).filter (·.treeKey = key) =
      (storedExpiration t key).toList.map fun d => ⟨key, some d⟩ := by
  induction t with
  | nil => rfl
  | cons p t ih =>
    obtain ⟨k, e⟩ := p
    rw [List.map_cons, List.nodup_cons] at ht
    rw [loaderScan_cons, List.filter_append, ih ht.2]
    by_cases hk : k = key
    · subst hk
      -- the only binding of `k` is this one
      have hnone : Map.get t k = none := Option.eq_none_iff_forall_not_mem.mpr fun v hv =>
        ht.1 (List.mem_map.mpr ⟨_, Map.mem_of_get_eq_some hv, rfl⟩)
      cases he : e.expiration <;> simp [storedExpiration, Map.get, hnone, he]
    · cases e.expiration <;> simp [storedExpiration, Map.get, hk]

/-- Where `key`'s stored deadline is, in a run where no key operation touches `key`. -/
inductive KeyPlace (key : String) (s : KvSystem) : Prop where
  /-- The loader has not scanned the tree: nothing for `key` is tracked or on its way. -/
  | unscanned (hloader : s.loader = .queued) (hflight : s.inFlight key = [])
      (htracked : s.expirer.trackedKeys key = none) (hbatch : key ∉ s.expirer.phase.batch)
  /-- The stored deadline `d` is on its way to the expirer, once. -/
  | sent (d : Timestamp) (hloader : s.loader ≠ .queued)
      (hflight : s.inFlight key = [⟨key, some d⟩])
      (hstored : storedExpiration s.tree key = some d)
      (htracked : s.expirer.trackedKeys key = none) (hbatch : key ∉ s.expirer.phase.batch)
  /-- The expirer tracks the stored expiration, or nothing when none is stored. -/
  | tracked (hloader : s.loader ≠ .queued) (hflight : s.inFlight key = [])
      (htracked : s.expirer.trackedKeys key = storedExpiration s.tree key)
      (hbatch : key ∉ s.expirer.phase.batch)
  /-- The removal batch under way takes `key`. -/
  | removing (hloader : s.loader ≠ .queued) (hflight : s.inFlight key = [])
      (htracked : s.expirer.trackedKeys key = none) (hbatch : key ∈ s.expirer.phase.batch)

namespace KeyPlace

variable {key : String} {s : KvSystem}

/-- A step that leaves `key`'s view alone keeps its place: whether the loader has scanned, what
is on its way (in any order), the stored and tracked expirations, and the batch. -/
theorem of_view {s' : KvSystem} (h : KeyPlace key s)
    (hloader : s'.loader = .queued ↔ s.loader = .queued)
    (hflight : List.Perm (s'.inFlight key) (s.inFlight key))
    (hstored : storedExpiration s'.tree key = storedExpiration s.tree key)
    (htracked : s'.expirer.trackedKeys key = s.expirer.trackedKeys key)
    (hbatch : key ∈ s'.expirer.phase.batch ↔ key ∈ s.expirer.phase.batch) :
    KeyPlace key s' := by
  cases h with
  | unscanned hl hf ht hb =>
    exact .unscanned (hloader.mpr hl) (hf ▸ hflight).eq_nil (htracked.trans ht) (mt hbatch.mp hb)
  | sent d hl hf hs ht hb =>
    exact .sent d (mt hloader.mp hl) (List.perm_singleton.mp (hf ▸ hflight)) (hstored.trans hs)
      (htracked.trans ht) (mt hbatch.mp hb)
  | tracked hl hf ht hb =>
    exact .tracked (mt hloader.mp hl) (hf ▸ hflight).eq_nil (by rw [htracked, hstored, ht])
      (mt hbatch.mp hb)
  | removing hl hf ht hb =>
    exact .removing (mt hloader.mp hl) (hf ▸ hflight).eq_nil (htracked.trans ht) (hbatch.mpr hb)

/-- A step of an operation on another key: its write and its updates are not `key`'s. -/
theorem thread (h : KeyPlace key s) {t : KvThread} (hkey : t.key ≠ key) {pc : Pc} {tree : Tree}
    {sent : List ExpirationUpdate} (hstep : t.pc.step t.key s.tree = some (pc, tree, sent))
    (threads : List KvThread) :
    KeyPlace key { s with tree, threads, updates := s.updates ++ sent } := by
  obtain ⟨hframe, hsent⟩ := Pc.step_frame hstep
  have hnone : sent.filter (·.treeKey = key) = [] :=
    List.filter_eq_nil_iff.mpr fun u hu => by simp [hsent u hu, hkey]
  refine h.of_view Iff.rfl (.of_eq ?_) (by rw [storedExpiration, hframe key (Ne.symm hkey)]; rfl)
    rfl Iff.rfl
  simp only [KvSystem.inFlight, ← List.append_assoc, List.filter_append, hnone, List.append_nil]

/-- The expirer takes the channel's front update `u`: if it is `key`'s, it is the stored deadline
on its way, which becomes tracked. -/
theorem receive (h : KeyPlace key s) (hsound : OrderSound s.expirer s.received)
    (hw : s.expirer.phase = .waiting) {u : ExpirationUpdate} {rest : List ExpirationUpdate}
    (hu : s.updates = u :: rest) :
    KeyPlace key { s with expirer := s.expirer.receive u, updates := rest,
                          received := s.received ++ [u] } := by
  obtain ⟨hphase, hreceive⟩ := hsound.receive_waiting u
  have hperm : List.Perm (s.inFlight key)
      ((u :: (s.loader.pending ++ rest)).filter (·.treeKey = key)) := by
    rw [KvSystem.inFlight, hu]
    exact List.perm_middle.filter _
  rw [List.filter_cons] at hperm
  by_cases hk : u.treeKey = key
  · rw [if_pos (decide_eq_true hk)] at hperm
    cases h with
    | sent d hl hf hs _ _ =>
      -- the one update for `key` on its way is `u`, carrying the stored deadline
      obtain ⟨rfl, hrest⟩ := List.cons_eq_cons.mp (List.perm_singleton.mp (hf ▸ hperm.symm))
      exact .tracked hl hrest (by simp [hreceive, hs]) (by simp [hphase, Phase.batch])
    | unscanned _ hf _ _ | tracked _ hf _ _ | removing _ hf _ _ =>
      exact absurd (hf ▸ hperm).symm.eq_nil (List.cons_ne_nil _ _)
  · rw [if_neg (mt of_decide_eq_true hk)] at hperm
    exact h.of_view Iff.rfl hperm.symm rfl (by simp [hreceive, Function.update_noteq (Ne.symm hk)])
      (by simp [hphase, hw])

/-- A timeout takes `key` into its batch exactly when `key` is tracked and due. -/
theorem expire (h : KeyPlace key s) (hsound : OrderSound s.expirer s.received)
    (hw : s.expirer.phase = .waiting) (now : Timestamp) :
    KeyPlace key { s with expirer := s.expirer.expire now } := by
  have hexpire := hsound.expire_eq now
  by_cases hdue : ∃ d, s.expirer.trackedKeys key = some d ∧ d ≤ now
  · have hin := (hsound.mem_takeWhile_iff now key).mpr hdue
    obtain ⟨d, hd, -⟩ := hdue
    cases h with
    | tracked hl hf _ _ =>
      exact .removing hl hf (by simp [hexpire, hin]) (by simp [hexpire, hin, Phase.batch])
    | unscanned _ _ ht _ | sent _ _ _ _ ht _ => simp [ht] at hd
    | removing _ _ _ hb => simp [hw, Phase.batch] at hb
  · have hout := mt (hsound.mem_takeWhile_iff now key).mp hdue
    exact h.of_view Iff.rfl (.refl _) rfl (by simp [hexpire, hout])
      (by simp [hexpire, hout, hw, Phase.batch])

/-- The batch deletes its next key `k`: once `key` has left the batch, nothing is stored or
tracked for it. -/
theorem remove (h : KeyPlace key s) {now : Timestamp} {k : String} {keys : List String}
    (hp : s.expirer.phase = .removing now (k :: keys)) :
    KeyPlace key { s with tree := s.tree.set k none,
                          expirer := { s.expirer with phase := .removing now keys } } := by
  by_cases hk : k = key
  · subst hk
    have hstored : storedExpiration (s.tree.set k none) k = none := by simp [storedExpiration]
    cases h with
    | removing hl hf ht _ =>
      by_cases hmore : k ∈ keys
      · exact .removing hl hf ht hmore
      · exact .tracked hl hf (ht.trans hstored.symm) hmore
    | unscanned _ _ _ hb | sent _ _ _ _ _ hb | tracked _ _ _ hb => simp [hp, Phase.batch] at hb
  · exact h.of_view Iff.rfl (.refl _) (by simp [storedExpiration, hk]) rfl
      (by simp [hp, Phase.batch, Ne.symm hk])

/-- An emptied batch ends. -/
theorem endBatch (h : KeyPlace key s) {now : Timestamp} (hp : s.expirer.phase = .removing now []) :
    KeyPlace key { s with expirer := { s.expirer with phase := .waiting } } :=
  h.of_view Iff.rfl (.refl _) rfl rfl (by simp [hp, Phase.batch])

/-- The scan puts the stored deadline on its way, if there is one. -/
theorem load (h : KeyPlace key s) (hq : s.loader = .queued) (hnodup : (s.tree.map Prod.fst).Nodup) :
    KeyPlace key { s with loader := .forwarding (loaderScan s.tree) } := by
  have hnotq : Loader.forwarding (loaderScan s.tree) ≠ .queued := nofun
  cases h with
  | unscanned hl hf ht hb =>
    have hflight : ({ s with loader := .forwarding (loaderScan s.tree) } : KvSystem).inFlight key =
        (storedExpiration s.tree key).toList.map fun d => ⟨key, some d⟩ := by
      simp only [KvSystem.inFlight, hl, Loader.pending, List.nil_append] at hf
      simp only [KvSystem.inFlight, Loader.pending, List.filter_append, hf, List.append_nil,
        filter_loaderScan hnodup]
    cases hs : storedExpiration s.tree key with
    | none => exact .tracked hnotq (by simp [hflight, hs]) (ht.trans hs.symm) hb
    | some d => exact .sent d hnotq (by simp [hflight, hs]) hs ht hb
  | sent _ hl _ _ _ _ | tracked hl _ _ _ | removing hl _ _ _ => exact absurd hq hl

/-- The loader forwards its next update into the channel. -/
theorem forward (h : KeyPlace key s) {u : ExpirationUpdate} {rest : List ExpirationUpdate}
    (hl : s.loader = .forwarding (u :: rest)) :
    KeyPlace key { s with loader := .forwarding rest, updates := s.updates ++ [u] } := by
  refine h.of_view (by simp [hl]) ?_ rfl rfl Iff.rfl
  simp only [KvSystem.inFlight, hl, Loader.pending, ← List.append_assoc]
  exact (List.perm_append_singleton u _).filter _

end KeyPlace

/-- What a run keeps when no key operation touches `key`. -/
structure LoaderSound (key : String) (s : KvSystem) : Prop where
  nodup : (s.tree.map Prod.fst).Nodup
  threads : ∀ t ∈ s.threads, t.key ≠ key
  place : KeyPlace key s

namespace LoaderSound

variable {key : String} {s s' : KvSystem}

theorem start {t : Tree} (ht : (t.map Prod.fst).Nodup) {ops : List (String × Command)}
    (hops : ∀ p ∈ ops, p.1 ≠ key) : LoaderSound key (KvSystem.start t ops) where
  nodup := ht
  threads t ht := by
    obtain ⟨⟨k, c⟩, hp, rfl⟩ := List.mem_map.mp ht
    exact hops _ hp
  place := .unscanned rfl rfl rfl (by simp [KvSystem.start, Expirer.init, Phase.batch])

/-- Every step keeps the invariant. -/
theorem step (hs : LoaderSound key s) (hsound : OrderSound s.expirer s.received) {e : KvEvent}
    (h : s.step e = some s') : LoaderSound key s' := by
  cases e
  case thread i =>
    obtain ⟨t, pc, tree, sent, ht, hpc, rfl⟩ := KvSystem.step_thread h
    have hkey := hs.threads t (List.getElem?_mem ht)
    refine ⟨?_, fun t' ht' => ?_, hs.place.thread hkey hpc _⟩
    · rcases Pc.step_tree hpc with rfl | ⟨v, rfl⟩
      exacts [hs.nodup, Tree.nodup_keys_set hs.nodup _ v]
    · rcases List.mem_or_eq_of_mem_set ht' with ht' | rfl
      exacts [hs.threads t' ht', hkey]
  all_goals simp only [KvSystem.step] at h
  all_goals split at h <;> cases h
  case receive.h_1 _ _ hw hu => exact ⟨hs.nodup, hs.threads, hs.place.receive hsound hw hu⟩
  case expire.h_1 _ _ hw _ _ => exact ⟨hs.nodup, hs.threads, hs.place.expire hsound hw _⟩
  case remove.h_1 _ k _ hp =>
    exact ⟨Tree.nodup_keys_set hs.nodup k none, hs.threads, hs.place.remove hp⟩
  case remove.h_2 _ hp => exact ⟨hs.nodup, hs.threads, hs.place.endBatch hp⟩
  case load.h_1 hq => exact ⟨hs.nodup, hs.threads, hs.place.load hq hs.nodup⟩
  case forward.h_1 _ _ hl => exact ⟨hs.nodup, hs.threads, hs.place.forward hl⟩

/-- Every run from a reachable state keeps the invariant. -/
theorem run (hs : LoaderSound key s) (hr : Reachable s) {es : List KvEvent}
    (h : s.run es = some s') : LoaderSound key s' := by
  induction es generalizing s with
  | nil => cases h; exact hs
  | cons e es ih =>
    obtain ⟨s₁, h₁, h₂⟩ := Option.bind_eq_some.mp h
    exact ih (hs.step hr.orderSound.2 h₁) (hr.step e h₁) h₂

end LoaderSound

/-- After a database opens on a tree with one binding per key, while any key operations on other
keys run: once the loader has forwarded its whole scan and `expiration_task` has taken every
waiting update and is back at the top of its loop, the task tracks for `key` exactly the
expiration stored under it. -/
theorem loader_restores_deadline {t : Tree} (ht : (t.map Prod.fst).Nodup)
    {ops : List (String × Command)} {key : String} (hops : ∀ p ∈ ops, p.1 ≠ key)
    {es : List KvEvent} {s : KvSystem} (hrun : (KvSystem.start t ops).run es = some s)
    (hloaded : s.loader = .forwarding []) (hidle : s.updates = [])
    (hwait : s.expirer.phase = .waiting) :
    s.expirer.trackedKeys key = storedExpiration s.tree key := by
  have hflight : s.inFlight key = [] := by simp [KvSystem.inFlight, hloaded, hidle, Loader.pending]
  cases ((LoaderSound.start ht hops).run (.start t ops) hrun).place with
  | tracked _ _ htracked _ => exact htracked
  | unscanned hl _ _ _ => simp [hloaded] at hl
  | sent _ _ hf _ _ _ => simp [hflight] at hf
  | removing _ _ _ hb => simp [hwait, Phase.batch] at hb

/-- A tree stored before the open: `"a"` expires at 5, `"b"` never. -/
def storedBeforeOpen : Tree :=
  [("a", ⟨.bytes [1], some 5⟩), ("b", ⟨.bytes [2], none⟩)]

/-- A `set` of `"b"` with deadline 7, run during the load. -/
def setOtherKey : List (String × Command) :=
  [("b", .set (.bytes [3]) (some 7) false none false)]

/-- The scan, the `set` committing, the scan's update forwarded and taken, the `set`'s update
sent and taken. -/
def openSchedule : List KvEvent :=
  [.load, .thread 0, .thread 0, .forward, .receive, .thread 0, .receive]

theorem openSchedule_restores_deadline :
    ∃ s, (KvSystem.start storedBeforeOpen setOtherKey).run openSchedule = some s ∧
      s.expirer.trackedKeys "a" = some 5 ∧
      s.expirer.trackedKeys "a" = storedExpiration s.tree "a" :=
  ⟨_, rfl, rfl, @loader_restores_deadline storedBeforeOpen (by simp [storedBeforeOpen])
    setOtherKey "a" (by simp [setOtherKey]) openSchedule _ rfl rfl rfl rfl⟩

end BonsaiDb.KeyValue
