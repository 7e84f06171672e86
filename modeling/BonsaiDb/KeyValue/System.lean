import BonsaiDb.KeyValue.Operations
import BonsaiDb.KeyValue.Expiration

/-!
# Key/value — the engine as one system

A database's key/value engine: the `kv` tree, the channel of `ExpirationUpdate`s, the
`expiration_task`, the `ExpirationLoader` job run at database open, and any number of key
operations in flight. `KvSystem.step` takes one atomic step of one of them, so every
interleaving of their steps is a run.

* The expirer integrates the oldest waiting update (`KvEvent.receive`); it starts a removal batch
  only when no update is waiting (`KvEvent.expire`): both `tokio::time::timeout` and `try_recv`
  take a waiting update first.
* `received` is a ghost history: the updates the expirer has integrated, oldest first.
* The loader's scan reads the tree at one instant (`KvEvent.load`), then forwards what it found
  one update at a time (`KvEvent.forward`).
* A removal batch deletes the keys its tracked deadlines name without reading their entries
  again, so a write whose update is still in the channel can lose its entry to a deadline an
  earlier write set (`expiration_task_can_remove_unexpiring_entry`).
-/

namespace BonsaiDb.KeyValue

/-- `ExpirationLoader::execute`: not yet scanned, or forwarding what its scan found. -/
inductive Loader where
  | queued
  | forwarding (pending : List ExpirationUpdate)

/-- The loader's scan (lines 771–802): an update for every stored entry with an expiration. -/
def loaderScan (t : Tree) : List ExpirationUpdate :=
  t.filterMap fun (k, e) => e.expiration.map fun d => ⟨k, some d⟩

/-- The key/value engine of one database. -/
structure KvSystem where
  tree : Tree
  updates : List ExpirationUpdate
  expirer : Expirer
  loader : Loader
  threads : List KvThread
  received : List ExpirationUpdate

/-- One atomic step of one component. -/
inductive KvEvent where
  /-- Key operation `i` takes its next step. -/
  | thread (i : Nat)
  /-- The expirer integrates the oldest waiting update. -/
  | receive
  /-- No update is waiting: the expirer samples `now` and starts a removal batch. -/
  | expire (now : Timestamp)
  /-- The removal batch deletes its next key, or ends. -/
  | remove
  /-- The loader scans the tree. -/
  | load
  /-- The loader forwards its next scanned update. -/
  | forward
  deriving DecidableEq, Repr

namespace KvSystem

/-- The engine when the database opens on `tree`, with the key operations `ops` about to run. -/
def start (tree : Tree) (ops : List (String × Command)) : KvSystem :=
  ⟨tree, [], Expirer.init, .queued, ops.map fun (k, c) => KvThread.start k c, []⟩

/-- One step, or `none` when the event is not enabled. -/
def step (s : KvSystem) : KvEvent → Option KvSystem
  | .thread i =>
    (s.threads.get? i).bind fun t =>
      (t.step s.tree).map fun (t', tree, sent) =>
        { s with tree, threads := s.threads.set i t', updates := s.updates ++ sent }
  | .receive =>
    match s.expirer.phase, s.updates with
    | .waiting, u :: rest =>
      some { s with expirer := s.expirer.receive u, updates := rest, received := s.received ++ [u] }
    | _, _ => none
  | .expire now =>
    match s.expirer.phase, s.updates, s.expirer.expirationOrder with
    | .waiting, [], _ :: _ => some { s with expirer := s.expirer.expire now }
    | _, _, _ => none
  | .remove =>
    match s.expirer.phase with
    | .removing now (k :: keys) =>
      some { s with tree := s.tree.set k none, expirer := { s.expirer with phase := .removing now keys } }
    | .removing _ [] => some { s with expirer := { s.expirer with phase := .waiting } }
    | _ => none
  | .load =>
    match s.loader with
    | .queued => some { s with loader := .forwarding (loaderScan s.tree) }
    | _ => none
  | .forward =>
    match s.loader with
    | .forwarding (u :: rest) => some { s with loader := .forwarding rest, updates := s.updates ++ [u] }
    | _ => none

/-- The events of `es`, one after another. -/
def run (s : KvSystem) : List KvEvent → Option KvSystem
  | [] => some s
  | e :: es => (s.step e).bind (·.run es)

end KvSystem

/-- The states the engine reaches from a database open by any interleaving. -/
inductive Reachable : KvSystem → Prop where
  | start (tree : Tree) (ops : List (String × Command)) : Reachable (KvSystem.start tree ops)
  | step {s s' : KvSystem} (e : KvEvent) : Reachable s → s.step e = some s' → Reachable s'

theorem Reachable.run {s s' : KvSystem} (hs : Reachable s) (es : List KvEvent)
    (h : s.run es = some s') : Reachable s' := by
  induction es generalizing s with
  | nil => cases h; exact hs
  | cons e es ih =>
    obtain ⟨s₁, h₁, h₂⟩ := Option.bind_eq_some.mp h
    exact ih (hs.step e h₁) h₂

/-- A step of key operation `i`: the thread's next control point, the tree it leaves and the
updates it sends. -/
theorem KvSystem.step_thread {s s' : KvSystem} {i : Nat} (h : s.step (.thread i) = some s') :
    ∃ t pc tree sent, s.threads[i]? = some t ∧
      t.pc.step t.key s.tree = some (pc, tree, sent) ∧
      s' = { s with tree, threads := s.threads.set i ⟨t.key, pc⟩,
                    updates := s.updates ++ sent } := by
  simp only [KvSystem.step, List.get?_eq_getElem?] at h
  obtain ⟨t, ht, h⟩ := Option.bind_eq_some.mp h
  obtain ⟨⟨t', tree, sent⟩, hs, rfl⟩ := Option.map_eq_some'.mp h
  obtain ⟨⟨pc, tree, sent⟩, hpc, heq⟩ := Option.map_eq_some'.mp hs
  cases heq
  exact ⟨t, pc, tree, sent, ht, hpc, rfl⟩

/-! ## What the expirer deletes -/

namespace Expirer

theorem receive_cases (e : Expirer) (u : ExpirationUpdate) :
    (e.receive u).phase = .panicked ∨
      (e.receive u).phase = .waiting ∧
        (e.receive u).trackedKeys = Function.update e.trackedKeys u.treeKey u.expiration := by
  unfold receive
  split
  · split
    · exact .inr ⟨rfl, integrate_trackedKeys ‹_›⟩
    · exact .inl rfl
  · exact .inl rfl

theorem expire_cases (e : Expirer) (now : Timestamp) :
    (e.expire now).phase = .panicked ∨ ∃ keys, (e.expire now).phase = .removing now keys ∧
      collectExpired now e.trackedKeys e.expirationOrder =
        some (keys, (e.expire now).trackedKeys, (e.expire now).expirationOrder) := by
  unfold expire
  split
  · split
    · exact .inr ⟨_, rfl, ‹_›⟩
    · exact .inl rfl
  · exact .inl rfl

/-- Integrating an update leaves the deadline of every other key alone, and the loop back at
its top or panicked. -/
theorem receive_of_ne (e : Expirer) {u : ExpirationUpdate} {k : String} (hk : u.treeKey ≠ k) :
    (e.receive u).trackedKeys k = e.trackedKeys k ∧
      ((e.receive u).phase = .waiting ∨ (e.receive u).phase = .panicked) := by
  unfold receive
  split
  · split
    · rename_i hint
      exact ⟨by simp only [integrate_trackedKeys hint, Function.update_noteq (Ne.symm hk)],
        .inl rfl⟩
    · exact ⟨rfl, .inr rfl⟩
  · exact ⟨rfl, .inr rfl⟩

/-- A key without a deadline stays without one through a removal batch, which never takes it. -/
theorem expire_of_untracked (e : Expirer) (now : Timestamp) {k : String}
    (hk : e.trackedKeys k = none) :
    (e.expire now).trackedKeys k = none ∧
      ∀ now' keys, (e.expire now).phase = .removing now' keys → k ∉ keys := by
  unfold expire
  split
  · split
    · obtain ⟨hdue, hkeep⟩ := collectExpired_due ‹collectExpired _ _ _ = some _›
      refine ⟨Option.eq_none_iff_forall_not_mem.mpr fun d hd => ?_, fun _ _ h hmem => ?_⟩
      · exact absurd (hkeep k d hd) (by simp [hk])
      · cases h
        obtain ⟨d, hd, -⟩ := hdue k hmem
        simp [hk] at hd
    · exact ⟨hk, fun _ _ h => by cases h⟩
  · exact ⟨hk, fun _ _ h => by cases h⟩

end Expirer

/-- The loader's scan sends an update only for a binding of the tree that has an expiration. -/
theorem mem_loaderScan {t : Tree} {u : ExpirationUpdate} (h : u ∈ loaderScan t) :
    ∃ e, (u.treeKey, e) ∈ t ∧ e.expiration ≠ none := by
  obtain ⟨⟨k, e⟩, hmem, hu⟩ := List.mem_filterMap.mp h
  obtain ⟨d, hd, rfl⟩ := Option.map_eq_some'.mp hu
  exact ⟨e, hmem, by simp [hd]⟩

/-- Two `set`s on `"k"`: the first with deadline 5, the second with no expiration. -/
def expiringSets : List (String × Command) :=
  [("k", .set (.bytes [1]) (some 5) false none false),
   ("k", .set (.bytes [2]) none false none false)]

/-- The first `set` commits and its update is integrated; the second commits, and before it
sends its update the expirer samples the time 10. -/
def expiringSetsSchedule : List KvEvent :=
  [.thread 0, .thread 0, .thread 0, .receive, .thread 1, .thread 1, .expire 10]

/-- The state `expiringSetsSchedule` reaches. -/
def expiringSetsRace : KvSystem :=
  ((KvSystem.start [] expiringSets).run expiringSetsSchedule).getD (KvSystem.start [] [])

theorem expiringSetsRace_reachable : Reachable expiringSetsRace :=
  (Reachable.start [] expiringSets).run expiringSetsSchedule rfl

/-- The expirer can delete an entry whose latest write set no expiration: in
`expiringSetsRace` the batch sampled at 10 takes `"k"`, whose stored entry has none. -/
theorem expiration_task_can_remove_unexpiring_entry :
    ¬ ∀ s : KvSystem, Reachable s → ∀ now k keys e,
      s.expirer.phase = .removing now (k :: keys) → s.tree.get k = some e →
        ∃ d, e.expiration = some d ∧ d ≤ now := by
  intro h
  obtain ⟨d, hd, -⟩ := h expiringSetsRace expiringSetsRace_reachable 10 "k" [] _ rfl rfl
  cases hd

/-! ## Two `set`s racing on one key -/

/-- The entry stored under `key`, and what each operation returned. -/
def KvSystem.outcome (s : KvSystem) (key : String) :
    Option Entry × List (Option (Except Error Output)) :=
  (s.tree.get key, s.threads.map KvThread.result)

/-- A `set` with `OnlyIfVacant` and a `set` with no check, on a vacant key. -/
def vacantSets : List (String × Command) :=
  [("k", .set (.bytes [1]) none false (some .onlyIfVacant) false),
   ("k", .set (.bytes [2]) none false none false)]

/-- The first `set` runs its closure on the vacant key, the second then runs to completion, and
the first retries: it loses its swap, finds the key present, stores it back unchanged, and still
reports `Inserted`. Each serial order reports something else for one of them. -/
theorem vacantSets_race_reports_two_inserts :
    ((KvSystem.start [] vacantSets).run [.thread 0, .thread 1, .thread 1, .thread 1, .thread 0,
        .thread 0, .thread 0]).map (·.outcome "k") =
      some (some ⟨.bytes [2], none⟩, [some (.ok (.status .inserted)), some (.ok (.status .inserted))]) ∧
    ((KvSystem.start [] vacantSets).run [.thread 0, .thread 0, .thread 0, .thread 1, .thread 1,
        .thread 1]).map (·.outcome "k") =
      some (some ⟨.bytes [2], none⟩, [some (.ok (.status .inserted)), some (.ok (.status .updated))]) ∧
    ((KvSystem.start [] vacantSets).run [.thread 1, .thread 1, .thread 1, .thread 0,
        .thread 0]).map (·.outcome "k") =
      some (some ⟨.bytes [2], none⟩, [some (.ok (.status .notChanged)), some (.ok (.status .inserted))]) :=
  ⟨rfl, rfl, rfl⟩

end BonsaiDb.KeyValue
