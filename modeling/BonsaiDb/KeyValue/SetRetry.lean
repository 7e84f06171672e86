import BonsaiDb.KeyValue.System
import Mathlib.Logic.Relation

/-!
# Key/value — retries of `execute_set_operation`

`fetch_and_update_no_copy` (`keyvalue.rs` 386–409) runs the closure of `execute_set_operation`
once per attempt, and an attempt whose `compare_and_swap` loses is retried on the value the swap
found. The variables the closure captures (`entry`, `inserted`, `updated`) are not reset between
attempts.

* The machine of `Operations` runs that loop: an attempt whose swap loses goes back to the swap
  with the captured variables as it left them and the value the swap found (`Pc.Attempt`).
* Lost attempts leave in the captured variables only the value and, with
  `keep_existing_expiration`, an expiration (`SetLocals.Fresh`). So an attempt that passes the
  check, with `keep_existing_expiration` off or the key present, takes the same step as the
  set's first attempt would on the same value (`set_retry_matches_fresh_attempt`).
* The races at the end are the two ways in which lost attempts do change something.
-/

namespace BonsaiDb.KeyValue

/-- One step of an operation on `key`, against whatever tree other writers left. -/
def Pc.Attempt (key : String) (pc pc' : Pc) : Prop :=
  ∃ tree tree' sent, pc.step key tree = some (pc', tree', sent)

/-- An attempt whose swap loses retries on what the swap found, with the captured variables as
the attempt left them. -/
theorem Pc.step_setSwap_lost {key : String} {tree : Tree} {a : SetArgs} {l : SetLocals}
    {current : Option Entry} (h : tree.get key ≠ current) :
    (Pc.setSwap a l current).step key tree =
      some (.setSwap a (setUpdate a l current).1 (tree.get key), tree, []) := by
  simp only [Pc.step, Tree.compareAndSwap, if_neg h]

/-- An attempt whose swap succeeds stores what the closure gave it and goes on to notify, or
returns when the closure left `updated` unset. -/
theorem Pc.step_setSwap_won {key : String} {tree : Tree} {a : SetArgs} {l : SetLocals}
    {current : Option Entry} (h : tree.get key = current) :
    (Pc.setSwap a l current).step key tree =
      some (if (setUpdate a l current).1.updated then
          .notify (setUpdate a l current).1.entry.expiration
            (setOutput a (setUpdate a l current).1 current)
        else .done (.ok (setOutput a (setUpdate a l current).1 current)),
        tree.set key (setUpdate a l current).2, []) := by
  simp only [Pc.step, Tree.compareAndSwap, if_pos h]

/-- The captured variables carry nothing from a lost attempt but, with
`keep_existing_expiration`, the expiration of the entry it found. -/
def SetLocals.Fresh (a : SetArgs) (l : SetLocals) : Prop :=
  l.entry.value = a.value ∧ (a.keepExistingExpiration = false → l.entry.expiration = a.expiration)

theorem SetLocals.fresh_locals (a : SetArgs) : a.locals.Fresh a :=
  ⟨rfl, fun _ => rfl⟩

theorem SetLocals.Fresh.setUpdate {a : SetArgs} {l : SetLocals} (h : l.Fresh a)
    (existing : Option Entry) : (KeyValue.setUpdate a l existing).1.Fresh a := by
  unfold KeyValue.setUpdate
  split
  · rcases existing with _ | previous
    · exact h
    · by_cases hkeep : a.keepExistingExpiration
      · simpa [SetLocals.Fresh, hkeep] using h.1
      · simpa [hkeep] using h
  · exact h

/-- An attempt that passes the check, with `keep_existing_expiration` off or the key present,
does the same from any fresh captured variables as from the initial ones. -/
theorem SetLocals.Fresh.setUpdate_of_pass {a : SetArgs} {l : SetLocals} (h : l.Fresh a)
    {existing : Option Entry} (hpass : shouldUpdate a.check existing = true)
    (hkeep : a.keepExistingExpiration = false ∨ existing.isSome) :
    KeyValue.setUpdate a l existing = KeyValue.setUpdate a a.locals existing := by
  obtain ⟨⟨value, expiration⟩, inserted, updated⟩ := l
  obtain ⟨hvalue, hexpiration⟩ := h
  dsimp only at hvalue hexpiration
  subst hvalue
  rcases existing with _ | previous
  · have hk : a.keepExistingExpiration = false := by simpa using hkeep
    simp only [KeyValue.setUpdate, hpass, if_true, SetArgs.locals, hexpiration hk]
  · by_cases hk : a.keepExistingExpiration = true
    · simp only [KeyValue.setUpdate, hpass, hk, if_true, SetArgs.locals]
    · have hk : a.keepExistingExpiration = false := by simpa using hk
      simp only [KeyValue.setUpdate, hpass, hk, if_true, SetArgs.locals, hexpiration hk]

/-- Where a set's attempts can be: at a swap with captured variables that are fresh, or past its
winning swap. -/
def Pc.SetFresh (a : SetArgs) : Pc → Prop
  | .setSwap a' l _ => a' = a ∧ l.Fresh a
  | .notify .. | .done _ => True
  | _ => False

/-- A lost swap retries with fresh captured variables; a won one moves past the swaps. -/
theorem Pc.SetFresh.attempt {key : String} {a : SetArgs} {pc pc' : Pc} (h : pc.SetFresh a)
    (hstep : Pc.Attempt key pc pc') : pc'.SetFresh a := by
  obtain ⟨tree, tree', sent, hs⟩ := hstep
  cases pc with
  | setSwap a' l current =>
    obtain ⟨rfl, hl⟩ := h
    by_cases hwon : tree.get key = current
    · rw [Pc.step_setSwap_won hwon] at hs
      cases hs
      split <;> trivial
    · rw [Pc.step_setSwap_lost hwon] at hs
      cases hs
      exact ⟨rfl, hl.setUpdate current⟩
  | notify => cases hs; trivial
  | done => cases hs
  | _ => exact h.elim

theorem Pc.SetFresh.reach {key : String} {a : SetArgs} {pc pc' : Pc}
    (hrun : Relation.ReflTransGen (Pc.Attempt key) pc pc') (h : pc.SetFresh a) :
    pc'.SetFresh a := by
  induction hrun with
  | refl => exact h
  | tail _ hstep ih => exact ih.attempt hstep

/-- After any run of lost attempts, an attempt that passes the check, with
`keep_existing_expiration` off or the key present, takes on every tree the step the set's first
attempt would take on the same value: it stores, reports and sends the same. -/
theorem set_retry_matches_fresh_attempt {key : String} {a : SetArgs} {current v : Option Entry}
    {l : SetLocals}
    (hrun : Relation.ReflTransGen (Pc.Attempt key) (.setSwap a a.locals current) (.setSwap a l v))
    (hpass : shouldUpdate a.check v = true) (hkeep : a.keepExistingExpiration = false ∨ v.isSome)
    (tree : Tree) : (Pc.setSwap a l v).step key tree = (Pc.setSwap a a.locals v).step key tree := by
  have hfresh : l.Fresh a := (Pc.SetFresh.reach hrun ⟨rfl, SetLocals.fresh_locals a⟩).2
  simp only [Pc.step, hfresh.setUpdate_of_pass hpass hkeep]

/-- `set([1])` with no expiration and no check. -/
def plainSet : SetArgs :=
  ⟨.bytes [1], none, false, none, false⟩

/-- The set's first attempt reads the vacant key `k` and loses to an insert of `[2]`; its retry
on `[2]` stores, reports and sends what a first attempt on `[2]` would. -/
theorem lostInsert_retry_matches_fresh :
    Relation.ReflTransGen (Pc.Attempt "k") (.setSwap plainSet plainSet.locals none)
        (.setSwap plainSet (setUpdate plainSet plainSet.locals none).1 (some ⟨.bytes [2], none⟩)) ∧
      (Pc.setSwap plainSet (setUpdate plainSet plainSet.locals none).1
          (some ⟨.bytes [2], none⟩)).step "k" [("k", ⟨.bytes [2], none⟩)] =
        (Pc.setSwap plainSet plainSet.locals (some ⟨.bytes [2], none⟩)).step "k"
          [("k", ⟨.bytes [2], none⟩)] :=
  have hrun : Relation.ReflTransGen (Pc.Attempt "k") (.setSwap plainSet plainSet.locals none)
      (.setSwap plainSet (setUpdate plainSet plainSet.locals none).1 (some ⟨.bytes [2], none⟩)) :=
    .single ⟨[("k", ⟨.bytes [2], none⟩)], _, _, Pc.step_setSwap_lost (by decide)⟩
  ⟨hrun, set_retry_matches_fresh_attempt hrun rfl (.inl rfl) _⟩

/-- A set keeping the existing expiration, and a delete that empties the key between the set's
read and its swap. -/
def keepThenDelete : List (String × Command) :=
  [("k", .set (.bytes [1]) none true none false), ("k", .delete)]

/-- The captured variables outlive a lost swap, in two ways. The `onlyIfVacant` set of
`vacantSets`, whose first attempt ran on the vacant key and lost to an insert, stores the
present entry back and still reports `Inserted` and sends an expiration update, where a run
without conflicts from that present entry reports `NotChanged` and sends none. The set of
`keepThenDelete`, whose first attempt found expiration 5 and lost to the delete, stores its
value with expiration 5 and sends that, where a run from the vacant key stores it with none. -/
theorem set_retry_keeps_lost_attempt :
    ((KvSystem.start [] vacantSets).run [.thread 0, .thread 1, .thread 1, .thread 1, .thread 0,
        .thread 0, .thread 0]).map (fun s => (s.outcome "k", s.updates)) =
      some ((some ⟨.bytes [2], none⟩,
        [some (.ok (.status .inserted)), some (.ok (.status .inserted))]),
        [⟨"k", none⟩, ⟨"k", none⟩]) ∧
    ((KvSystem.start [("k", ⟨.bytes [2], none⟩)] (vacantSets.take 1)).run
        [.thread 0, .thread 0]).map (fun s => (s.outcome "k", s.updates)) =
      some ((some ⟨.bytes [2], none⟩, [some (.ok (.status .notChanged))]), []) ∧
    ((KvSystem.start [("k", ⟨.bytes [0], some 5⟩)] keepThenDelete).run [.thread 0, .thread 1,
        .thread 1, .thread 0, .thread 0, .thread 0]).map (fun s => (s.outcome "k", s.updates)) =
      some ((some ⟨.bytes [1], some 5⟩,
        [some (.ok (.status .inserted)), some (.ok (.status .deleted))]),
        [⟨"k", none⟩, ⟨"k", some 5⟩]) ∧
    ((KvSystem.start [] (keepThenDelete.take 1)).run [.thread 0, .thread 0, .thread 0]).map
        (fun s => (s.outcome "k", s.updates)) =
      some ((some ⟨.bytes [1], none⟩, [some (.ok (.status .inserted))]), [⟨"k", none⟩]) :=
  ⟨rfl, rfl, rfl, rfl⟩

end BonsaiDb.KeyValue
