import BonsaiDb.KeyValue.Linearizable
import Mathlib.Data.BitVec

/-!
# Key/value — no lost update

Wrapping `increment` and `decrement` by integer amounts add a word to the stored word or
subtract one (`increment_wrapping`, `decrement_wrapping`), and these commute. Numeric operations
on one key are linearizable (`KeyValue.Linearizable`): the key holds its first number with the
returned operations applied in the order their swaps won. So over every interleaving of any
number of wrapping operations on one key with the expiration task, the `ExpirationLoader` and
operations on other keys, the stored word is the one the key started with plus the words of the
operations that have returned, whatever that order (`wrapping_updates_never_lost`): no update is
lost and none is counted twice.

* The key starts vacant or holding an integer with no expiration.
* `committed` adds the words of the returned operations in thread order; the order of the swaps
  lists the same operations once each (`returnedIndices`), so the two sums agree.
-/

namespace BonsaiDb.KeyValue

/-- A wrapping (`saturating` off) `increment` or `decrement` by an `Integer` or
`UnsignedInteger` amount. -/
structure Wrapping where
  decrements : Bool
  amount : Numeric
  integer : amount.isInteger = true

namespace Wrapping

variable (f : FloatOps) (w : Wrapping)

/-- `increment` or `decrement`. -/
def op : NumericOp := if w.decrements then decrement f else increment f

/-- The command of the `KeyOperation`, which `execute_key_operation` hands to
`execute_increment_operation` or `execute_decrement_operation`. -/
def command : Command := .numeric (w.op f) w.amount false

/-- What the operation adds to the stored word. -/
def delta : BitVec 64 := if w.decrements then -w.amount.bits else w.amount.bits

/-- The arguments `execute_numeric_operation` gets. -/
def call : NumericCall := ⟨w.op f, w.amount, false⟩

/-- On an integer, the operation adds `delta` to the word, and gives an integer. -/
theorem op_bits {x : Numeric} (hx : x.isInteger) :
    (w.op f x w.amount false).isInteger ∧ (w.op f x w.amount false).bits = x.bits + w.delta := by
  cases hd : w.decrements <;> simp only [op, delta, hd, if_true, if_false, Bool.false_eq_true]
  · exact increment_wrapping f hx w.integer
  · simpa [BitVec.sub_toAdd] using decrement_wrapping f hx w.integer

end Wrapping

/-- An entry a counter can hold: an integer, with no expiration. -/
def Entry.IsCounter (e : Entry) : Prop :=
  e.expiration = none ∧ ∃ n, e.value = .numeric n ∧ n.isInteger = true

theorem Entry.IsCounter.isNumber {e : Entry} (h : e.IsCounter) : e.IsNumber :=
  ⟨h.1, h.2.imp fun _ hn => hn.1⟩

/-- The word stored under `key`; `execute_numeric_operation` reads a vacant key as
`UnsignedInteger(0)`. -/
def storedWord (t : Tree) (key : String) : BitVec 64 :=
  match (numericEntry (t.get key)).value with
  | .numeric n => n.bits
  | .bytes _ => 0

theorem storedWord_eq_bits (t : Tree) (key : String) :
    storedWord t key = (storedNumber t key).bits := by
  unfold storedWord storedNumber
  cases (numericEntry (t.get key)).value <;> rfl

/-- A key that holds a counter or nothing holds an integer. -/
theorem isInteger_storedNumber {t : Tree} {key : String}
    (ht : ∀ e, (key, e) ∈ t → e.IsCounter) :
    (storedNumber t key).isInteger := by
  unfold storedNumber numericEntry
  cases h : t.get key with
  | none => rfl
  | some e =>
    obtain ⟨-, n, hn, hint⟩ := ht e (Map.mem_of_get_eq_some h)
    simp [hn, hint]

/-- The key operations of `ops`, all on `key`. -/
def counterOps (f : FloatOps) (key : String) (ops : List Wrapping) : List (String × Command) :=
  ops.map fun w => (key, w.command f)

theorem counterOps_eq (f : FloatOps) (key : String) (ops : List Wrapping) :
    counterOps f key ops = numericOps key (ops.map (·.call f)) := by
  simp only [counterOps, numericOps, List.map_map]
  rfl

/-! ## The words of the returned operations -/

/-- The words of the operations of `ops` whose threads (the first of `threads`) have
returned. -/
def committed : List Wrapping → List KvThread → BitVec 64
  | w :: ws, t :: ts => (if t.result.isSome then w.delta else 0) + committed ws ts
  | _, _ => 0

/-- Once every operation of `ops` has returned, `committed` is the sum of their words. -/
theorem committed_of_returned : ∀ (ops : List Wrapping) (threads : List KvThread),
    (∀ i, i < ops.length → ∃ t, threads[i]? = some t ∧ t.result.isSome) →
    committed ops threads = (ops.map (·.delta)).sum
  | [], _, _ => by simp [committed]
  | _ :: ws, threads, h => by
    obtain ⟨t, ht, hdone⟩ := h 0 (by simp)
    cases threads with
    | nil => simp at ht
    | cons t₀ ts =>
      simp only [List.getElem?_cons_zero, Option.some.injEq] at ht
      subst ht
      rw [committed, if_pos hdone, committed_of_returned ws ts fun i hi => by
        simpa using h (i + 1) (by simp [hi])]
      simp

/-- The word of operation `i`, `0` past the end. -/
def deltaAt (ops : List Wrapping) (i : Nat) : BitVec 64 :=
  ((ops[i]?).map (·.delta)).getD 0

@[simp] theorem deltaAt_cons_zero (w : Wrapping) (ws : List Wrapping) :
    deltaAt (w :: ws) 0 = w.delta := by simp [deltaAt]

@[simp] theorem deltaAt_cons_succ (w : Wrapping) (ws : List Wrapping) (i : Nat) :
    deltaAt (w :: ws) (i + 1) = deltaAt ws i := by simp [deltaAt]

/-- The indices of the operations of `ops` whose threads have returned, in thread order. -/
def returnedIndices : List Wrapping → List KvThread → List Nat
  | _ :: ws, t :: ts => (if t.result.isSome then [0] else []) ++ (returnedIndices ws ts).map (· + 1)
  | _, _ => []

theorem committed_eq_returnedIndices : ∀ (ops : List Wrapping) (threads : List KvThread),
    committed ops threads = ((returnedIndices ops threads).map (deltaAt ops)).sum
  | [], _ => by simp [committed, returnedIndices]
  | _ :: _, [] => by simp [committed, returnedIndices]
  | w :: ws, t :: ts => by
    rw [committed, returnedIndices, committed_eq_returnedIndices ws ts]
    split_ifs <;> simp [Function.comp_def]

theorem mem_returnedIndices : ∀ (ops : List Wrapping) (threads : List KvThread) (i : Nat),
    i ∈ returnedIndices ops threads ↔
      i < ops.length ∧ ∃ t, threads[i]? = some t ∧ t.result.isSome
  | [], _, _ => by simp [returnedIndices]
  | _ :: _, [], _ => by simp [returnedIndices]
  | w :: ws, t :: ts, 0 => by rw [returnedIndices]; split_ifs <;> simp [*]
  | w :: ws, t :: ts, i + 1 => by simp [returnedIndices, mem_returnedIndices ws ts i]

theorem nodup_returnedIndices : ∀ (ops : List Wrapping) (threads : List KvThread),
    (returnedIndices ops threads).Nodup
  | [], _ => by simp [returnedIndices]
  | _ :: _, [] => by simp [returnedIndices]
  | w :: ws, t :: ts => by
    rw [returnedIndices]
    refine List.nodup_append.mpr ⟨by split_ifs <;> simp,
      (nodup_returnedIndices ws ts).map fun _ _ => Nat.succ.inj, ?_⟩
    split_ifs <;> simp

/-- Wrapping operations applied to an integer in any order add their words to it. -/
theorem applyInOrder_wrapping (f : FloatOps) (ops : List Wrapping) :
    ∀ (order : List Nat) {x : Numeric}, x.isInteger →
      (applyInOrder (ops.map (·.call f)) x order).isInteger ∧
        (applyInOrder (ops.map (·.call f)) x order).bits = x.bits + (order.map (deltaAt ops)).sum
  | [], _, hx => ⟨hx, by simp [applyInOrder]⟩
  | i :: order, x, hx => by
    obtain ⟨hy, hbits⟩ : (((ops.map (·.call f))[i]?.map (·.apply x)).getD x).isInteger ∧
        (((ops.map (·.call f))[i]?.map (·.apply x)).getD x).bits = x.bits + deltaAt ops i := by
      cases hw : ops[i]? with
      | none => simp [hw, deltaAt, hx]
      | some w => simpa [hw, deltaAt, NumericCall.apply, Wrapping.call] using w.op_bits f hx
    obtain ⟨hint, hsum⟩ := applyInOrder_wrapping f ops order hy
    refine ⟨hint, ?_⟩
    rw [applyInOrder_cons, hsum, hbits, List.map_cons, List.sum_cons, add_assoc]

/-- No update of a wrapping `increment` or `decrement` is lost: in every interleaving of such
operations on one key (threads `0` to `ops.length - 1`) with operations on other keys, the
expiration task and the `ExpirationLoader`, the word stored under the key is the word it started
with plus the words of the operations that have returned; once all have returned, plus the words
of all of them. The key starts vacant or holding an integer with no expiration. -/
theorem wrapping_updates_never_lost (f : FloatOps) {key : String} (ops : List Wrapping)
    {others : List (String × Command)} {t : Tree} (hothers : ∀ p ∈ others, p.1 ≠ key)
    (ht : ∀ e, (key, e) ∈ t → e.IsCounter) {es : List KvEvent} {s : KvSystem}
    (hrun : (KvSystem.start t (counterOps f key ops ++ others)).run es = some s) :
    storedWord s.tree key = storedWord t key + committed ops s.threads ∧
      ((∀ i, i < ops.length → ∃ th, s.threads[i]? = some th ∧ th.result.isSome) →
        storedWord s.tree key = storedWord t key + (ops.map (·.delta)).sum) := by
  have hrun' := (counterOps_eq f key ops) ▸ hrun
  obtain ⟨order, hlin⟩ := ((NumericSound.start key (ops.map (·.call f)) hothers
    fun e he => (ht e he).isNumber).run hrun').linearized
  -- the swaps' order and the thread order list the same returned operations
  have hsum : committed ops s.threads = (order.map (deltaAt ops)).sum := by
    rw [committed_eq_returnedIndices]
    refine (((List.perm_ext_iff_of_nodup (nodup_returnedIndices _ _) hlin.nodup).mpr
      fun i => ?_).map _).sum_eq
    rw [mem_returnedIndices, hlin.returned, List.length_map]
  have hword : storedWord s.tree key = storedWord t key + committed ops s.threads := by
    rw [storedWord_eq_bits, storedWord_eq_bits, hlin.stored, hsum]
    exact (applyInOrder_wrapping f ops order (isInteger_storedNumber ht)).2
  exact ⟨hword, fun hdone => by rw [hword, committed_of_returned ops s.threads hdone]⟩

/-- Two wrapping increments by `UnsignedInteger(1)` of a vacant key, where the first reads the
key, the second reads it, swaps and returns, and the first loses its swap, reads again and wins:
both are counted. -/
def incrementByOne : Wrapping := ⟨false, .unsignedInteger 1, rfl⟩

theorem racingIncrements_both_counted :
    ∃ s, (KvSystem.start [] (counterOps default "k" [incrementByOne, incrementByOne] ++ [])).run
        [.thread 0, .thread 1, .thread 1, .thread 0, .thread 0] = some s ∧
      storedWord s.tree "k" = 2 := by
  refine ⟨_, rfl, ?_⟩
  refine ((@wrapping_updates_never_lost default "k" [incrementByOne, incrementByOne] [] []
    (by simp) (by simp) [.thread 0, .thread 1, .thread 1, .thread 0, .thread 0] _ rfl).2
    fun i hi => ?_).trans (by decide)
  rcases i with _ | _ | i
  exacts [⟨_, rfl, rfl⟩, ⟨_, rfl, rfl⟩, absurd hi (by simp)]

end BonsaiDb.KeyValue
