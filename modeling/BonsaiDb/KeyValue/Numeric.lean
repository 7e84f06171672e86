import BonsaiDb.KeyValue.Operations
import Mathlib.Algebra.Group.Int

/-!
# Key/value — `increment` and `decrement`

`increment` and `decrement` (`keyvalue.rs` 330–384), the arithmetic `execute_numeric_operation`
applies to a stored number, over `Numeric`'s 64-bit words. Both convert the stored number to the
amount's variant with `Numeric::as_i64_lossy`, `as_u64_lossy` or `as_f64_lossy`, then add or
subtract the amount, saturating or wrapping.

* The two differ only in the operation, so both are `applyAmount`, with `+` or with `-`.
* `f64` arithmetic is not modelled: `FloatOps` holds the `f64` operations they use.
* On the integer variants, saturating arithmetic gives the exact sum or difference clamped to the
  amount's range, from the stored number clamped to that range first
  (`applyAmount_saturating`).
-/

namespace BonsaiDb

/-- The `f64` operations `increment` and `decrement` use, which are not modelled: `+`, `-`,
`Numeric::as_f64_lossy`, and the `as` casts of an `f64` to `i64` and to `u64`. -/
structure FloatOps where
  add : BitVec 64 → BitVec 64 → BitVec 64
  sub : BitVec 64 → BitVec 64 → BitVec 64
  asF64Lossy : Numeric → BitVec 64
  toI64 : BitVec 64 → BitVec 64
  toU64 : BitVec 64 → BitVec 64
  deriving Inhabited

/-- `z` clamped to the range of `i64` (`signed`) or of `u64`. -/
def clampWord (signed : Bool) (z : Int) : Int :=
  if signed then max (-2^63) (min z (2^63 - 1)) else max 0 (min z (2^64 - 1))

/-- The `i64` (`signed`) or `u64` result of an operation whose exact result is `z`: clamped to
the range by its `saturating_` form, taken modulo `2^64` by its `wrapping_` form. -/
def fitWord (signed saturating : Bool) (z : Int) : BitVec 64 :=
  BitVec.ofInt 64 (if saturating then clampWord signed z else z)

/-- Modelled from the spec, which widens the stored number to the amount's variant:
`Numeric::as_i64_lossy` of `bonsaidb_core`, not under `src/`. An `UnsignedInteger` above
`i64::MAX` becomes `i64::MAX` when saturating (`i64::try_from(value).unwrap_or(i64::MAX)`), and
keeps its bits otherwise (`value as i64`). -/
def Numeric.asI64Lossy (f : FloatOps) (n : Numeric) (saturating : Bool) : BitVec 64 :=
  match n with
  | .integer value => value
  | .unsignedInteger value =>
    if saturating then (if value.toNat < 2^63 then value else BitVec.ofInt 64 (2^63 - 1))
    else value
  | .float value => f.toI64 value

/-- Modelled from the spec, likewise: `Numeric::as_u64_lossy`. A negative `Integer` becomes `0`
when saturating (`u64::try_from(value).unwrap_or(0)`), and keeps its bits otherwise. -/
def Numeric.asU64Lossy (f : FloatOps) (n : Numeric) (saturating : Bool) : BitVec 64 :=
  match n with
  | .unsignedInteger value => value
  | .integer value => if saturating then (if 0 ≤ value.toInt then value else 0) else value
  | .float value => f.toU64 value

/-- The integer an `Integer` or an `UnsignedInteger` stands for; a `Float` has none here. -/
def Numeric.toInt? : Numeric → Option Int
  | .integer value => some value.toInt
  | .unsignedInteger value => some value.toNat
  | .float _ => none

/-- Clamping to the range of a numeric variant; a `Float` has no range here. -/
def Numeric.clamp : Numeric → Int → Int
  | .integer _ => clampWord true
  | .unsignedInteger _ => clampWord false
  | .float _ => id

/-- The word a number is stored as: an integer's 64 bits, or a float's IEEE-754 bits. -/
def Numeric.bits : Numeric → BitVec 64
  | .integer value | .unsignedInteger value | .float value => value

/-- Whether a number is an `Integer` or an `UnsignedInteger`. -/
def Numeric.isInteger : Numeric → Bool
  | .float _ => false
  | _ => true

/-! ### Words as integers -/

theorem toInt_ofInt_of_range {z : Int} (hlo : -2^63 ≤ z) (hhi : z < 2^63) :
    (BitVec.ofInt 64 z).toInt = z := by
  rw [BitVec.toInt_ofInt, Int.bmod_def]
  simp only [Nat.reducePow]
  split <;> omega

theorem toNat_ofInt_of_range {z : Int} (hlo : 0 ≤ z) (hhi : z < 2^64) :
    ((BitVec.ofInt 64 z).toNat : Int) = z := by
  rw [BitVec.toNat_ofInt]
  simp only [Nat.reducePow]
  omega

theorem toInt_range (x : BitVec 64) : -2^63 ≤ x.toInt ∧ x.toInt < 2^63 := by
  have := x.isLt
  rw [BitVec.toInt_eq_toNat_cond]
  simp only [Nat.reducePow] at *
  split <;> omega

theorem clampWord_of_range {signed : Bool} {z : Int}
    (h : if signed then -2^63 ≤ z ∧ z < 2^63 else 0 ≤ z ∧ z < 2^64) :
    clampWord signed z = z := by
  cases signed <;> simp only [clampWord, if_true, if_false, Bool.false_eq_true] at h ⊢ <;> omega

theorem clampWord_mono (signed : Bool) {z z' : Int} (h : z ≤ z') :
    clampWord signed z ≤ clampWord signed z' := by
  cases signed <;> simp only [clampWord, if_true, if_false, Bool.false_eq_true] <;> omega

theorem Numeric.clamp_mono (a : Numeric) {z z' : Int} (h : z ≤ z') : a.clamp z ≤ a.clamp z' := by
  cases a
  · exact clampWord_mono true h
  · exact clampWord_mono false h
  · exact h

/-- A number lies within the range of its own variant. -/
theorem Numeric.clamp_toInt? {x : Numeric} {vx : Int} (h : x.toInt? = some vx) :
    x.clamp vx = vx := by
  cases x with
  | integer value =>
    cases h
    exact clampWord_of_range (if_pos rfl ▸ toInt_range value)
  | unsignedInteger value =>
    cases h
    have := value.isLt
    exact @clampWord_of_range false _ ⟨by omega, by simp only [Nat.reducePow] at *; omega⟩
  | float _ => cases h

theorem fitWord_saturating_true (z : Int) : (fitWord true true z).toInt = clampWord true z := by
  apply toInt_ofInt_of_range <;> simp only [clampWord, if_true] <;> omega

theorem fitWord_saturating_false (z : Int) :
    ((fitWord false true z).toNat : Int) = clampWord false z := by
  apply toNat_ofInt_of_range <;> simp only [clampWord, if_true, if_false, Bool.false_eq_true] <;>
    omega

/-- Saturating, `as_i64_lossy` clamps an integer to the range of `i64`. -/
theorem Numeric.asI64Lossy_saturating (f : FloatOps) {x : Numeric} {vx : Int}
    (h : x.toInt? = some vx) : (x.asI64Lossy f true).toInt = clampWord true vx := by
  cases x with
  | integer value =>
    cases h
    exact (clampWord_of_range (if_pos rfl ▸ toInt_range value)).symm
  | unsignedInteger value =>
    cases h
    simp only [Numeric.asI64Lossy, if_true]
    split
    · rw [BitVec.toInt_eq_toNat_cond, if_pos (by omega)]
      exact (@clampWord_of_range true _ ⟨by omega, by omega⟩).symm
    · rw [toInt_ofInt_of_range (by omega) (by omega)]
      simp only [clampWord, if_true]
      omega
  | float _ => cases h

/-- Saturating, `as_u64_lossy` clamps an integer to the range of `u64`. -/
theorem Numeric.asU64Lossy_saturating (f : FloatOps) {x : Numeric} {vx : Int}
    (h : x.toInt? = some vx) : ((x.asU64Lossy f true).toNat : Int) = clampWord false vx := by
  cases x with
  | integer value =>
    cases h
    have hrange := toInt_range value
    simp only [Numeric.asU64Lossy, if_true]
    split
    · have hnat : value.toInt = value.toNat := by
        rw [BitVec.toInt_eq_toNat_cond] at *
        split <;> omega
      rw [← hnat]
      exact (@clampWord_of_range false _ ⟨by omega, by omega⟩).symm
    · rw [show (0 : BitVec 64).toNat = 0 from rfl]
      simp only [clampWord, if_false, Bool.false_eq_true]
      omega
  | unsignedInteger value =>
    cases h
    exact (Numeric.clamp_toInt? (x := .unsignedInteger value) rfl).symm
  | float _ => cases h

/-! ### Wrapping arithmetic on the words -/

theorem ofInt_toInt_add (x y : BitVec 64) : BitVec.ofInt 64 (x.toInt + y.toInt) = x + y :=
  BitVec.eq_of_toInt_eq (by simp)

theorem ofInt_toInt_sub (x y : BitVec 64) : BitVec.ofInt 64 (x.toInt - y.toInt) = x - y :=
  BitVec.eq_of_toInt_eq (by simp)

theorem ofInt_toNat_add (x y : BitVec 64) :
    BitVec.ofInt 64 ((x.toNat : Int) + y.toNat) = x + y := by
  apply BitVec.eq_of_toNat_eq
  have := x.isLt; have := y.isLt
  simp only [BitVec.toNat_ofInt, BitVec.toNat_add]
  omega

theorem ofInt_toNat_sub (x y : BitVec 64) :
    BitVec.ofInt 64 ((x.toNat : Int) - y.toNat) = x - y := by
  apply BitVec.eq_of_toNat_eq
  have := x.isLt; have := y.isLt
  simp only [BitVec.toNat_ofInt, BitVec.toNat_sub]
  omega

/-- Wrapping, `as_i64_lossy` and `as_u64_lossy` keep an integer's bits. -/
theorem Numeric.asLossy_wrapping (f : FloatOps) {x : Numeric} (hx : x.isInteger) :
    x.asI64Lossy f false = x.bits ∧ x.asU64Lossy f false = x.bits := by
  cases x <;> simp_all [Numeric.asI64Lossy, Numeric.asU64Lossy, Numeric.bits, Numeric.isInteger]

namespace KeyValue

/-- `increment` and `decrement` (`keyvalue.rs` 330–384): `op` is the exact operation on integers
(`+` or `-`), whose `saturating_` or `wrapping_` form is taken, and `floatOp` its `f64` form. -/
def applyAmount (f : FloatOps) (op : Int → Int → Int)
    (floatOp : BitVec 64 → BitVec 64 → BitVec 64) (existing amount : Numeric)
    (saturating : Bool) : Numeric :=
  match amount with
  | .integer amount =>
    .integer (fitWord true saturating (op (existing.asI64Lossy f saturating).toInt amount.toInt))
  | .unsignedInteger amount =>
    .unsignedInteger
      (fitWord false saturating (op (existing.asU64Lossy f saturating).toNat amount.toNat))
  | .float amount => .float (floatOp (f.asF64Lossy existing) amount)

/-- `increment`. -/
def increment (f : FloatOps) : NumericOp := applyAmount f (· + ·) f.add

/-- `decrement`. -/
def decrement (f : FloatOps) : NumericOp := applyAmount f (· - ·) f.sub

/-- Saturating arithmetic on the integer variants: the exact result of `op` on the stored number
clamped to the amount's range and on the amount, clamped to that range again. -/
theorem applyAmount_saturating (f : FloatOps) (op : Int → Int → Int)
    (floatOp : BitVec 64 → BitVec 64 → BitVec 64) {x a : Numeric} {vx va : Int}
    (hx : x.toInt? = some vx) (ha : a.toInt? = some va) :
    (applyAmount f op floatOp x a true).toInt? = some (a.clamp (op (a.clamp vx) va)) := by
  cases a with
  | integer amount =>
    cases ha
    simp only [applyAmount, Numeric.toInt?, Numeric.clamp, fitWord_saturating_true,
      Numeric.asI64Lossy_saturating f hx]
  | unsignedInteger amount =>
    cases ha
    simp only [applyAmount, Numeric.toInt?, Numeric.clamp, fitWord_saturating_false,
      Numeric.asU64Lossy_saturating f hx]
  | float _ => cases ha

/-- Wrapping arithmetic on the integer variants works on the words: whatever the two variants,
the result's word is the word operation `wordOp` of the stored number's and the amount's, when
`op` taken modulo `2^64` is `wordOp` both on the words read as `i64` and read as `u64`. -/
theorem applyAmount_wrapping (f : FloatOps) (op : Int → Int → Int)
    (floatOp wordOp : BitVec 64 → BitVec 64 → BitVec 64)
    (hop : ∀ x y : BitVec 64, BitVec.ofInt 64 (op x.toInt y.toInt) = wordOp x y ∧
      BitVec.ofInt 64 (op x.toNat y.toNat) = wordOp x y)
    {x a : Numeric} (hx : x.isInteger) (ha : a.isInteger) :
    (applyAmount f op floatOp x a false).isInteger ∧
      (applyAmount f op floatOp x a false).bits = wordOp x.bits a.bits := by
  obtain ⟨hi, hu⟩ := Numeric.asLossy_wrapping f hx
  cases a with
  | integer amount => exact ⟨rfl, by simp [applyAmount, fitWord, hi, Numeric.bits, (hop _ _).1]⟩
  | unsignedInteger amount =>
    exact ⟨rfl, by simp [applyAmount, fitWord, hu, Numeric.bits, (hop _ _).2]⟩
  | float _ => cases ha

/-- Wrapping `increment` adds the amount's word to the stored number's, whatever their integer
variants. -/
theorem increment_wrapping (f : FloatOps) {x a : Numeric} (hx : x.isInteger) (ha : a.isInteger) :
    (increment f x a false).isInteger ∧ (increment f x a false).bits = x.bits + a.bits :=
  applyAmount_wrapping f _ _ _ (fun x y => ⟨ofInt_toInt_add x y, ofInt_toNat_add x y⟩) hx ha

/-- Wrapping `decrement` subtracts the amount's word from the stored number's. -/
theorem decrement_wrapping (f : FloatOps) {x a : Numeric} (hx : x.isInteger) (ha : a.isInteger) :
    (decrement f x a false).isInteger ∧ (decrement f x a false).bits = x.bits - a.bits :=
  applyAmount_wrapping f _ _ _ (fun x y => ⟨ofInt_toInt_sub x y, ofInt_toNat_sub x y⟩) hx ha

/-- A numeric attempt whose swap succeeds on a stored number stores `op` of it, keeping the
entry's expiration, and returns the new value. -/
theorem Pc.step_numericSwap_won {key : String} {tree : Tree} {op : NumericOp} {amount : Numeric}
    {saturating : Bool} {current : Option Entry} {n : Numeric}
    (hn : (numericEntry current).value = .numeric n) (h : tree.get key = current) :
    (Pc.numericSwap op amount saturating current).step key tree =
      some (.done (.ok (.value (some (.numeric (op n amount saturating))))),
        tree.set key
          (some { numericEntry current with value := .numeric (op n amount saturating) }),
        []) := by
  simp only [Pc.step, hn, Tree.compareAndSwap, if_pos h]

/-- Saturating `increment` and `decrement` of the integer variants: the stored number is clamped
to the amount's range, the amount added or subtracted exactly, and the result clamped again.
When the stored number lies within the amount's range (always when both have the same variant,
`Numeric.clamp_toInt?`), the result is the exact sum or difference clamped, and a nonnegative
amount never moves the number the wrong way. -/
theorem saturating_amount_clamps (f : FloatOps) {x a : Numeric} {vx va : Int}
    (hx : x.toInt? = some vx) (ha : a.toInt? = some va) :
    (increment f x a true).toInt? = some (a.clamp (a.clamp vx + va)) ∧
    (decrement f x a true).toInt? = some (a.clamp (a.clamp vx - va)) ∧
    (a.clamp vx = vx → 0 ≤ va → a.clamp (vx - va) ≤ vx ∧ vx ≤ a.clamp (vx + va)) := by
  refine ⟨applyAmount_saturating f _ _ hx ha, applyAmount_saturating f _ _ hx ha,
    fun hin hpos => ⟨?_, ?_⟩⟩
  · calc a.clamp (vx - va) ≤ a.clamp vx := a.clamp_mono (by omega)
      _ = vx := hin
  · calc vx = a.clamp vx := hin.symm
      _ ≤ a.clamp (vx + va) := a.clamp_mono (by omega)

theorem five_plus_three_clamped :
    (Numeric.integer 5).toInt? = some 5 ∧ (Numeric.integer 3).toInt? = some 3 ∧
      (increment default (.integer 5) (.integer 3) true).toInt? = some 8 ∧
      (decrement default (.integer 5) (.integer 3) true).toInt? = some 2 :=
  have h5 : (Numeric.integer 5).toInt? = some 5 := rfl
  have h3 : (Numeric.integer 3).toInt? = some 3 := rfl
  ⟨h5, h3, (saturating_amount_clamps default h5 h3).1.trans (by decide),
    (saturating_amount_clamps default h5 h3).2.1.trans (by decide)⟩

/-- A saturating `increment` can make the stored number smaller: `UnsignedInteger(2^63)` by
`Integer(0)` is first clamped to `i64::MAX`, and `Integer(0)` by `Integer(-1)` adds a negative
amount. -/
theorem saturating_increment_can_decrease :
    (increment default (.unsignedInteger (BitVec.ofNat 64 (2^63))) (.integer 0) true).toInt? =
      some (2^63 - 1) ∧
    (increment default (.integer 0) (.integer (-1)) true).toInt? = some (-1) :=
  have hbig : (Numeric.unsignedInteger (BitVec.ofNat 64 (2^63))).toInt? = some (2^63) := rfl
  have hzero : (Numeric.integer 0).toInt? = some 0 := rfl
  have hminus : (Numeric.integer (-1)).toInt? = some (-1) := rfl
  ⟨(applyAmount_saturating default _ _ hbig hzero).trans (by decide),
    (applyAmount_saturating default _ _ hzero hminus).trans (by decide)⟩

end KeyValue

end BonsaiDb
