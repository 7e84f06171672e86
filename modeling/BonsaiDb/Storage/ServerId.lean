import Mathlib.Algebra.Group.Int
import Mathlib.Data.List.Basic
import Mathlib.Data.Nat.Digits

/-!
# Storage — the persisted storage id

`Storage::lookup_or_create_id` (`storage.rs` 359–405), which `Storage::open` calls once per open:
a configured `unique_id` is used as given and is not written; otherwise the id is read from the
file `server-id` under the storage path, or, where there is no such file, drawn from `thread_rng`
and written there in ASCII decimal. A file that is not UTF-8 or not a `u64` panics.

The standard library's parts are modelled from their documented behaviour: `u64::to_string` is
`Nat.toDigits 10`, `String::from_utf8` is its validation (`utf8Valid`), and `str::parse::<u64>`
is `parseU64` on the string's bytes.

* What the storage writes, it reads back (`parseU64_decimalBytes`).
* Over any sequence of opens of one path, every open gets its configured override or one and the
  same id, and none panics (`storage_id_stable`): the override is not persisted, so dropping it
  gives back the id the file had.
-/

namespace BonsaiDb.Local

/-! ## The standard library's parts -/

/-- `u64::to_string(id).as_bytes()`: the ASCII decimal digits, most significant first. -/
def decimalBytes (n : Nat) : List UInt8 :=
  (Nat.toDigits 10 n).map fun c => c.toNat.toUInt8

/-- An ASCII digit, `b'0'..=b'9'`. -/
def isAsciiDigit (b : UInt8) : Bool :=
  48 ≤ b.toNat && b.toNat ≤ 57

/-- The value of a run of ASCII digits, most significant first. -/
def decimalValue (digits : List UInt8) : Nat :=
  digits.foldl (fun acc b => acc * 10 + (b.toNat - 48)) 0

/-- Modelled from Rust's standard library: `str::parse::<u64>`, that is
`u64::from_str_radix(src, 10)`, on the string's bytes: an optional `+` that is not the whole
string, then ASCII digits only, and a value at most `u64::MAX`. -/
def parseU64 (src : List UInt8) : Option Nat :=
  let digits := if src.head? = some 43 then src.tail else src
  if digits ≠ [] ∧ digits.all isAsciiDigit = true then
    if decimalValue digits < 2 ^ 64 then some (decimalValue digits) else none
  else none

/-- Where UTF-8 validation is: between characters, inside one with `after` continuation bytes
still to come after the next, whose range is `lo..=hi`, or past an ill-formed sequence. -/
inductive Utf8State where
  | ready
  | continuation (after lo hi : Nat)
  | invalid
  deriving DecidableEq, Repr

/-- A byte between characters: ASCII, or the lead byte of a two-, three- or four-byte sequence.
The range of the second byte rules out overlong forms, surrogates and code points above
`U+10FFFF`. -/
def utf8Lead (b : UInt8) : Utf8State :=
  let v := b.toNat
  if v < 0x80 then .ready
  else if 0xC2 ≤ v ∧ v ≤ 0xDF then .continuation 0 0x80 0xBF
  else if v = 0xE0 then .continuation 1 0xA0 0xBF
  else if v = 0xED then .continuation 1 0x80 0x9F
  else if 0xE1 ≤ v ∧ v ≤ 0xEF then .continuation 1 0x80 0xBF
  else if v = 0xF0 then .continuation 2 0x90 0xBF
  else if v = 0xF4 then .continuation 2 0x80 0x8F
  else if 0xF1 ≤ v ∧ v ≤ 0xF3 then .continuation 2 0x80 0xBF
  else .invalid

/-- One byte of UTF-8 validation. -/
def utf8Step : Utf8State → UInt8 → Utf8State
  | .ready, b => utf8Lead b
  | .continuation after lo hi, b =>
    if lo ≤ b.toNat ∧ b.toNat ≤ hi then
      match after with
      | 0 => .ready
      | n + 1 => .continuation n 0x80 0xBF
    else .invalid
  | .invalid, _ => .invalid

/-- Modelled from Rust's standard library: whether `String::from_utf8` accepts the bytes, that
is, whether they are a sequence of well-formed UTF-8 characters (`run_utf8_validation`). -/
def utf8Valid (bytes : List UInt8) : Bool :=
  bytes.foldl utf8Step .ready = .ready

/-! ## `lookup_or_create_id` -/

/-- `Storage::lookup_or_create_id` on the `server-id` file (`none`: no such file), given the
configuration's `unique_id` and the value `thread_rng().gen::<u64>()` draws: the id and the file
after it, or the message of the `expect` that panics. -/
def lookupOrCreateId (uniqueId : Option Nat) (random : Nat) (file : Option (List UInt8)) :
    Except String (Nat × Option (List UInt8)) :=
  match uniqueId with
  | some id => .ok (id, file)
  | none =>
    match file with
    | some bytes =>
      if utf8Valid bytes then
        match parseU64 bytes with
        | some id => .ok (id, file)
        | none => .error "server-id isn't numeric"
      else .error "server-id contains invalid data"
    | none => .ok (random, some (decimalBytes random))

/-- The ids a sequence of opens of one storage path gets, each open given its configuration's
`unique_id` and the value `thread_rng` would draw; the first panic ends the sequence. -/
def openIds : Option (List UInt8) → List (Option Nat × Nat) → Except String (List Nat)
  | _, [] => .ok []
  | file, (uniqueId, random) :: opens =>
    match lookupOrCreateId uniqueId random file with
    | .error e => .error e
    | .ok (id, file') => (openIds file' opens).map (id :: ·)

/-! ## Reading back what was written -/

/-- The digit character of `d < 10` is the byte `48 + d`. -/
theorem digitChar_byte : ∀ d, d < 10 →
    isAsciiDigit (Nat.digitChar d).toNat.toUInt8 = true ∧
      (Nat.digitChar d).toNat.toUInt8.toNat = 48 + d := by
  decide

/-- `toDigitsCore` puts the digits of `n` before `ds`; folded from `0` they give what `ds` folded
from `n` gives. -/
theorem toDigitsCore_decimal (fuel n : Nat) (ds : List Char) (h : n < fuel) :
    let bytes := (Nat.toDigitsCore 10 fuel n ds).map fun c => c.toNat.toUInt8
    bytes ≠ [] ∧ (∀ b ∈ bytes, isAsciiDigit b = true ∨ b ∈ ds.map fun c => c.toNat.toUInt8) ∧
      bytes.foldl (fun acc b => acc * 10 + (b.toNat - 48)) 0 =
        (ds.map fun c => c.toNat.toUInt8).foldl (fun acc b => acc * 10 + (b.toNat - 48)) n := by
  induction fuel generalizing n ds with
  | zero => omega
  | succ fuel ih =>
    obtain ⟨hdigit, hbyte⟩ := digitChar_byte (n % 10) (Nat.mod_lt _ (by omega))
    have hcons : ∀ b ∈ (Nat.digitChar (n % 10) :: ds).map fun c => c.toNat.toUInt8,
        isAsciiDigit b = true ∨ b ∈ ds.map fun c => c.toNat.toUInt8 := fun b hb => by
      rcases List.mem_cons.mp (List.map_cons _ _ _ ▸ hb) with rfl | hb
      exacts [.inl hdigit, .inr hb]
    unfold Nat.toDigitsCore
    dsimp only
    split
    · refine ⟨by simp, hcons, ?_⟩
      simp only [List.map_cons, List.foldl_cons, hbyte]
      congr 1
      omega
    · obtain ⟨hne, hall, hfold⟩ := ih (n / 10) (Nat.digitChar (n % 10) :: ds) (by omega)
      refine ⟨hne, fun b hb => (hall b hb).elim .inl (hcons b), ?_⟩
      rw [hfold, List.map_cons, List.foldl_cons, hbyte]
      congr 1
      omega

/-- The bytes `u64::to_string` writes: at least one, all ASCII digits, of value `n`. -/
theorem decimalBytes_spec (n : Nat) :
    decimalBytes n ≠ [] ∧ (∀ b ∈ decimalBytes n, isAsciiDigit b = true) ∧
      decimalValue (decimalBytes n) = n := by
  obtain ⟨hne, hall, hfold⟩ := toDigitsCore_decimal (n + 1) n [] (by omega)
  exact ⟨hne, fun b hb => (hall b hb).resolve_right (List.not_mem_nil _), hfold⟩

/-- ASCII bytes leave validation between characters. -/
theorem foldl_utf8Step_ascii {bytes : List UInt8} (h : ∀ b ∈ bytes, b.toNat < 0x80) :
    bytes.foldl utf8Step .ready = .ready := by
  induction bytes with
  | nil => rfl
  | cons b bs ih =>
    have hb : utf8Step .ready b = .ready := by simp [utf8Step, utf8Lead, h b (.head _)]
    rw [List.foldl_cons, hb]
    exact ih fun b hb => h b (List.mem_cons_of_mem _ hb)

/-- What `lookup_or_create_id` writes is valid UTF-8 and parses back to the id. -/
theorem parseU64_decimalBytes {n : Nat} (h : n < 2 ^ 64) :
    utf8Valid (decimalBytes n) = true ∧ parseU64 (decimalBytes n) = some n := by
  obtain ⟨hne, hall, hvalue⟩ := decimalBytes_spec n
  have hascii : ∀ b ∈ decimalBytes n, b.toNat < 0x80 := fun b hb => by
    have := hall b hb
    simp only [isAsciiDigit, Bool.and_eq_true, decide_eq_true_eq] at this
    omega
  refine ⟨by simp [utf8Valid, foldl_utf8Step_ascii hascii], ?_⟩
  have hplus : (decimalBytes n).head? ≠ some 43 := fun hh =>
    absurd (hall 43 (List.mem_of_mem_head? hh)) (by decide)
  unfold parseU64
  dsimp only
  rw [if_neg hplus, if_pos ⟨hne, List.all_eq_true.mpr hall⟩, hvalue, if_pos h]

/-! ## The id over a storage's opens -/

theorem lookupOrCreateId_written {id : Nat} (h : id < 2 ^ 64) (uniqueId : Option Nat)
    (random : Nat) :
    lookupOrCreateId uniqueId random (some (decimalBytes id)) =
      .ok (uniqueId.getD id, some (decimalBytes id)) := by
  obtain ⟨hvalid, hparse⟩ := parseU64_decimalBytes h
  cases uniqueId <;> simp [lookupOrCreateId, hvalid, hparse]

/-- Once the file holds an id the storage wrote, every open gets its override or that id, and
the file stays as it is. -/
theorem openIds_written {id : Nat} (h : id < 2 ^ 64) :
    ∀ opens : List (Option Nat × Nat),
      openIds (some (decimalBytes id)) opens = .ok (opens.map fun o => o.1.getD id)
  | [] => rfl
  | (uniqueId, random) :: opens => by
    simp only [openIds, lookupOrCreateId_written h, openIds_written h opens]
    rfl

/-- Over any sequence of opens of a fresh storage path, there is one id that every open without
a configured `unique_id` gets, while every open with one gets its own; no open panics. -/
theorem storage_id_stable :
    ∀ opens : List (Option Nat × Nat), (∀ o ∈ opens, o.2 < 2 ^ 64) →
      ∃ id, id < 2 ^ 64 ∧ openIds none opens = .ok (opens.map fun o => o.1.getD id)
  | [], _ => ⟨0, Nat.two_pow_pos 64, rfl⟩
  | (some u, random) :: opens, hr => by
    obtain ⟨id, hid, hopen⟩ :=
      storage_id_stable opens fun o ho => hr o (List.mem_cons_of_mem _ ho)
    refine ⟨id, hid, ?_⟩
    simp only [openIds, lookupOrCreateId, hopen]
    rfl
  | (none, random) :: opens, hr => by
    have hrandom : random < 2 ^ 64 := hr _ (List.mem_cons_self _ _)
    refine ⟨random, hrandom, ?_⟩
    simp only [openIds, lookupOrCreateId, openIds_written hrandom opens]
    rfl

/-- Three opens: the first draws `7` and writes it, the second is configured with `99`, the
third reads `7` back. -/
def threeOpens : List (Option Nat × Nat) :=
  [(none, 7), (some 99, 5), (none, 3)]

theorem threeOpens_share_id :
    (∀ o ∈ threeOpens, o.2 < 2 ^ 64) ∧ openIds none threeOpens = .ok [7, 99, 7] ∧
      ∃ id, id < 2 ^ 64 ∧ openIds none threeOpens = .ok (threeOpens.map fun o => o.1.getD id) :=
  have hr : ∀ o ∈ threeOpens, o.2 < 2 ^ 64 := by decide
  ⟨hr, rfl, storage_id_stable threeOpens hr⟩

end BonsaiDb.Local
