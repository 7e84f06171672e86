import BonsaiDb.Core.Connection

/-!
# Core — key/value vocabulary

The types of `bonsaidb_core::keyvalue` that `keyvalue.rs` reads and returns: stored values and
their numeric variants, expiration timestamps, the checks of a `set`, the `Output` of every key
operation, and the `Command` a `KeyOperation` carries.

* `Timestamp` is a count of nanoseconds: `bonsaidb_core`'s `(seconds, nanos)` pair ordered
  lexicographically is the same total order.
* An `f64` is held by its IEEE-754 bits, the bytes `bincode` stores; no floating-point arithmetic
  is modelled.
-/

namespace BonsaiDb

/-- A point in time, in nanoseconds. -/
abbrev Timestamp := Nat

/-- `Numeric`: `Integer(i64)`, `UnsignedInteger(u64)` or `Float(f64)`. -/
inductive Numeric where
  | integer (value : BitVec 64)
  | unsignedInteger (value : BitVec 64)
  | float (bits : BitVec 64)
  deriving DecidableEq, Repr

/-- `Value`: a number or a byte string. -/
inductive Value where
  | numeric (value : Numeric)
  | bytes (value : List UInt8)
  deriving DecidableEq, Repr

/-- `KeyCheck`: the condition a `set` puts on the key's current state. -/
inductive KeyCheck where
  | onlyIfPresent
  | onlyIfVacant
  deriving DecidableEq, Repr

/-- `KeyStatus`. -/
inductive KeyStatus where
  | inserted
  | updated
  | deleted
  | notChanged
  deriving DecidableEq, Repr

/-- `Output` of a key operation. -/
inductive Output where
  | status (status : KeyStatus)
  | value (value : Option Value)
  deriving DecidableEq, Repr

/-- The arithmetic `execute_numeric_operation` applies (`increment` or `decrement`): the stored
number, the amount, and whether to saturate. -/
abbrev NumericOp := Numeric → Numeric → Bool → Numeric

/-- `Command` of a `KeyOperation`, with the numeric commands carrying the arithmetic that
`execute_increment_operation` and `execute_decrement_operation` pass on. -/
inductive Command where
  | set (value : Value) (expiration : Option Timestamp) (keepExistingExpiration : Bool)
      (check : Option KeyCheck) (returnPreviousValue : Bool)
  | get (delete : Bool)
  | delete
  | numeric (op : NumericOp) (amount : Numeric) (saturating : Bool)

end BonsaiDb
