import BonsaiDb.KeyValue.Tree

/-!
# Key/value — operations as atomic steps

`execute_set_operation`, `execute_get_operation`, `execute_delete_operation` and
`execute_numeric_operation` (`keyvalue.rs` 136–328), cut at their tree-store calls and at their
`update_key_expiration`, so that operations on one key can interleave. The tree store's `get`,
`compare_and_swap` and `remove` are atomic (spec §5); the thread-local work before each of them
is folded into the same step.

* `setUpdate` is the closure `execute_set_operation` hands to `fetch_and_update_no_copy`. The
  variables it captures by reference (`entry`, `inserted`, `updated`) are `SetLocals`, and they
  pass from one attempt of the loop to the next exactly as the closure leaves them.
* `Pc.notify` is the point between a committed write and its `update_key_expiration`.
-/

namespace BonsaiDb.KeyValue

/-- The arguments of `execute_set_operation` besides the key. -/
structure SetArgs where
  value : Value
  expiration : Option Timestamp
  keepExistingExpiration : Bool
  check : Option KeyCheck
  returnPreviousValue : Bool

/-- The variables the closure of `execute_set_operation` captures by reference. -/
structure SetLocals where
  entry : Entry
  inserted : Bool
  updated : Bool

/-- The captured variables when `execute_set_operation` starts. -/
def SetArgs.locals (a : SetArgs) : SetLocals :=
  ⟨⟨a.value, a.expiration⟩, false, false⟩

/-- `should_update`: whether the key's current state passes the `check`. -/
def shouldUpdate : Option KeyCheck → Option Entry → Bool
  | some .onlyIfPresent, existing => existing.isSome
  | some .onlyIfVacant, existing => existing.isNone
  | none, _ => true

/-- The closure of `execute_set_operation` (lines 156–177): the captured variables after it
ran on `existing`, and the value it gives `compare_and_swap` to store. -/
def setUpdate (a : SetArgs) (l : SetLocals) (existing : Option Entry) :
    SetLocals × Option Entry :=
  if shouldUpdate a.check existing then
    let entry := match existing with
      | some previous =>
        if a.keepExistingExpiration then { l.entry with expiration := previous.expiration }
        else l.entry
      | none => l.entry
    (⟨entry, existing.isNone, true⟩, some entry)
  else (l, existing)

/-- What `execute_set_operation` returns once `compare_and_swap` succeeded against `previous`
(lines 180–195). -/
def setOutput (a : SetArgs) (l : SetLocals) (previous : Option Entry) : Output :=
  if l.updated then
    if a.returnPreviousValue then .value (previous.map (·.value))
    else if l.inserted then .status .inserted else .status .updated
  else .status .notChanged

/-- The error `execute_numeric_operation` returns when the stored value is a byte string. -/
def notNumericError : Error :=
  .database "type of stored `Value` is not `Numeric`"

/-- The entry `execute_numeric_operation` works on: the stored one, or `UnsignedInteger(0)`
with no expiration for a vacant key. -/
def numericEntry (current : Option Entry) : Entry :=
  current.getD ⟨.numeric (.unsignedInteger 0), none⟩

/-- Where a running key operation is. -/
inductive Pc where
  /-- Not started: the operation's first tree call is next. -/
  | start (command : Command)
  /-- An attempt of `fetch_and_update_no_copy`'s loop: the closure on `current`, then
  `compare_and_swap` against `current`. -/
  | setSwap (args : SetArgs) (locals : SetLocals) (current : Option Entry)
  /-- An attempt of `execute_numeric_operation`'s loop against `current`. -/
  | numericSwap (op : NumericOp) (amount : Numeric) (saturating : Bool) (current : Option Entry)
  /-- A write committed: `update_key_expiration` is next, then `output` is returned. -/
  | notify (expiration : Option Timestamp) (output : Output)
  /-- Returned. -/
  | done (result : Except Error Output)

/-- One atomic step of the operation on `key`: the next control point, the tree after it, and
the expiration updates it sent. `none` once the operation has returned. -/
def Pc.step (key : String) (tree : Tree) : Pc → Option (Pc × Tree × List ExpirationUpdate)
  | .start (.set value expiration keep check returnPrevious) =>
    let a : SetArgs := ⟨value, expiration, keep, check, returnPrevious⟩
    some (.setSwap a a.locals (tree.get key), tree, [])
  | .start (.get false) => some (.done (.ok (.value ((tree.get key).map (·.value)))), tree, [])
  | .start (.get true) =>
    match tree.get key with
    | some e => some (.notify none (.value (some e.value)), tree.set key none, [])
    | none => some (.done (.ok (.value none)), tree, [])
  | .start .delete =>
    match tree.get key with
    | some _ => some (.notify none (.status .deleted), tree.set key none, [])
    | none => some (.done (.ok (.status .notChanged)), tree, [])
  | .start (.numeric op amount saturating) =>
    some (.numericSwap op amount saturating (tree.get key), tree, [])
  | .setSwap a l current =>
    let (l', next) := setUpdate a l current
    match tree.compareAndSwap key current next with
    | .ok tree' =>
      some (if l'.updated then .notify l'.entry.expiration (setOutput a l' current)
        else .done (.ok (setOutput a l' current)), tree', [])
    | .error cur => some (.setSwap a l' cur, tree, [])
  | .numericSwap op amount saturating current =>
    let entry := numericEntry current
    match entry.value with
    | .numeric n =>
      let value := Value.numeric (op n amount saturating)
      match tree.compareAndSwap key current (some { entry with value }) with
      | .ok tree' => some (.done (.ok (.value (some value))), tree', [])
      | .error cur => some (.numericSwap op amount saturating cur, tree, [])
    | .bytes _ => some (.done (.error notNumericError), tree, [])
  | .notify expiration output => some (.done (.ok output), tree, [⟨key, expiration⟩])
  | .done _ => none

/-- Every step of the operation on `key` leaves the tree alone, writes `key`, or commits a
`compare_and_swap` on `key`, and sends updates for `key` alone. -/
theorem Pc.step_frame {key : String} {tree tree' : Tree} {pc pc' : Pc}
    {sent : List ExpirationUpdate} (h : pc.step key tree = some (pc', tree', sent)) :
    (∀ k, k ≠ key → tree'.get k = tree.get k) ∧ ∀ u ∈ sent, u.treeKey = key := by
  have hcas : ∀ {old new : Option Entry} {t : Tree}, tree.compareAndSwap key old new = .ok t →
      ∀ k, k ≠ key → t.get k = tree.get k := fun hc k hk => by
    rw [(Tree.compareAndSwap_ok hc).2, Tree.get_set_ne _ _ (Ne.symm hk)]
  unfold Pc.step at h
  split at h
  all_goals (try dsimp only at h)
  all_goals (try split at h)
  all_goals (try split at h)
  all_goals cases h
  all_goals exact ⟨fun k hk => by
    first | rfl | exact Tree.get_set_ne _ _ (Ne.symm hk) | exact hcas ‹_› k hk, by simp⟩

/-- Every step of the operation on `key` leaves the tree as it is or writes `key` alone. -/
theorem Pc.step_tree {key : String} {tree tree' : Tree} {pc pc' : Pc}
    {sent : List ExpirationUpdate} (h : pc.step key tree = some (pc', tree', sent)) :
    tree' = tree ∨ ∃ value, tree' = tree.set key value := by
  unfold Pc.step at h
  split at h
  all_goals (try dsimp only at h)
  all_goals (try split at h)
  all_goals (try split at h)
  all_goals cases h
  all_goals first
    | exact .inl rfl
    | exact .inr ⟨_, rfl⟩
    | exact .inr ⟨_, (Tree.compareAndSwap_ok ‹_›).2⟩

/-- A running key operation: its full key and where it is. -/
structure KvThread where
  key : String
  pc : Pc

namespace KvThread

/-- The operation `command` on `key`, not yet started. -/
def start (key : String) (command : Command) : KvThread :=
  ⟨key, .start command⟩

/-- What the operation returned, once it has. -/
def result (t : KvThread) : Option (Except Error Output) :=
  match t.pc with
  | .done r => some r
  | _ => none

/-- One atomic step of the thread. -/
def step (t : KvThread) (tree : Tree) : Option (KvThread × Tree × List ExpirationUpdate) :=
  (t.pc.step t.key tree).map fun (pc, tree', sent) => (⟨t.key, pc⟩, tree', sent)

end KvThread

end BonsaiDb.KeyValue
