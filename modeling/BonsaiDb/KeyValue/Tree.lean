import BonsaiDb.Core.KeyValue
import BonsaiDb.Core.Map

/-!
# Key/value — the KV tree

The unversioned `kv` tree the key/value engine stores its entries in, with the three operations
`keyvalue.rs` calls on it: point `get`, `remove`, and `compare_and_swap`. Each is one atomic
step of the tree store, which runs each of them as a transaction of its own.

* An `Entry` is stored through `bincode`; only `keyvalue.rs` writes this tree, so the stored
  bytes always decode, and the tree is modelled as holding the `Entry` itself.
* `Tree` is a `Map`; `Tree.get_set_self` and `Tree.get_set_ne` are the facts later proofs use
  about it.
-/

namespace BonsaiDb.KeyValue

/-- `Entry`: a stored value and its optional expiration. -/
structure Entry where
  value : Value
  expiration : Option Timestamp
  deriving DecidableEq, Repr

/-- The `kv` tree: the entry stored under each full key. -/
abbrev Tree := Map Entry

namespace Tree

/-- The tree after `key`'s entry becomes `value`; `none` removes it (`tree.remove(key)`). -/
def set (t : Tree) (key : String) (value : Option Entry) : Tree :=
  match value with
  | some e => t.insert key e
  | none => t.erase key

/-- `tree.compare_and_swap(key, old, new)`: writes `new` when the stored entry is `old`,
otherwise reports the stored entry as the conflict. -/
def compareAndSwap (t : Tree) (key : String) (old new : Option Entry) :
    Except (Option Entry) Tree :=
  if t.get key = old then .ok (t.set key new) else .error (t.get key)

@[simp] theorem get_set_self (t : Tree) (key : String) (value : Option Entry) :
    (t.set key value).get key = value := by
  cases value <;> simp [set]

@[simp] theorem get_set_ne (t : Tree) {key key' : String} (value : Option Entry)
    (h : key ≠ key') : (t.set key value).get key' = t.get key' := by
  cases value <;> simp [set, h]

/-- Writing one key keeps every binding of another. -/
theorem mem_set_of_ne (t : Tree) {key k : String} (value : Option Entry) {e : Entry}
    (h : key ≠ k) : (k, e) ∈ t.set key value ↔ (k, e) ∈ t := by
  cases value <;> simp [set, Map.mem_insert, Map.mem_erase, Ne.symm h]

/-- After a write of `key`, its only binding is the value written. -/
theorem eq_of_mem_set_self {t : Tree} {key : String} {value : Option Entry} {e : Entry}
    (h : (key, e) ∈ t.set key value) : value = some e := by
  cases value <;> simp_all [set, Map.mem_insert, Map.mem_erase]

/-- Writing a key keeps one binding per key. -/
theorem nodup_keys_set {t : Tree} (ht : (t.map Prod.fst).Nodup) (key : String)
    (value : Option Entry) : ((t.set key value).map Prod.fst).Nodup := by
  cases value
  · exact Map.nodup_keys_erase ht key
  · exact Map.nodup_keys_insert ht key _

theorem compareAndSwap_ok {t t' : Tree} {key : String} {old new : Option Entry}
    (h : t.compareAndSwap key old new = .ok t') : t.get key = old ∧ t' = t.set key new := by
  unfold compareAndSwap at h
  split at h
  · cases h; exact ⟨‹_›, rfl⟩
  · cases h

theorem compareAndSwap_error {t : Tree} {key : String} {old new cur : Option Entry}
    (h : t.compareAndSwap key old new = .error cur) : t.get key ≠ old ∧ cur = t.get key := by
  unfold compareAndSwap at h
  split at h
  · cases h
  · cases h; exact ⟨‹_›, rfl⟩

end Tree

/-- `full_key`: the namespace, a `.`, and the key; a missing namespace gives `.` and the key. -/
def fullKey (ns : Option String) (key : String) : String :=
  match ns with
  | some ns => ns ++ "." ++ key
  | none => "." ++ key

/-- `ExpirationUpdate`: the full key and its new expiration, as sent to `expiration_task`. -/
structure ExpirationUpdate where
  treeKey : String
  expiration : Option Timestamp
  deriving DecidableEq, Repr

end BonsaiDb.KeyValue
