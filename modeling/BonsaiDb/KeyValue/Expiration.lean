import BonsaiDb.KeyValue.Tree
import Mathlib.Data.List.Basic

/-!
# Key/value — the expiration engine

`expiration_task` (`keyvalue.rs` 438–546): `tracked_keys` maps each tracked key to its deadline,
and `expiration_order` lists the tracked keys soonest first. Each turn of its loop either
integrates one received `ExpirationUpdate` (`Expirer.receive`), or, when no update is waiting,
samples the clock and collects every front key whose deadline has passed (`Expirer.expire`) into
a removal batch that a blocking task then deletes from the tree, one key at a time.

Every `unwrap` of the loop is kept: where one would fail, the task panics (`Phase.panicked`) and
takes no further step. Integrating an update changes `tracked_keys` exactly at the update's key
(`integrate_trackedKeys`), and a batch only takes keys whose tracked deadline has passed
(`collectExpired_due`).
-/

namespace BonsaiDb.KeyValue

/-- Where `expiration_task`'s loop is. -/
inductive Phase where
  /-- At the top of the loop. -/
  | waiting
  /-- The blocking task of a removal batch sampled at `now` still has to delete `keys`. -/
  | removing (now : Timestamp) (keys : List String)
  /-- An `unwrap` failed. -/
  | panicked
  deriving DecidableEq, Repr

/-- `expiration_task`'s state. -/
structure Expirer where
  trackedKeys : String → Option Timestamp
  expirationOrder : List String
  phase : Phase

/-- The state the task starts in: nothing tracked. -/
def Expirer.init : Expirer := ⟨fun _ => none, [], .waiting⟩

/-- The `find_map` over `expiration_order`: the index of `key`. -/
def findKey (key : String) : List String → Option Nat
  | [] => none
  | k :: ks => if key = k then some 0 else (findKey key ks).map (· + 1)

/-- The insertion scan (lines 516–522): the first index whose tracked deadline is later than
`expiration`, `some none` to push at the back, and `none` when an `unwrap` fails. -/
def insertPosition (tracked : String → Option Timestamp) (expiration : Timestamp) :
    List String → Option (Option Nat)
  | [] => some none
  | k :: ks =>
    match tracked k with
    | none => none
    | some d =>
      if expiration < d then some (some 0)
      else (insertPosition tracked expiration ks).map (·.map (· + 1))

/-- `expiration_order` without `key` when `key` is tracked (lines 497–510), or `none` when the
`unwrap` of the `find_map` fails. -/
def detach (tracked : String → Option Timestamp) (order : List String) (key : String) :
    Option (List String) :=
  if (tracked key).isSome then (findKey key order).map order.eraseIdx else some order

/-- `key` inserted at the position the scan found, or pushed at the back (lines 523–527). -/
def place (key : String) (order : List String) : Option Nat → List String
  | some i => order.insertIdx i key
  | none => order ++ [key]

/-- The update branch (lines 496–542): `tracked_keys` and `expiration_order` after integrating
`u`, or `none` when an `unwrap` fails. -/
def integrate (tracked : String → Option Timestamp) (order : List String)
    (u : ExpirationUpdate) : Option ((String → Option Timestamp) × List String) :=
  match u.expiration with
  | some expiration =>
    (detach tracked order u.treeKey).bind fun order =>
      (insertPosition tracked expiration order).map fun position =>
        (Function.update tracked u.treeKey (some expiration), place u.treeKey order position)
  | none =>
    if (tracked u.treeKey).isSome then
      (findKey u.treeKey order).map fun i => (Function.update tracked u.treeKey none, order.eraseIdx i)
    else some (tracked, order)

/-- The removal loop (lines 474–481) at sampled time `now`: the keys taken, and `tracked_keys`
and `expiration_order` afterwards; `none` when an `unwrap` fails. -/
def collectExpired (now : Timestamp) :
    (String → Option Timestamp) → List String →
      Option (List String × (String → Option Timestamp) × List String)
  | tracked, [] => some ([], tracked, [])
  | tracked, k :: ks =>
    match tracked k with
    | none => none
    | some d =>
      if d ≤ now then
        (collectExpired now (Function.update tracked k none) ks).map
          fun (keys, tracked', order') => (k :: keys, tracked', order')
      else some ([], tracked, k :: ks)

namespace Expirer

/-- The `unwrap` at the top of the loop (line 453): the front key of a non-empty order is
tracked. -/
def frontTracked (e : Expirer) : Bool :=
  match e.expirationOrder with
  | [] => true
  | k :: _ => (e.trackedKeys k).isSome

/-- The loop receives `u` and integrates it. -/
def receive (e : Expirer) (u : ExpirationUpdate) : Expirer :=
  if e.frontTracked then
    match integrate e.trackedKeys e.expirationOrder u with
    | some (tracked, order) => ⟨tracked, order, .waiting⟩
    | none => { e with phase := .panicked }
  else { e with phase := .panicked }

/-- No update is waiting: the loop samples `now` and starts a removal batch of the due keys. -/
def expire (e : Expirer) (now : Timestamp) : Expirer :=
  if e.frontTracked then
    match collectExpired now e.trackedKeys e.expirationOrder with
    | some (keys, tracked, order) => ⟨tracked, order, .removing now keys⟩
    | none => { e with phase := .panicked }
  else { e with phase := .panicked }

end Expirer

/-- Integrating `u` sets `tracked_keys` at `u`'s key to `u`'s expiration and leaves every
other key alone. -/
theorem integrate_trackedKeys {tracked tracked' : String → Option Timestamp}
    {order order' : List String} {u : ExpirationUpdate}
    (h : integrate tracked order u = some (tracked', order')) :
    tracked' = Function.update tracked u.treeKey u.expiration := by
  unfold integrate at h
  cases hu : u.expiration with
  | some expiration =>
    simp only [hu, Option.bind_eq_some, Option.map_eq_some'] at h
    obtain ⟨_, _, _, _, h⟩ := h
    exact (Prod.mk.inj h).1.symm
  | none =>
    simp only [hu] at h
    split at h
    · obtain ⟨_, _, h⟩ := Option.map_eq_some'.mp h
      exact (Prod.mk.inj h).1.symm
    · -- an untracked key stays untracked
      cases h
      rw [eq_comm, Function.update_eq_self_iff, eq_comm]
      exact Option.not_isSome_iff_eq_none.mp ‹_›

/-- Every key a removal batch takes had a tracked deadline no later than the sampled time, and
the batch only drops keys from `tracked_keys`. -/
theorem collectExpired_due {now : Timestamp} {tracked : String → Option Timestamp}
    {order : List String} :
    ∀ {tracked' : String → Option Timestamp} {order' keys : List String},
      collectExpired now tracked order = some (keys, tracked', order') →
      (∀ k ∈ keys, ∃ d, tracked k = some d ∧ d ≤ now) ∧
        ∀ k d, tracked' k = some d → tracked k = some d := by
  induction tracked, order using collectExpired.induct now with
  | case1 tracked =>
    intro _ _ _ h
    cases h
    exact ⟨by simp, fun _ _ hd => hd⟩
  | case2 tracked k ks hk =>
    intro _ _ _ h
    simp [collectExpired, hk] at h
  | case3 tracked k ks d hk hle ih =>
    intro tracked' order' keys h
    -- the rest of the batch runs on `tracked` without `k`
    have hup : ∀ k' d', Function.update tracked k none k' = some d' → tracked k' = some d' := by
      intro k' d' h'
      by_cases he : k' = k
      · subst he; simp at h'
      · simpa [he] using h'
    simp only [collectExpired, hk, hle, if_true] at h
    obtain ⟨⟨keys₁, t₁, o₁⟩, hrec, heq⟩ := Option.map_eq_some'.mp h
    cases heq
    obtain ⟨hdue, hkeep⟩ := ih hrec
    refine ⟨fun k' hk' => ?_, fun k' d' hd' => hup k' d' (hkeep k' d' hd')⟩
    rcases List.mem_cons.mp hk' with rfl | hk'
    · exact ⟨d, hk, hle⟩
    · obtain ⟨d', hd', hle'⟩ := hdue k' hk'
      exact ⟨d', hup k' d' hd', hle'⟩
  | case4 tracked k ks d hk hle =>
    intro _ _ _ h
    simp only [collectExpired, hk, hle, if_false, Option.some.injEq, Prod.mk.injEq] at h
    obtain ⟨rfl, rfl, rfl⟩ := h
    exact ⟨by simp, fun _ _ hd => hd⟩

end BonsaiDb.KeyValue
