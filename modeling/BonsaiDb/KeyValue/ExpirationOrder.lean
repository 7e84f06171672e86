import BonsaiDb.KeyValue.System
import Mathlib.Data.List.InsertIdx
import Mathlib.Data.List.Nodup

/-!
# Key/value — the expiration order

`expiration_task` keeps `expiration_order` and `tracked_keys` in step: the order lists each
tracked key once, soonest deadline first, and keys of one deadline in the order their updates
arrived (`OrderSound`). Under that invariant each branch of the loop has a closed form: an update
erases its key from the order and, when it sets a deadline, inserts the key behind every key due
by that deadline (`OrderSound.receive_some`, `OrderSound.receive_none`); a timeout takes the front
keys due by `now`, which are all the due keys (`OrderSound.expire_eq`). No `unwrap` of the loop
fails on such a state.

* `ExpirationTask` is the task on its own, one turn of its loop per event, a removal batch run to
  its end before the next turn (the loop awaits it).
* `Deadlines` says what the task is for: each key's deadline, as its latest update set it, until
  a timeout at or past it. The task refines it (`ExpirationTask.Tracks.run`).
-/

namespace BonsaiDb.KeyValue

/-- A tracked key's deadline. -/
def deadline (tracked : String → Option Timestamp) (key : String) : Timestamp :=
  (tracked key).getD 0

/-- The index in `received` of the last update for `key`: when its current deadline arrived. -/
def lastArrival (received : List ExpirationUpdate) (key : String) : Nat :=
  received.enum.foldl (fun last (i, u) => if u.treeKey = key then i else last) 0

@[simp] theorem lastArrival_append_single (received : List ExpirationUpdate)
    (u : ExpirationUpdate) (key : String) :
    lastArrival (received ++ [u]) key =
      if u.treeKey = key then received.length else lastArrival received key := by
  simp [lastArrival, List.enum_append]

/-- `a` belongs before `b` in `expiration_order`: an earlier deadline, or the same deadline set by
an update that arrived earlier. -/
def Before (tracked : String → Option Timestamp) (arrival : String → Nat) (a b : String) : Prop :=
  deadline tracked a < deadline tracked b ∨
    deadline tracked a = deadline tracked b ∧ arrival a < arrival b

theorem Before.deadline_le {tracked : String → Option Timestamp} {arrival : String → Nat}
    {a b : String} (h : Before tracked arrival a b) : deadline tracked a ≤ deadline tracked b := by
  rcases h with h | ⟨h, -⟩
  · exact Nat.le_of_lt h
  · exact Nat.le_of_eq h

/-- `Before` reads only the two keys' deadlines and arrivals. -/
theorem Before.congr {tracked tracked' : String → Option Timestamp}
    {arrival arrival' : String → Nat}
    {a b : String} (hta : tracked' a = tracked a) (htb : tracked' b = tracked b)
    (haa : arrival' a = arrival a) (hab : arrival' b = arrival b)
    (h : Before tracked arrival a b) : Before tracked' arrival' a b := by
  unfold Before deadline at *
  rwa [hta, htb, haa, hab]

theorem before_of_le {tracked : String → Option Timestamp} {arrival : String → Nat}
    {a b : String} (hd : deadline tracked a ≤ deadline tracked b) (ha : arrival a < arrival b) :
    Before tracked arrival a b := by
  rcases Nat.lt_or_eq_of_le hd with hd | hd
  · exact .inl hd
  · exact .inr ⟨hd, ha⟩

/-! ## The loop's scans -/

/-- The `find_map` and `remove` of the update branch erase the key's first occurrence. -/
theorem findKey_map_eraseIdx (key : String) :
    ∀ order : List String, (findKey key order).map order.eraseIdx =
      if key ∈ order then some (order.erase key) else none
  | [] => rfl
  | k :: ks => by
    by_cases hk : key = k
    · subst hk; simp [findKey]
    · have ih := findKey_map_eraseIdx key ks
      simp only [findKey, hk, if_false, Option.map_map, List.mem_cons, false_or] at ih ⊢
      rw [List.erase_cons_tail (by simpa using fun h => hk h.symm)]
      split_ifs at ih ⊢ <;> simpa [Function.comp_def] using ih

section scans

variable (δ : String → Timestamp) {tracked : String → Option Timestamp}

/-- A position one further along a list with one more key in front. -/
theorem place_cons (key a : String) (order : List String) (position : Option Nat) :
    place key (a :: order) (position.map (· + 1)) = a :: place key order position := by
  cases position <;> rfl

/-- The insertion scan, on keys tracked at the deadlines `δ`, places `key` behind every key due by
`expiration` and ahead of the rest. -/
theorem place_insertPosition (key : String) (expiration : Timestamp) :
    ∀ {order : List String}, (∀ k ∈ order, tracked k = some (δ k)) →
      (insertPosition tracked expiration order).map (place key order) =
        some (order.takeWhile (fun k => decide (δ k ≤ expiration)) ++
          key :: order.dropWhile (fun k => decide (δ k ≤ expiration)))
  | [], _ => rfl
  | a :: order, h => by
    have ha := h a (List.mem_cons_self _ _)
    by_cases hlt : expiration < δ a
    · simp [insertPosition, ha, hlt, place, List.insertIdx_zero, Nat.not_le.mpr hlt]
    · have ih := place_insertPosition key expiration fun k hk => h k (List.mem_cons_of_mem _ hk)
      have hle : δ a ≤ expiration := Nat.le_of_not_lt hlt
      simp only [insertPosition, ha, if_neg hlt, Option.map_map, Function.comp_def, place_cons,
        List.takeWhile_cons, List.dropWhile_cons, hle, decide_True, eq_self_iff_true, if_true]
      rw [show (fun x => a :: place key order x) = (a :: ·) ∘ place key order from rfl,
        ← Option.map_map, ih]
      rfl

/-- In an order sorted by deadline, every key past the ones due by `bound` is due later. -/
theorem lt_of_mem_dropWhile {R : String → String → Prop} {bound : Timestamp}
    (hmono : ∀ a b, R a b → δ a ≤ δ b) :
    ∀ {order : List String}, order.Pairwise R →
      ∀ k ∈ order.dropWhile (fun k => decide (δ k ≤ bound)), bound < δ k
  | [], _, k, hk => by simp at hk
  | a :: order, hs, k, hk => by
    rw [List.pairwise_cons] at hs
    rw [List.dropWhile_cons] at hk
    split at hk
    · exact lt_of_mem_dropWhile hmono hs.2 k hk
    · next ha =>
      have ha : bound < δ a := by simpa using ha
      rcases List.mem_cons.mp hk with rfl | hk
      · exact ha
      · exact lt_of_lt_of_le ha (hmono a k (hs.1 k hk))

/-- On distinct keys tracked at the deadlines `δ`, the removal loop takes the front keys due by
`now` and untracks exactly them. -/
theorem collectExpired_eq (now : Timestamp) :
    ∀ {tracked : String → Option Timestamp} {order : List String}, order.Nodup →
      (∀ k ∈ order, tracked k = some (δ k)) →
      collectExpired now tracked order =
        some (order.takeWhile (fun k => decide (δ k ≤ now)),
          fun k => if k ∈ order.takeWhile (fun k => decide (δ k ≤ now)) then none else tracked k,
          order.dropWhile (fun k => decide (δ k ≤ now)))
  | tracked, [], _, _ => by simp [collectExpired]
  | tracked, a :: order, hnd, h => by
    have ha := h a (List.mem_cons_self _ _)
    obtain ⟨hout, hnd⟩ := List.nodup_cons.mp hnd
    by_cases hle : δ a ≤ now
    · -- `a` is due: the rest of the loop runs on `tracked` without `a`
      have ih := @collectExpired_eq now (Function.update tracked a none) order hnd
        fun k hk => by
          rw [Function.update_noteq fun he : k = a => hout (he ▸ hk)]
          exact h k (List.mem_cons_of_mem _ hk)
      simp only [collectExpired, ha, hle, if_true, ih, Option.map_some', List.takeWhile_cons,
        List.dropWhile_cons, decide_True, eq_self_iff_true, Option.some.injEq, Prod.mk.injEq,
        true_and, and_true]
      funext k
      by_cases hk : k = a
      · subst hk; simp
      · simp [hk, Function.update_noteq hk]
    · simp [collectExpired, ha, hle]

/-- A key is in `order` with `key` inserted exactly when it is `key` or was in `order`. -/
theorem mem_takeWhile_append_dropWhile (p : String → Bool) (key k : String)
    (order : List String) :
    k ∈ order.takeWhile p ++ key :: order.dropWhile p ↔ k = key ∨ k ∈ order := by
  conv_rhs => rw [← List.takeWhile_append_dropWhile p order]
  simp only [List.mem_append, List.mem_cons]
  tauto

/-- A key put behind a prefix that belongs before it, and ahead of the rest, which it belongs
before, keeps a sorted order sorted. -/
theorem pairwise_insert_between {R : String → String → Prop} (p : String → Bool) {key : String}
    {order : List String} (hs : order.Pairwise R) (hbefore : ∀ a ∈ order.takeWhile p, R a key)
    (hafter : ∀ b ∈ order.dropWhile p, R key b) :
    (order.takeWhile p ++ key :: order.dropWhile p).Pairwise R := by
  rw [← List.takeWhile_append_dropWhile p order, List.pairwise_append] at hs
  obtain ⟨htake, hdrop, hcross⟩ := hs
  refine List.pairwise_append.mpr ⟨htake, List.pairwise_cons.mpr ⟨hafter, hdrop⟩,
    fun a ha b hb => ?_⟩
  rcases List.mem_cons.mp hb with rfl | hb
  · exact hbefore a ha
  · exact hcross a ha b hb

end scans

/-! ## The invariant -/

/-- `expiration_order` and `tracked_keys` in step, given the updates the loop has taken: each
tracked key is in the order once, and the order is sorted by deadline, ties in the order the
deadlines' updates arrived. -/
structure OrderSound (e : Expirer) (received : List ExpirationUpdate) : Prop where
  nodup : e.expirationOrder.Nodup
  tracked : ∀ k, k ∈ e.expirationOrder ↔ (e.trackedKeys k).isSome
  arrived : ∀ k ∈ e.expirationOrder, lastArrival received k < received.length
  sorted : e.expirationOrder.Pairwise (Before e.trackedKeys (lastArrival received))

namespace OrderSound

variable {e : Expirer} {received : List ExpirationUpdate}

theorem init : OrderSound Expirer.init [] :=
  ⟨List.nodup_nil, fun _ => by simp [Expirer.init], fun _ h => (List.not_mem_nil _ h).elim,
    List.Pairwise.nil⟩

/-- Every key of the order is tracked, at its deadline. -/
theorem tracked_eq (h : OrderSound e received) {k : String} (hk : k ∈ e.expirationOrder) :
    e.trackedKeys k = some (deadline e.trackedKeys k) := by
  obtain ⟨d, hd⟩ := Option.isSome_iff_exists.mp ((h.tracked k).mp hk)
  simp [deadline, hd]

/-- The `unwrap` at the top of the loop (line 453) succeeds. -/
theorem frontTracked (h : OrderSound e received) : e.frontTracked = true := by
  unfold Expirer.frontTracked
  split
  · rfl
  · next k _ hk => exact (h.tracked k).mp (by simp [hk])

/-- The update branch's `find_map` (lines 499–509, 533–540) finds every tracked key. -/
theorem detach_eq (h : OrderSound e received) (key : String) :
    detach e.trackedKeys e.expirationOrder key = some (e.expirationOrder.erase key) := by
  unfold detach
  split_ifs with hk
  · rw [findKey_map_eraseIdx, if_pos ((h.tracked key).mpr hk)]
  · rw [List.erase_of_not_mem fun hin => hk ((h.tracked key).mp hin)]

/-- An update that sets a deadline takes its key out of the order and puts it back behind every
key due by that deadline. -/
theorem receive_some (h : OrderSound e received) {u : ExpirationUpdate} {expiration : Timestamp}
    (hu : u.expiration = some expiration) :
    e.receive u = ⟨Function.update e.trackedKeys u.treeKey (some expiration),
      (e.expirationOrder.erase u.treeKey).takeWhile
          (fun k => decide (deadline e.trackedKeys k ≤ expiration)) ++
        u.treeKey :: (e.expirationOrder.erase u.treeKey).dropWhile
          (fun k => decide (deadline e.trackedKeys k ≤ expiration)), .waiting⟩ := by
  have hins := place_insertPosition (deadline e.trackedKeys) u.treeKey expiration
    fun k (hk : k ∈ e.expirationOrder.erase u.treeKey) =>
      h.tracked_eq ((List.erase_sublist _ _).subset hk)
  obtain ⟨position, hpos, hplace⟩ := Option.map_eq_some'.mp hins
  simp only [Expirer.receive, h.frontTracked, if_true, integrate, hu, h.detach_eq,
    Option.some_bind, hpos, Option.map_some', hplace]

/-- An update that clears a deadline takes its key out of the order and out of tracking. -/
theorem receive_none (h : OrderSound e received) {u : ExpirationUpdate}
    (hu : u.expiration = none) :
    e.receive u = ⟨Function.update e.trackedKeys u.treeKey none,
      e.expirationOrder.erase u.treeKey, .waiting⟩ := by
  simp only [Expirer.receive, h.frontTracked, if_true, integrate, hu]
  split_ifs with hk
  · have hfind := findKey_map_eraseIdx u.treeKey e.expirationOrder
    rw [if_pos ((h.tracked _).mpr hk)] at hfind
    obtain ⟨i, hi, herase⟩ := Option.map_eq_some'.mp hfind
    simp [hi, herase]
  · -- an untracked key is in neither
    have hnone : e.trackedKeys u.treeKey = none := Option.not_isSome_iff_eq_none.mp hk
    have hupdate : Function.update e.trackedKeys u.treeKey none = e.trackedKeys := by
      rw [← hnone, Function.update_eq_self]
    rw [hupdate, List.erase_of_not_mem fun hin => hk ((h.tracked _).mp hin)]

/-- A timeout at `now` takes the front keys due by `now` into its batch and untracks them. -/
theorem expire_eq (h : OrderSound e received) (now : Timestamp) :
    e.expire now = ⟨fun k => if k ∈ e.expirationOrder.takeWhile
        (fun k => decide (deadline e.trackedKeys k ≤ now)) then none else e.trackedKeys k,
      e.expirationOrder.dropWhile (fun k => decide (deadline e.trackedKeys k ≤ now)),
      .removing now (e.expirationOrder.takeWhile
        (fun k => decide (deadline e.trackedKeys k ≤ now)))⟩ := by
  simp only [Expirer.expire, h.frontTracked, if_true,
    collectExpired_eq (deadline e.trackedKeys) now h.nodup fun k hk => h.tracked_eq hk]

/-- The front keys due by `now` are all the tracked keys due by `now`. -/
theorem mem_takeWhile_iff (h : OrderSound e received) (now : Timestamp) (k : String) :
    k ∈ e.expirationOrder.takeWhile (fun k => decide (deadline e.trackedKeys k ≤ now)) ↔
      ∃ d, e.trackedKeys k = some d ∧ d ≤ now := by
  constructor
  · intro hk
    have hle := List.mem_takeWhile_imp hk
    exact ⟨_, h.tracked_eq ((List.takeWhile_sublist _).subset hk), by simpa using hle⟩
  · rintro ⟨d, hd, hle⟩
    have hin : k ∈ e.expirationOrder := (h.tracked k).mpr (by simp [hd])
    have hdl : deadline e.trackedKeys k = d := by simp [deadline, hd]
    rw [← List.takeWhile_append_dropWhile
      (fun k => decide (deadline e.trackedKeys k ≤ now)) e.expirationOrder, List.mem_append] at hin
    refine hin.resolve_right fun hdrop => ?_
    have hlt := lt_of_mem_dropWhile (deadline e.trackedKeys) (fun _ _ hab => hab.deadline_le)
      h.sorted k hdrop
    exact Nat.lt_irrefl _ (Nat.lt_of_lt_of_le (hdl ▸ hlt) hle)

/-- Away from `key`, the order without `key` lists exactly the tracked keys. -/
theorem mem_erase_iff (h : OrderSound e received) {key k : String} (hk : k ≠ key) :
    k ∈ e.expirationOrder.erase key ↔ (e.trackedKeys k).isSome := by
  rw [h.nodup.mem_erase_iff, h.tracked k, and_iff_right hk]

/-- The order without an update's key, whatever the key is tracked with anew: every key in it
arrived before the update, and it is still sorted. -/
theorem erase_sound (h : OrderSound e received) (u : ExpirationUpdate) (v : Option Timestamp) :
    (∀ k ∈ e.expirationOrder.erase u.treeKey, lastArrival received k < received.length) ∧
    (e.expirationOrder.erase u.treeKey).Pairwise
      (Before (Function.update e.trackedKeys u.treeKey v) (lastArrival (received ++ [u]))) := by
  have hrest : ∀ k ∈ e.expirationOrder.erase u.treeKey, k ≠ u.treeKey ∧ k ∈ e.expirationOrder :=
    fun k hk => h.nodup.mem_erase_iff.mp hk
  have harr : ∀ k, k ≠ u.treeKey → lastArrival (received ++ [u]) k = lastArrival received k :=
    fun k hk => by simp [Ne.symm hk]
  exact ⟨fun k hk => h.arrived k (hrest k hk).2,
    (h.sorted.sublist (List.erase_sublist _ _)).imp_of_mem fun ha hb hab =>
      hab.congr (Function.update_noteq (hrest _ ha).1 _ _)
        (Function.update_noteq (hrest _ hb).1 _ _) (harr _ (hrest _ ha).1) (harr _ (hrest _ hb).1)⟩

/-- An update keeps the order sound: its key leaves the order, and a new deadline puts it back
behind every key due by then, as the latest arrival. -/
theorem receive (h : OrderSound e received) (u : ExpirationUpdate) :
    OrderSound (e.receive u) (received ++ [u]) := by
  have htracked : ∀ v k, k ≠ u.treeKey →
      ((Function.update e.trackedKeys u.treeKey v k).isSome ↔
        k ∈ e.expirationOrder.erase u.treeKey) :=
    fun v k hk => by rw [Function.update_noteq hk, h.mem_erase_iff hk]
  -- every key left in the order arrived before the update, and so before its own arrival
  have harrived : ∀ k ∈ e.expirationOrder.erase u.treeKey,
      lastArrival (received ++ [u]) k < (received ++ [u]).length := fun k hk => by
    have hne := (h.nodup.mem_erase_iff.mp hk).1
    simpa [Ne.symm hne] using Nat.lt_succ_of_lt ((h.erase_sound u none).1 k hk)
  cases hu : u.expiration with
  | none =>
    rw [h.receive_none hu]
    refine ⟨h.nodup.erase _, fun k => ?_, harrived, (h.erase_sound u none).2⟩
    by_cases hk : k = u.treeKey
    · subst hk; simp [h.nodup.not_mem_erase]
    · exact (htracked none k hk).symm
  | some expiration =>
    rw [h.receive_some hu]
    have hmem := mem_takeWhile_append_dropWhile
      (fun k => decide (deadline e.trackedKeys k ≤ expiration)) u.treeKey
    have hdl : ∀ k ∈ e.expirationOrder.erase u.treeKey,
        deadline (Function.update e.trackedKeys u.treeKey (some expiration)) k =
          deadline e.trackedKeys k := fun k hk => by
      simp [deadline, Function.update_noteq (h.nodup.mem_erase_iff.mp hk).1]
    refine ⟨List.perm_middle.nodup_iff.mpr ?_, fun k => ?_, fun k hk => ?_,
      pairwise_insert_between _ (h.erase_sound u (some expiration)).2 (fun a ha => ?_)
        (fun b hb => ?_)⟩
    · -- the order without the key, and the key
      rw [List.takeWhile_append_dropWhile]
      exact List.nodup_cons.mpr ⟨h.nodup.not_mem_erase, h.nodup.erase _⟩
    · -- a key is in the order exactly when it is tracked
      rw [hmem]
      by_cases hk : k = u.treeKey
      · subst hk; simp
      · rw [htracked _ k hk]; simp [hk]
    · -- the key arrived last
      rcases (hmem k _).mp hk with rfl | hk
      · simp
      · exact harrived k hk
    · -- every key ahead of it is due by its deadline, and arrived earlier
      have ha' := (List.takeWhile_sublist _).subset ha
      refine before_of_le ?_ ?_
      · rw [hdl a ha']; simpa [deadline] using List.mem_takeWhile_imp ha
      · simpa [Ne.symm (h.nodup.mem_erase_iff.mp ha').1] using (h.erase_sound u none).1 a ha'
    · -- every key behind it is due later
      left
      rw [hdl b ((List.dropWhile_sublist _).subset hb)]
      simpa [deadline] using lt_of_mem_dropWhile (deadline e.trackedKeys)
        (fun _ _ hab => hab.deadline_le) (h.sorted.sublist (List.erase_sublist _ _)) b hb

/-- A timeout keeps the order sound: it drops the due keys from the front of the order and from
tracking. -/
theorem expire (h : OrderSound e received) (now : Timestamp) :
    OrderSound (e.expire now) received := by
  rw [h.expire_eq now]
  generalize (fun k => decide (deadline e.trackedKeys k ≤ now)) = p
  have hdisj := List.disjoint_of_nodup_append
    ((List.takeWhile_append_dropWhile p e.expirationOrder).symm ▸ h.nodup)
  have hkeep : ∀ k ∈ e.expirationOrder.dropWhile p,
      (if k ∈ e.expirationOrder.takeWhile p then none else e.trackedKeys k) = e.trackedKeys k :=
    fun k hk => if_neg fun htw => hdisj htw hk
  refine ⟨h.nodup.sublist (List.dropWhile_sublist _), fun k => ?_,
    fun k hk => h.arrived k ((List.dropWhile_sublist _).subset hk),
    (h.sorted.sublist (List.dropWhile_sublist _)).imp_of_mem fun ha hb hab =>
      hab.congr (hkeep _ ha) (hkeep _ hb) rfl rfl⟩
  have hmem : k ∈ e.expirationOrder ↔
      k ∈ e.expirationOrder.takeWhile p ∨ k ∈ e.expirationOrder.dropWhile p := by
    rw [← List.mem_append, List.takeWhile_append_dropWhile]
  by_cases htw : k ∈ e.expirationOrder.takeWhile p
  · have hdrop : k ∉ e.expirationOrder.dropWhile p := fun hd => hdisj htw hd
    simp [htw, hdrop]
  · simp [htw, ← h.tracked k, hmem]

/-- An update leaves the loop waiting, its key set to the update's expiration. -/
theorem receive_waiting (h : OrderSound e received) (u : ExpirationUpdate) :
    (e.receive u).phase = .waiting ∧
      (e.receive u).trackedKeys = Function.update e.trackedKeys u.treeKey u.expiration := by
  cases hu : u.expiration with
  | none => simp [h.receive_none hu]
  | some expiration => simp [h.receive_some hu]

/-- The removal steps change only the phase, which the invariant does not read. -/
theorem withPhase (h : OrderSound e received) (phase : Phase) :
    OrderSound { e with phase } received :=
  ⟨h.nodup, h.tracked, h.arrived, h.sorted⟩

end OrderSound

/-! ## The task on its own -/

/-- One turn of `expiration_task`'s loop: an update it receives, or a timeout at `now` with no
update waiting. -/
inductive ExpirationEvent where
  | receive (u : ExpirationUpdate)
  | timeout (now : Timestamp)

/-- The blocking task of a removal batch (lines 483–490): `tree.remove(key)` for each key. -/
def removeBatch (tree : Tree) (keys : List String) : Tree :=
  keys.foldl (fun tree key => tree.set key none) tree

@[simp] theorem get_removeBatch (tree : Tree) (keys : List String) (k : String) :
    (removeBatch tree keys).get k = if k ∈ keys then none else tree.get k := by
  induction keys generalizing tree with
  | nil => simp [removeBatch]
  | cons key keys ih =>
    rw [removeBatch, List.foldl_cons, ← removeBatch, ih]
    by_cases hk : key = k
    · subst hk; simp
    · simp [hk, Ne.symm hk]

/-- `expiration_task` on its own: its state, the `kv` tree its removal batches delete from, and the
updates it has received (ghost). -/
structure ExpirationTask where
  expirer : Expirer
  tree : Tree
  received : List ExpirationUpdate

namespace ExpirationTask

/-- The task when the database opens on `tree`: nothing tracked. -/
def start (tree : Tree) : ExpirationTask := ⟨Expirer.init, tree, []⟩

/-- One turn of the loop; `none` when the event cannot happen: after a panic, or a timeout with
nothing tracked, when the loop waits on the channel alone (lines 442–446). -/
def step (s : ExpirationTask) : ExpirationEvent → Option ExpirationTask
  | .receive u =>
    if s.expirer.phase = .waiting then
      some { s with expirer := s.expirer.receive u, received := s.received ++ [u] }
    else none
  | .timeout now =>
    if s.expirer.phase = .waiting ∧ s.expirer.expirationOrder ≠ [] then
      let e := s.expirer.expire now
      match e.phase with
      | .removing _ keys =>
        some { s with expirer := { e with phase := .waiting }, tree := removeBatch s.tree keys }
      | _ => some { s with expirer := e }
    else none

/-- Turns one after another. -/
def run (s : ExpirationTask) : List ExpirationEvent → Option ExpirationTask
  | [] => some s
  | e :: es => (s.step e).bind (·.run es)

end ExpirationTask

/-! ## What the task is for -/

/-- Each key's deadline: as the latest update for it set it, until a timeout at or past it. -/
abbrev Deadlines := String → Option Timestamp

namespace Deadlines

/-- Whether `key`'s deadline has passed at `now`. -/
def due (m : Deadlines) (now : Timestamp) (key : String) : Bool :=
  match m key with
  | some d => decide (d ≤ now)
  | none => false

theorem due_iff {m : Deadlines} {now : Timestamp} {key : String} :
    m.due now key = true ↔ ∃ d, m key = some d ∧ d ≤ now := by
  unfold due
  split <;> simp_all

/-- An update sets its key's deadline, or clears it; a timeout forgets every deadline passed. -/
def step (m : Deadlines) : ExpirationEvent → Deadlines
  | .receive u => Function.update m u.treeKey u.expiration
  | .timeout now => fun key => if m.due now key then none else m key

/-- Events one after another. -/
def run (m : Deadlines) : List ExpirationEvent → Deadlines
  | [] => m
  | e :: es => (m.step e).run es

end Deadlines

/-- The task is waiting, its order is sound, and it tracks exactly the deadlines `m`. -/
structure ExpirationTask.Tracks (s : ExpirationTask) (m : Deadlines) : Prop where
  waiting : s.expirer.phase = .waiting
  sound : OrderSound s.expirer s.received
  deadlines : s.expirer.trackedKeys = m

namespace ExpirationTask.Tracks

variable {s : ExpirationTask} {m : Deadlines}

theorem start (tree : Tree) : Tracks (ExpirationTask.start tree) fun _ => none :=
  ⟨rfl, OrderSound.init, rfl⟩

/-- Every update is taken, and sets or clears its key's deadline. -/
theorem receive (h : Tracks s m) (u : ExpirationUpdate) :
    ∃ s', s.step (.receive u) = some s' ∧ Tracks s' (m.step (.receive u)) := by
  obtain ⟨hw, ht⟩ := h.sound.receive_waiting u
  exact ⟨_, if_pos h.waiting, hw, h.sound.receive u, by rw [ht, h.deadlines]; rfl⟩

/-- A timeout with keys tracked untracks exactly the due keys, and deletes exactly them from the
tree. -/
theorem timeout (h : Tracks s m) (now : Timestamp) (hne : s.expirer.expirationOrder ≠ []) :
    ∃ s', s.step (.timeout now) = some s' ∧ Tracks s' (m.step (.timeout now)) ∧
      ∀ k, s'.tree.get k = if m.due now k then none else s.tree.get k := by
  have hdue : ∀ k, k ∈ s.expirer.expirationOrder.takeWhile
      (fun k => decide (deadline s.expirer.trackedKeys k ≤ now)) ↔ m.due now k = true :=
    fun k => by rw [h.sound.mem_takeWhile_iff, Deadlines.due_iff, h.deadlines]
  have hstep : s.step (.timeout now) = some { s with
      expirer := { s.expirer.expire now with phase := .waiting },
      tree := removeBatch s.tree (s.expirer.expirationOrder.takeWhile
        (fun k => decide (deadline s.expirer.trackedKeys k ≤ now))) } := by
    simp only [ExpirationTask.step, h.waiting, ne_eq, hne, not_false_eq_true, and_self, if_true,
      h.sound.expire_eq]
  refine ⟨_, hstep, ⟨rfl, (h.sound.expire now).withPhase .waiting, ?_⟩, fun k => ?_⟩
  · funext k
    simp only [h.sound.expire_eq, Deadlines.step, hdue]
    rw [h.deadlines]
  · simp only [get_removeBatch, hdue]

/-- Every turn keeps the invariant, and moves the tracked deadlines as `Deadlines` does. -/
theorem step (h : Tracks s m) {ev : ExpirationEvent} {s' : ExpirationTask}
    (hs : s.step ev = some s') : Tracks s' (m.step ev) := by
  cases ev with
  | receive u =>
    obtain ⟨s'', hs'', ht⟩ := h.receive u
    exact (Option.some.inj (hs.symm.trans hs'')) ▸ ht
  | timeout now =>
    by_cases hne : s.expirer.expirationOrder = []
    · simp [ExpirationTask.step, hne] at hs
    · obtain ⟨s'', hs'', ht, -⟩ := h.timeout now hne
      exact (Option.some.inj (hs.symm.trans hs'')) ▸ ht

theorem run (h : Tracks s m) {es : List ExpirationEvent} {s' : ExpirationTask}
    (hs : s.run es = some s') : Tracks s' (m.run es) := by
  induction es generalizing s m with
  | nil => cases hs; exact h
  | cons e es ih =>
    obtain ⟨s₁, h₁, h₂⟩ := Option.bind_eq_some.mp hs
    exact ih (h.step h₁) h₂

end ExpirationTask.Tracks

/-- Updates for `"a"` at 5, `"b"` at 3 and `"c"` at 5, then a timeout at 4. -/
def threeDeadlines : List ExpirationEvent :=
  [.receive ⟨"a", some 5⟩, .receive ⟨"b", some 3⟩, .receive ⟨"c", some 5⟩, .timeout 4]

/-- The task after `threeDeadlines`. -/
def threeDeadlinesTask : ExpirationTask :=
  ((ExpirationTask.start []).run threeDeadlines).getD (ExpirationTask.start [])

/-- After any run of `expiration_task`, over any updates and timeouts, the loop is waiting (no
`unwrap` failed), `expiration_order` lists each tracked key once and no other, and it is sorted
by deadline, keys of one deadline in the order their updates arrived. -/
theorem expiration_order_sorted {tree : Tree} {es : List ExpirationEvent} {s : ExpirationTask}
    (h : (ExpirationTask.start tree).run es = some s) :
    s.expirer.phase = .waiting ∧ s.expirer.expirationOrder.Nodup ∧
      (∀ k, k ∈ s.expirer.expirationOrder ↔ (s.expirer.trackedKeys k).isSome) ∧
      s.expirer.expirationOrder.Pairwise (Before s.expirer.trackedKeys (lastArrival s.received)) :=
  have hs := (ExpirationTask.Tracks.start tree).run h
  ⟨hs.waiting, hs.sound.nodup, hs.sound.tracked, hs.sound.sorted⟩

/-- The timeout takes `"b"`, and `"a"` stays ahead of `"c"`, whose equal deadline arrived later. -/
theorem threeDeadlines_sorted :
    (ExpirationTask.start []).run threeDeadlines = some threeDeadlinesTask ∧
      threeDeadlinesTask.expirer.expirationOrder = ["a", "c"] ∧
      threeDeadlinesTask.expirer.phase = .waiting ∧
      threeDeadlinesTask.expirer.expirationOrder.Nodup ∧
      (∀ k, k ∈ threeDeadlinesTask.expirer.expirationOrder ↔
        (threeDeadlinesTask.expirer.trackedKeys k).isSome) ∧
      threeDeadlinesTask.expirer.expirationOrder.Pairwise
        (Before threeDeadlinesTask.expirer.trackedKeys (lastArrival threeDeadlinesTask.received)) :=
  have h : (ExpirationTask.start []).run threeDeadlines = some threeDeadlinesTask := rfl
  ⟨h, rfl, expiration_order_sorted h⟩

/-- After any run of `expiration_task`, `tracked_keys` holds exactly the deadlines the updates
set and no timeout has passed; the next timeout at `now` untracks, and deletes from the tree,
exactly the tracked keys whose deadline is at most `now`. -/
theorem expiration_task_tracks_deadlines {tree : Tree} {es : List ExpirationEvent}
    {s : ExpirationTask} (h : (ExpirationTask.start tree).run es = some s) :
    s.expirer.trackedKeys = Deadlines.run (fun _ => none) es ∧
      ∀ now, s.expirer.expirationOrder ≠ [] → ∃ s', s.step (.timeout now) = some s' ∧
        (∀ k, s'.expirer.trackedKeys k =
          if (Deadlines.run (fun _ => none) es).due now k then none else s.expirer.trackedKeys k) ∧
        ∀ k, s'.tree.get k =
          if (Deadlines.run (fun _ => none) es).due now k then none else s.tree.get k := by
  have hs := (ExpirationTask.Tracks.start tree).run h
  refine ⟨hs.deadlines, fun now hne => ?_⟩
  obtain ⟨s', hstep, ht, htree⟩ := hs.timeout now hne
  exact ⟨s', hstep, fun k => by rw [ht.deadlines, hs.deadlines]; rfl, htree⟩

theorem threeDeadlines_tracked :
    (ExpirationTask.start []).run threeDeadlines = some threeDeadlinesTask ∧
      threeDeadlinesTask.expirer.trackedKeys = Deadlines.run (fun _ => none) threeDeadlines :=
  have h : (ExpirationTask.start []).run threeDeadlines = some threeDeadlinesTask := rfl
  ⟨h, (expiration_task_tracks_deadlines h).1⟩

/-! ## In the whole engine -/

/-- In every interleaving of the engine, the expirer never panics and its order stays sound. -/
theorem Reachable.orderSound {s : KvSystem} (hs : Reachable s) :
    s.expirer.phase ≠ .panicked ∧ OrderSound s.expirer s.received := by
  induction hs with
  | start tree ops => exact ⟨by simp [KvSystem.start, Expirer.init], OrderSound.init⟩
  | step e _ he ih =>
    obtain ⟨hp, hsound⟩ := ih
    cases e <;> simp only [KvSystem.step] at he
    case thread i =>
      obtain ⟨t, -, he⟩ := Option.bind_eq_some.mp he
      obtain ⟨_, -, rfl⟩ := Option.map_eq_some'.mp he
      exact ⟨hp, hsound⟩
    case receive =>
      split at he <;> cases he
      exact ⟨by simp [(hsound.receive_waiting _).1], hsound.receive _⟩
    case expire now =>
      split at he <;> cases he
      exact ⟨by simp [hsound.expire_eq], hsound.expire now⟩
    case remove =>
      split at he <;> cases he
      all_goals exact ⟨by simp, hsound.withPhase _⟩
    case load | forward =>
      split at he <;> cases he
      exact ⟨hp, hsound⟩

end BonsaiDb.KeyValue
