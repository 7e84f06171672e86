import BonsaiDb.KeyValue.System
import BonsaiDb.KeyValue.Numeric
import Mathlib.Data.List.Nodup

/-!
# Key/value — numeric operations are linearizable

`execute_numeric_operation` (`keyvalue.rs` 272–328) reads the stored entry, applies its
operation to the number there, and writes the result with `compare_and_swap` against what it
read; on a conflict it starts over from the entry the conflict reports. Only the winning attempt
writes, and it writes the operation applied to the number stored at that instant.

So over every interleaving of numeric operations on one key (any operation, amount and
`saturating`) with operations on other keys, the expiration task and the `ExpirationLoader`, the
operations that have returned, taken in the order their swaps won, form a serial history: the
key holds its first number with them applied in that order, and each returned the number right
after its own turn (`numeric_operations_linearizable`). `execute_set_operation` does not have
this property (`KeyValue.SetRetry`).

* The key starts vacant or holding a number with no expiration. Numeric operations keep the
  entry's expiration, so the loader never reports the key and the expirer never tracks it.
* The order is carried as an existential of the invariant (`Linearization`), extended by one
  index at each winning swap.
-/

namespace BonsaiDb.KeyValue

/-- The arguments of one `execute_numeric_operation`: the operation, the amount, `saturating`. -/
structure NumericCall where
  op : NumericOp
  amount : Numeric
  saturating : Bool

/-- An entry the numeric operations keep: a number, with no expiration. -/
def Entry.IsNumber (e : Entry) : Prop :=
  e.expiration = none ∧ ∃ n, e.value = .numeric n

namespace NumericCall

/-- The command of the `KeyOperation`, which `execute_key_operation` hands to
`execute_increment_operation` or `execute_decrement_operation`. -/
def command (c : NumericCall) : Command := .numeric c.op c.amount c.saturating

/-- The number the call stores when it finds `n`. -/
def apply (c : NumericCall) (n : Numeric) : Numeric := c.op n c.amount c.saturating

/-- Where the call can be: not started, in an attempt against what the key can hold, or
returned. -/
def At (c : NumericCall) : Pc → Prop
  | .start command => command = c.command
  | .numericSwap op amount saturating current =>
    op = c.op ∧ amount = c.amount ∧ saturating = c.saturating ∧
      ∀ e, current = some e → e.IsNumber
  | .done _ => True
  | _ => False

end NumericCall

/-- The key operations `calls`, all on `key`. -/
def numericOps (key : String) (calls : List NumericCall) : List (String × Command) :=
  calls.map fun c => (key, c.command)

/-- The number `execute_numeric_operation` finds under `key`: `UnsignedInteger(0)` when the key
is vacant. -/
def storedNumber (t : Tree) (key : String) : Numeric :=
  match (numericEntry (t.get key)).value with
  | .numeric n => n
  | .bytes _ => .unsignedInteger 0

/-- `n` with the calls at the indices of `order` applied in turn. -/
def applyInOrder (calls : List NumericCall) (n : Numeric) (order : List Nat) : Numeric :=
  order.foldl (fun n i => ((calls[i]?).map (·.apply n)).getD n) n

theorem applyInOrder_cons (calls : List NumericCall) (n : Numeric) (i : Nat) (order : List Nat) :
    applyInOrder calls n (i :: order) =
      applyInOrder calls (((calls[i]?).map (·.apply n)).getD n) order := rfl

theorem applyInOrder_append_single {calls : List NumericCall} {i : Nat} {c : NumericCall}
    (hc : calls[i]? = some c) (n : Numeric) (order : List Nat) :
    applyInOrder calls n (order ++ [i]) = c.apply (applyInOrder calls n order) := by
  simp [applyInOrder, hc]

/-- What an attempt reads from a key that holds a number or nothing. -/
theorem numericEntry_of_number {current : Option Entry}
    (h : ∀ e, current = some e → e.IsNumber) :
    (numericEntry current).expiration = none ∧
      ∃ n, (numericEntry current).value = .numeric n := by
  cases current with
  | none => exact ⟨rfl, _, rfl⟩
  | some e => exact h e rfl

/-- An attempt of `execute_numeric_operation` on a stored number: it wins and stores `op` of
it when the key still holds what the attempt read, and starts over from what it holds
otherwise. -/
theorem Pc.step_numericSwap {key : String} {tree : Tree} {op : NumericOp} {amount : Numeric}
    {saturating : Bool} {current : Option Entry} {n : Numeric}
    (hn : (numericEntry current).value = .numeric n) :
    (Pc.numericSwap op amount saturating current).step key tree =
      some (if tree.get key = current then
        (.done (.ok (.value (some (.numeric (op n amount saturating))))),
          tree.set key
            (some { numericEntry current with value := .numeric (op n amount saturating) }),
          [])
      else (.numericSwap op amount saturating (tree.get key), tree, [])) := by
  simp only [Pc.step, hn, Tree.compareAndSwap]
  split_ifs <;> rfl

/-- Thread `j` after thread `i` is replaced by `t'`. -/
theorem getElem?_set_threads {threads : List KvThread} {i j : Nat} {t t'' : KvThread}
    (ht : threads[i]? = some t) (t' : KvThread) (h : (threads.set i t')[j]? = some t'') :
    i = j ∧ t'' = t' ∨ i ≠ j ∧ threads[j]? = some t'' := by
  by_cases hji : i = j
  · subst hji
    rw [List.getElem?_set_self (List.getElem?_eq_some_iff.mp ht).1] at h
    exact .inl ⟨rfl, (Option.some.inj h).symm⟩
  · rw [List.getElem?_set_ne hji] at h
    exact .inr ⟨hji, h⟩

/-! ## The serial order -/

/-- `order` lists the calls that have returned, each once, in the order their swaps won: the key
holds `first` with them applied in that order, and the `k`-th returned the number after the
first `k + 1`. -/
structure Linearization (calls : List NumericCall) (first stored : Numeric)
    (threads : List KvThread) (order : List Nat) : Prop where
  nodup : order.Nodup
  returned : ∀ i, i ∈ order ↔ i < calls.length ∧ ∃ t, threads[i]? = some t ∧ t.result.isSome
  stored : stored = applyInOrder calls first order
  outputs : ∀ (k i : Nat) (t : KvThread), order[k]? = some i → threads[i]? = some t →
    t.result = some (.ok (.value (some (.numeric (applyInOrder calls first (order.take (k + 1)))))))

namespace Linearization

variable {calls : List NumericCall} {first stored : Numeric} {threads : List KvThread}
  {order : List Nat}

/-- A step of a thread that neither returns a call nor had returned one keeps the order. -/
theorem setThread (h : Linearization calls first stored threads order) {i : Nat} {t : KvThread}
    (ht : threads[i]? = some t) (t' : KvThread) (hi : i ∉ order)
    (hres : i < calls.length → t'.result = none) :
    Linearization calls first stored (threads.set i t') order where
  nodup := h.nodup
  returned j := by
    rw [h.returned j]
    refine and_congr_right fun hj => ⟨fun ⟨t'', ht'', hr⟩ => ⟨t'', ?_, hr⟩, ?_⟩
    · have hij : i ≠ j := fun hij =>
        hi (by rw [hij]; exact (h.returned j).mpr ⟨hj, t'', ht'', hr⟩)
      rw [List.getElem?_set_ne hij]
      exact ht''
    · rintro ⟨t'', ht'', hr⟩
      rcases getElem?_set_threads ht t' ht'' with ⟨rfl, rfl⟩ | ⟨-, ht''⟩
      · simp [hres hj] at hr
      · exact ⟨t'', ht'', hr⟩
  stored := h.stored
  outputs k j t'' hk ht'' := by
    have hj : j ∈ order := List.mem_iff_getElem?.mpr ⟨k, hk⟩
    rcases getElem?_set_threads ht t' ht'' with ⟨rfl, -⟩ | ⟨-, ht''⟩
    · exact absurd hj hi
    · exact h.outputs k j t'' hk ht''

/-- A call whose thread has not returned is not in the order. -/
theorem not_mem_of_pending (h : Linearization calls first stored threads order) {i : Nat}
    {t : KvThread} (ht : threads[i]? = some t) (hpending : t.result = none) : i ∉ order :=
  fun hi => by
    obtain ⟨-, t'', ht'', hr⟩ := (h.returned i).mp hi
    rw [ht] at ht''
    cases ht''
    simp [hpending] at hr

/-- The winning swap of call `i` puts it last in the order, with the number it stored. -/
theorem commit (h : Linearization calls first stored threads order) {i : Nat} {c : NumericCall}
    {t : KvThread} (hc : calls[i]? = some c) (ht : threads[i]? = some t)
    (hpending : t.result = none) (key : String) :
    Linearization calls first (c.apply stored)
      (threads.set i ⟨key, .done (.ok (.value (some (.numeric (c.apply stored)))))⟩)
      (order ++ [i]) := by
  have hi : i ∉ order := h.not_mem_of_pending ht hpending
  have hlen : i < calls.length := (List.getElem?_eq_some_iff.mp hc).1
  have hlast : applyInOrder calls first (order ++ [i]) = c.apply stored := by
    rw [applyInOrder_append_single hc, h.stored]
  refine ⟨List.nodup_append.mpr
      ⟨h.nodup, List.nodup_singleton i, List.disjoint_singleton.mpr hi⟩,
    fun j => ?_, hlast.symm, fun k j t'' hk ht'' => ?_⟩
  · rw [List.mem_append, List.mem_singleton, h.returned j]
    by_cases hij : i = j
    · subst hij
      simp [List.getElem?_set_self (List.getElem?_eq_some_iff.mp ht).1, hlen, KvThread.result]
    · rw [List.getElem?_set_ne hij]
      exact ⟨fun h' => h'.resolve_right (Ne.symm hij), .inl⟩
  · rcases Nat.lt_or_ge k order.length with hk' | hk'
    · rw [List.getElem?_append_left hk'] at hk
      have hj : j ≠ i := fun hji => hi (hji ▸ List.mem_iff_getElem?.mpr ⟨k, hk⟩)
      rw [List.getElem?_set_ne (Ne.symm hj)] at ht''
      rw [List.take_append_of_le_length hk', h.outputs k j t'' hk ht'']
    · rw [List.getElem?_append_right hk'] at hk
      obtain ⟨hk₀, rfl⟩ : k - order.length = 0 ∧ i = j := by
        simpa [List.getElem?_cons, Nat.sub_eq_zero_iff_le] using hk
      rw [List.getElem?_set_self (List.getElem?_eq_some_iff.mp ht).1] at ht''
      cases ht''
      rw [List.take_of_length_le (by simp; omega), hlast]
      rfl

end Linearization

/-! ## The invariant -/

/-- The engine while threads `0` to `calls.length - 1` run the numeric operations `calls` on
`key` and the others run on other keys: the key holds a number or nothing, the returned calls
have a serial order, and no expiration update names the key. -/
structure NumericSound (key : String) (calls : List NumericCall) (first : Numeric)
    (s : KvSystem) : Prop where
  running : ∀ (i : Nat) (c : NumericCall) (t : KvThread), calls[i]? = some c →
    s.threads[i]? = some t → t.key = key ∧ c.At t.pc
  others : ∀ (i : Nat) (t : KvThread), calls.length ≤ i → s.threads[i]? = some t →
    t.key ≠ key
  entries : ∀ e, (key, e) ∈ s.tree → e.IsNumber
  linearized : ∃ order, Linearization calls first (storedNumber s.tree key) s.threads order
  updates : ∀ u ∈ s.updates, u.treeKey ≠ key
  loader : ∀ pending, s.loader = .forwarding pending → ∀ u ∈ pending, u.treeKey ≠ key
  tracked : s.expirer.trackedKeys key = none
  batch : ∀ now keys, s.expirer.phase = .removing now keys → key ∉ keys

namespace NumericSound

variable {key : String} {calls : List NumericCall} {first : Numeric} {s : KvSystem}

/-- The engine at a database open whose tree holds a number or nothing under `key`, with
`calls` on `key` followed by operations on other keys. -/
theorem start (key : String) (calls : List NumericCall) {others : List (String × Command)}
    {t : Tree} (hothers : ∀ p ∈ others, p.1 ≠ key)
    (ht : ∀ e, (key, e) ∈ t → e.IsNumber) :
    NumericSound key calls (storedNumber t key)
      (KvSystem.start t (numericOps key calls ++ others)) where
  running i c th hc hth := by
    have hi : i < (numericOps key calls).length := by
      simpa [numericOps] using (List.getElem?_eq_some_iff.mp hc).1
    have happ : (numericOps key calls ++ others)[i]? = some (key, c.command) := by
      rw [List.getElem?_append_left hi, numericOps, List.getElem?_map, hc]
      rfl
    simp only [KvSystem.start, List.getElem?_map, happ, Option.map_some', Option.some.injEq] at hth
    subst hth
    exact ⟨rfl, rfl⟩
  others i th hi hth := by
    have hi' : (numericOps key calls).length ≤ i := by simpa [numericOps] using hi
    simp only [KvSystem.start, List.getElem?_map, List.getElem?_append_right hi',
      Option.map_eq_some'] at hth
    obtain ⟨p, hp, rfl⟩ := hth
    exact hothers p (List.getElem?_mem hp)
  entries := ht
  linearized := ⟨[], List.nodup_nil, fun i => ⟨(nomatch ·), fun ⟨_, th, hth, hr⟩ => by
      simp only [KvSystem.start, List.getElem?_map, Option.map_eq_some'] at hth
      obtain ⟨_, -, rfl⟩ := hth
      simp [KvThread.start, KvThread.result] at hr⟩, rfl, fun _ _ _ h => nomatch h⟩
  updates _ h := nomatch h
  loader _ h := nomatch h
  tracked := rfl
  batch _ _ h := nomatch h

/-- Thread `i` replaced by `t'`: the threads of `calls` stay on the key at points their calls
can be, and the others stay off it. -/
theorem setThread (hs : NumericSound key calls first s) {i : Nat} {t : KvThread}
    (ht : s.threads[i]? = some t) (t' : KvThread)
    (hrunning : ∀ c, calls[i]? = some c → t'.key = key ∧ c.At t'.pc)
    (hother : calls.length ≤ i → t'.key ≠ key) :
    (∀ (j : Nat) (c : NumericCall) (t'' : KvThread), calls[j]? = some c →
      (s.threads.set i t')[j]? = some t'' → t''.key = key ∧ c.At t''.pc) ∧
    ∀ (j : Nat) (t'' : KvThread), calls.length ≤ j → (s.threads.set i t')[j]? = some t'' →
      t''.key ≠ key := by
  refine ⟨fun j c t'' hc ht'' => ?_, fun j t'' hj ht'' => ?_⟩
  · rcases getElem?_set_threads ht t' ht'' with ⟨rfl, rfl⟩ | ⟨-, ht''⟩
    · exact hrunning c hc
    · exact hs.running j c t'' hc ht''
  · rcases getElem?_set_threads ht t' ht'' with ⟨rfl, rfl⟩ | ⟨-, ht''⟩
    · exact hother hj
    · exact hs.others j t'' hj ht''

/-- A step of a thread on another key touches neither the key nor its expiration. -/
theorem stepOther (hs : NumericSound key calls first s) {i : Nat} {t : KvThread} {pc : Pc}
    {tree : Tree} {sent : List ExpirationUpdate} (ht : s.threads[i]? = some t)
    (hi : calls.length ≤ i) (hpc : t.pc.step t.key s.tree = some (pc, tree, sent)) :
    NumericSound key calls first
      { s with tree, threads := s.threads.set i ⟨t.key, pc⟩,
               updates := s.updates ++ sent } := by
  have hk : t.key ≠ key := hs.others i t hi ht
  have hmem : ∀ e, (key, e) ∈ tree ↔ (key, e) ∈ s.tree := by
    rcases Pc.step_tree hpc with rfl | ⟨v, rfl⟩
    · exact fun _ => Iff.rfl
    · exact fun _ => Tree.mem_set_of_ne _ _ hk
  have hstored : storedNumber tree key = storedNumber s.tree key := by
    rw [storedNumber, (Pc.step_frame hpc).1 key (Ne.symm hk), storedNumber]
  have hthreads := hs.setThread ht ⟨t.key, pc⟩
    (fun c hc => absurd (List.getElem?_eq_some_iff.mp hc).1 (by omega)) fun _ => hk
  obtain ⟨order, hlin⟩ := hs.linearized
  have hi' : i ∉ order := fun h => absurd ((hlin.returned i).mp h).1 (by omega)
  refine ⟨hthreads.1, hthreads.2, fun e he => hs.entries e ((hmem e).mp he),
    ⟨order, hstored ▸ hlin.setThread ht _ hi' fun h => absurd h (by omega)⟩,
    fun u hu => ?_, hs.loader, hs.tracked, hs.batch⟩
  rcases List.mem_append.mp hu with hu | hu
  · exact hs.updates u hu
  · rw [(Pc.step_frame hpc).2 u hu]
    exact hk

/-- A step of a numeric call: its first read, a lost attempt that starts over from what the
key holds, or the winning attempt, which stores the call applied to the stored number and puts
the call last in the order. -/
theorem stepCall (hs : NumericSound key calls first s) {i : Nat} {c : NumericCall}
    {t : KvThread} {pc : Pc} {tree : Tree} {sent : List ExpirationUpdate}
    (hc : calls[i]? = some c) (ht : s.threads[i]? = some t)
    (hpc : t.pc.step t.key s.tree = some (pc, tree, sent)) :
    NumericSound key calls first
      { s with tree, threads := s.threads.set i ⟨t.key, pc⟩,
               updates := s.updates ++ sent } := by
  obtain ⟨hk, hat⟩ := hs.running i c t hc ht
  have hi : i < calls.length := (List.getElem?_eq_some_iff.mp hc).1
  -- the thread moves to a point its call can be
  have hthreads : ∀ pc', c.At pc' → _ := fun pc' hat' => hs.setThread ht ⟨key, pc'⟩
    (fun c' hc' => by rw [hc] at hc'; cases hc'; exact ⟨rfl, hat'⟩)
    fun hj => absurd hi (by omega)
  obtain ⟨order, hlin⟩ := hs.linearized
  obtain ⟨k, pc₀⟩ := t
  dsimp only at hk hat hpc ⊢
  subst hk
  -- a step that only moves the thread to a point its call can be, short of returning
  have hmove : ∀ pc', c.At pc' → KvThread.result ⟨k, pc'⟩ = none →
      KvThread.result ⟨k, pc₀⟩ = none →
      NumericSound k calls first { s with threads := s.threads.set i ⟨k, pc'⟩ } := by
    intro pc' hat' hres' hres
    obtain ⟨hrunning, hothers⟩ := hthreads pc' hat'
    have hi' : i ∉ order := hlin.not_mem_of_pending ht hres
    exact { hs with running := hrunning, others := hothers,
                    linearized := ⟨order, hlin.setThread ht _ hi' fun _ => hres'⟩ }
  have hretry := fun hres => hmove (.numericSwap c.op c.amount c.saturating (s.tree.get k))
    ⟨rfl, rfl, rfl, fun e he => hs.entries e (Map.mem_of_get_eq_some he)⟩ rfl hres
  cases pc₀ with
  | start command =>
    subst hat
    simp only [NumericCall.command, Pc.step, Option.some.injEq, Prod.mk.injEq] at hpc
    obtain ⟨rfl, rfl, rfl⟩ := hpc
    simpa using hretry rfl
  | numericSwap op amount saturating current =>
    obtain ⟨rfl, rfl, rfl, hcur⟩ := hat
    obtain ⟨hexp, n, hn⟩ := numericEntry_of_number hcur
    rw [Pc.step_numericSwap hn] at hpc
    split_ifs at hpc with hget
    · -- the attempt wins
      simp only [Option.some.injEq, Prod.mk.injEq] at hpc
      obtain ⟨rfl, rfl, rfl⟩ := hpc
      have hold : storedNumber s.tree k = n := by simp [storedNumber, hget, hn]
      have hdone := hthreads (.done (.ok (.value (some (.numeric (c.apply n)))))) trivial
      refine { hs with running := hdone.1, others := hdone.2,
                       entries := fun e he => ?_, linearized := ⟨order ++ [i], ?_⟩,
                       updates := by simpa using hs.updates }
      · dsimp only at he
        cases Tree.eq_of_mem_set_self he
        exact ⟨hexp, _, rfl⟩
      · dsimp only
        rw [show storedNumber (s.tree.set k (some { numericEntry current with
            value := .numeric (c.op n c.amount c.saturating) })) k = c.apply n by
          simp [storedNumber, numericEntry, NumericCall.apply], ← hold]
        exact hlin.commit hc ht rfl k
    · -- the attempt loses and starts over from what the key holds
      simp only [Option.some.injEq, Prod.mk.injEq] at hpc
      obtain ⟨rfl, rfl, rfl⟩ := hpc
      simpa using hretry rfl
  | done r => simp [Pc.step] at hpc
  | setSwap _ _ _ => exact hat.elim
  | notify _ _ => exact hat.elim

/-- The expirer integrates an update, which never names the key. -/
theorem receive (hs : NumericSound key calls first s) {u : ExpirationUpdate}
    {rest : List ExpirationUpdate} (hup : s.updates = u :: rest) :
    NumericSound key calls first
      { s with expirer := s.expirer.receive u, updates := rest,
               received := s.received ++ [u] } := by
  obtain ⟨htk, hph⟩ := s.expirer.receive_of_ne (hs.updates u (by simp [hup]))
  exact { hs with
    updates := fun u' hu' => hs.updates u' (by simp [hup, hu'])
    tracked := htk.trans hs.tracked
    batch := fun now keys h => by
      dsimp only at h
      rcases hph with hph | hph <;> rw [hph] at h <;> cases h }

theorem expire (hs : NumericSound key calls first s) (now : Timestamp) :
    NumericSound key calls first { s with expirer := s.expirer.expire now } :=
  have h := s.expirer.expire_of_untracked now hs.tracked
  { hs with tracked := h.1, batch := h.2 }

/-- The removal batch deletes a key it took, which is never this one. -/
theorem remove (hs : NumericSound key calls first s) {now : Timestamp} {k : String}
    {keys : List String} (hph : s.expirer.phase = .removing now (k :: keys)) :
    NumericSound key calls first
      { s with tree := s.tree.set k none,
               expirer := { s.expirer with phase := .removing now keys } } := by
  have hk : k ≠ key := fun h => hs.batch now _ hph (h ▸ List.mem_cons_self _ _)
  have hstored : storedNumber (s.tree.set k none) key = storedNumber s.tree key := by
    rw [storedNumber, Tree.get_set_ne _ _ hk, storedNumber]
  refine { hs with entries := fun e he => hs.entries e ((Tree.mem_set_of_ne s.tree none hk).mp he),
                   linearized := hstored ▸ hs.linearized,
                   batch := fun now' keys' h hmem => ?_ }
  cases h
  exact hs.batch now _ hph (List.mem_cons_of_mem _ hmem)

theorem endBatch (hs : NumericSound key calls first s) :
    NumericSound key calls first { s with expirer := { s.expirer with phase := .waiting } } :=
  { hs with batch := fun _ _ h => by cases h }

/-- The loader's scan finds no expiration under the key. -/
theorem load (hs : NumericSound key calls first s) :
    NumericSound key calls first { s with loader := .forwarding (loaderScan s.tree) } := by
  refine { hs with loader := fun pending h u hu hk => ?_ }
  cases h
  obtain ⟨e, he, hexp⟩ := mem_loaderScan hu
  exact hexp (hs.entries e (hk ▸ he)).1

theorem forward (hs : NumericSound key calls first s) {u : ExpirationUpdate}
    {rest : List ExpirationUpdate} (hl : s.loader = .forwarding (u :: rest)) :
    NumericSound key calls first
      { s with loader := .forwarding rest, updates := s.updates ++ [u] } :=
  { hs with
    loader := fun pending h u' hu' => by
      cases h
      exact hs.loader _ hl u' (List.mem_cons_of_mem _ hu')
    updates := fun u' hu' => by
      rcases List.mem_append.mp hu' with hu' | hu'
      · exact hs.updates u' hu'
      · rw [List.mem_singleton.mp hu']
        exact hs.loader _ hl u (List.mem_cons_self _ _) }

/-- Every step of the engine keeps the invariant. -/
theorem step (hs : NumericSound key calls first s) {e : KvEvent} {s' : KvSystem}
    (h : s.step e = some s') : NumericSound key calls first s' := by
  cases e with
  | thread i =>
    obtain ⟨t, pc, tree, sent, ht, hpc, rfl⟩ := KvSystem.step_thread h
    cases hc : calls[i]? with
    | none => exact hs.stepOther ht (List.getElem?_eq_none_iff.mp hc) hpc
    | some c => exact hs.stepCall hc ht hpc
  | receive =>
    simp only [KvSystem.step] at h
    split at h <;> cases h
    exact hs.receive ‹_›
  | expire now =>
    simp only [KvSystem.step] at h
    split at h <;> cases h
    exact hs.expire now
  | remove =>
    simp only [KvSystem.step] at h
    split at h <;> cases h
    · exact hs.remove ‹_›
    · exact hs.endBatch
  | load =>
    simp only [KvSystem.step] at h
    split at h <;> cases h
    exact hs.load
  | forward =>
    simp only [KvSystem.step] at h
    split at h <;> cases h
    exact hs.forward ‹_›

theorem run (hs : NumericSound key calls first s) {es : List KvEvent} {s' : KvSystem}
    (h : s.run es = some s') : NumericSound key calls first s' := by
  induction es generalizing s with
  | nil => cases h; exact hs
  | cons e es ih =>
    obtain ⟨s₁, h₁, h₂⟩ := Option.bind_eq_some.mp h
    exact ih (hs.step h₁) h₂

end NumericSound

/-- Numeric operations on one key are linearizable. In every interleaving of numeric
operations `calls` on one key (threads `0` to `calls.length - 1`) with operations on other keys,
the expiration task and the `ExpirationLoader`, the calls that have returned can be listed once
each, in the order their swaps won, so that the key holds its first number with them applied in
that order, and the `k`-th of them returned the number after the first `k + 1`. The key starts
vacant or holding a number with no expiration. -/
theorem numeric_operations_linearizable {key : String} (calls : List NumericCall)
    {others : List (String × Command)} {t : Tree} (hothers : ∀ p ∈ others, p.1 ≠ key)
    (ht : ∀ e, (key, e) ∈ t → e.IsNumber) {es : List KvEvent} {s : KvSystem}
    (hrun : (KvSystem.start t (numericOps key calls ++ others)).run es = some s) :
    ∃ order : List Nat, order.Nodup ∧
      (∀ i, i ∈ order ↔ i < calls.length ∧ ∃ th, s.threads[i]? = some th ∧ th.result.isSome) ∧
      storedNumber s.tree key = applyInOrder calls (storedNumber t key) order ∧
      ∀ (k i : Nat) (th : KvThread), order[k]? = some i → s.threads[i]? = some th →
        th.result = some (.ok (.value (some (.numeric
          (applyInOrder calls (storedNumber t key) (order.take (k + 1))))))) := by
  obtain ⟨order, hlin⟩ := ((NumericSound.start key calls hothers ht).run hrun).linearized
  exact ⟨order, hlin.nodup, hlin.returned, hlin.stored, hlin.outputs⟩

/-- A saturating increment and a saturating decrement by `UnsignedInteger(1)`. -/
def saturatingPair : List NumericCall :=
  [⟨increment default, .unsignedInteger 1, true⟩, ⟨decrement default, .unsignedInteger 1, true⟩]

set_option maxRecDepth 4000 in
/-- Both read the vacant key; the decrement's swap wins and stores `0`, then the increment's
loses, reads again and wins, storing `1`: the key holds what the order decrement, increment
gives, which the other order would not. -/
theorem saturatingPair_linearized :
    ∃ s, (KvSystem.start [] (numericOps "k" saturatingPair ++ [])).run
        [.thread 0, .thread 1, .thread 1, .thread 0, .thread 0] = some s ∧
      storedNumber s.tree "k" = .unsignedInteger 1 ∧
      ∃ order : List Nat, order.Nodup ∧
        (∀ i, i ∈ order ↔
          i < saturatingPair.length ∧ ∃ th, s.threads[i]? = some th ∧ th.result.isSome) ∧
        storedNumber s.tree "k" = applyInOrder saturatingPair (storedNumber [] "k") order ∧
        ∀ (k i : Nat) (th : KvThread), order[k]? = some i → s.threads[i]? = some th →
          th.result = some (.ok (.value (some (.numeric
            (applyInOrder saturatingPair (storedNumber [] "k") (order.take (k + 1))))))) :=
  ⟨_, rfl, rfl, @numeric_operations_linearizable "k" saturatingPair [] [] (by simp) (by simp)
    [.thread 0, .thread 1, .thread 1, .thread 0, .thread 0] _ rfl⟩

end BonsaiDb.KeyValue
