import Mathlib.Logic.Function.Basic
import Mathlib.Data.List.Basic
import Mathlib.Algebra.Group.Int

/-!
# Client — request ids

`Client::send_request` (`client.rs` 443–456) takes its request's id from the `AtomicU32`
`request_id` of the client's shared `Data` with `fetch_add(1)`, which wraps. `process_requests`
(`quic_worker.rs` 112–128) inserts each request it sends in the `outstanding_requests` `HashMap`
under its id, replacing whatever was there; `process_response_payload` (`client.rs` 846–859)
removes a reply's id from the table and hands the reply to the responder it found there, and
panics with "missing responder" when there is none.

* A request is its id and the `send_request` call it belongs to. The call stands for its
  responder: a reply reaches the right request when the two calls agree.
* The server may answer the requests it holds in any order.
* Every id is its call modulo `2^32` (`IdsSound`), so while the client has made at most `2^32`
  calls each reply reaches the call the server answered (`delivered_to_answered`). The
  `2^32 + 1`st call takes the first call's id again.
-/

namespace BonsaiDb.Client

/-- A request `send_request` queued: the id it took from `request_id`, and its call. -/
structure Request where
  id : BitVec 32
  call : Nat
  deriving DecidableEq, Repr

/-- The shared `request_id`, the number of `send_request` calls made, the requests waiting in the
request channel, on their way to the server, and answered, the responder's call under each id of
`outstanding_requests`, each reply handed to a responder (the responder's call and the call the
server answered), and whether the reader panicked. -/
structure Requests where
  requestId : BitVec 32
  calls : Nat
  queued : List Request
  toServer : List Request
  toClient : List Request
  outstanding : BitVec 32 → Option Nat
  delivered : List (Nat × Nat)
  panicked : Bool

/-- One atomic step. -/
inductive RequestEvent where
  /-- `send_request`: `fetch_add` on `request_id`, then the request into the channel. -/
  | sendRequest
  /-- One iteration of `process_requests`: the oldest queued request sent and inserted. -/
  | processRequest
  /-- The server answers the `index`th request it holds. -/
  | reply (index : Nat)
  /-- One call of `process_response_payload`, on the oldest reply. -/
  | receive
  deriving DecidableEq, Repr

namespace Requests

/-- A new client's `Data`: `request_id` is `AtomicU32::default()`. -/
def start : Requests := ⟨0, 0, [], [], [], fun _ => none, [], false⟩

/-- One step, or `none` when the event is not enabled. -/
def step (s : Requests) : RequestEvent → Option Requests
  | .sendRequest =>
    some { s with requestId := s.requestId + 1, calls := s.calls + 1,
                  queued := s.queued ++ [⟨s.requestId, s.calls⟩] }
  | .processRequest =>
    match s.queued with
    | r :: rest =>
      some { s with queued := rest, toServer := s.toServer ++ [r],
                    outstanding := Function.update s.outstanding r.id (some r.call) }
    | [] => none
  | .reply index =>
    match s.toServer[index]? with
    | some r => some { s with toServer := s.toServer.eraseIdx index, toClient := s.toClient ++ [r] }
    | none => none
  | .receive =>
    match s.panicked, s.toClient with
    | false, r :: rest =>
      match s.outstanding r.id with
      | some call =>
        some { s with toClient := rest, outstanding := Function.update s.outstanding r.id none,
                      delivered := s.delivered ++ [(call, r.call)] }
      | none => some { s with toClient := rest, panicked := true }
    | _, _ => none

/-- Steps one after another. -/
def run (s : Requests) : List RequestEvent → Option Requests
  | [] => some s
  | e :: es => (s.step e).bind (·.run es)

theorem run_append (s : Requests) (es es' : List RequestEvent) :
    s.run (es ++ es') = (s.run es).bind (·.run es') := by
  induction es generalizing s with
  | nil => rfl
  | cons e es ih =>
    simp only [List.cons_append, run]
    cases s.step e <;> simp [ih]

end Requests

/-- The states a client reaches from a new `Data`, by any interleaving. -/
inductive Requests.Reachable : Requests → Prop where
  | start : Requests.Reachable Requests.start
  | step {s s' : Requests} (e : RequestEvent) : Requests.Reachable s → s.step e = some s' →
    Requests.Reachable s'

/-! ## Ids are calls modulo `2^32` -/

/-- Every id is its call modulo `2^32`, the next id included; every call seen is one made; and
each reply handed out went to a call congruent to the one the server answered. -/
structure IdsSound (s : Requests) : Prop where
  counter : s.requestId.toNat = s.calls % 2^32
  pending : ∀ r ∈ s.queued ++ s.toServer ++ s.toClient, r.id.toNat = r.call % 2^32 ∧ r.call < s.calls
  table : ∀ id call, s.outstanding id = some call → id.toNat = call % 2^32 ∧ call < s.calls
  delivered : ∀ p ∈ s.delivered, p.1 % 2^32 = p.2 % 2^32 ∧ p.1 < s.calls ∧ p.2 < s.calls

namespace IdsSound

variable {s s' : Requests}

theorem start : IdsSound Requests.start :=
  ⟨rfl, by simp [Requests.start], by simp [Requests.start], by simp [Requests.start]⟩

theorem sendRequest (h : IdsSound s) :
    IdsSound { s with requestId := s.requestId + 1, calls := s.calls + 1,
                      queued := s.queued ++ [⟨s.requestId, s.calls⟩] } := by
  have hone : (1 : BitVec 32).toNat = 1 := rfl
  have hlt : ∀ {n}, n < s.calls → n < s.calls + 1 := Nat.lt_succ_of_lt
  refine ⟨?_, fun r hr => ?_, fun id call hc => (h.table id call hc).imp_right hlt,
    fun p hp => (h.delivered p hp).imp_right (And.imp hlt hlt)⟩
  · show (s.requestId + 1).toNat = (s.calls + 1) % 2^32
    rw [BitVec.toNat_add, h.counter, hone]
    omega
  · simp only [List.mem_append, List.mem_singleton] at hr
    rcases hr with ((hr | rfl) | hr) | hr
    · exact (h.pending r (by simp [hr])).imp_right hlt
    · exact ⟨h.counter, Nat.lt_succ_self _⟩
    · exact (h.pending r (by simp [hr])).imp_right hlt
    · exact (h.pending r (by simp [hr])).imp_right hlt

theorem processRequest (h : IdsSound s) {r : Request} {rest : List Request}
    (hq : s.queued = r :: rest) :
    IdsSound { s with queued := rest, toServer := s.toServer ++ [r],
                      outstanding := Function.update s.outstanding r.id (some r.call) } := by
  have hr := h.pending r (by simp [hq])
  refine ⟨h.counter, fun r' hr' => h.pending r' ?_, fun id call hc => ?_, h.delivered⟩
  · simp only [hq, List.mem_append, List.mem_cons, List.mem_singleton] at hr' ⊢
    tauto
  · by_cases hid : id = r.id
    · subst hid
      simp only [Function.update_same, Option.some.injEq] at hc
      exact hc ▸ hr
    · exact h.table id call (by simpa [Function.update_noteq hid] using hc)

theorem reply (h : IdsSound s) {index : Nat} {r : Request} (ht : s.toServer[index]? = some r) :
    IdsSound { s with toServer := s.toServer.eraseIdx index, toClient := s.toClient ++ [r] } := by
  refine ⟨h.counter, fun r' hr' => h.pending r' ?_, h.table, h.delivered⟩
  simp only [List.mem_append, List.mem_singleton] at hr' ⊢
  rcases hr' with (hr' | hr') | hr' | rfl
  · exact .inl (.inl hr')
  · exact .inl (.inr (List.mem_of_mem_eraseIdx hr'))
  · exact .inr hr'
  · exact .inl (.inr (List.getElem?_mem ht))

/-- The reader hands a reply to the call that the table holds under the reply's id: the two
calls are congruent, as both are that id. -/
theorem receive (h : IdsSound s) {r : Request} {rest : List Request} (hc : s.toClient = r :: rest)
    {call : Nat} (hcall : s.outstanding r.id = some call) :
    IdsSound { s with toClient := rest, outstanding := Function.update s.outstanding r.id none,
                      delivered := s.delivered ++ [(call, r.call)] } := by
  have hr := h.pending r (by simp [hc])
  have ht := h.table r.id call hcall
  refine ⟨h.counter, fun r' hr' => h.pending r' ?_, fun id c hid => ?_, fun p hp => ?_⟩
  · simp only [hc, List.mem_append, List.mem_cons] at hr' ⊢
    tauto
  · by_cases hid' : id = r.id
    · subst hid'; simp at hid
    · exact h.table id c (by simpa [Function.update_noteq hid'] using hid)
  · simp only [List.mem_append, List.mem_singleton] at hp
    rcases hp with hp | rfl
    · exact h.delivered p hp
    · exact ⟨ht.1.symm.trans hr.1, ht.2, hr.2⟩

theorem panic (h : IdsSound s) {r : Request} {rest : List Request}
    (hc : s.toClient = r :: rest) : IdsSound { s with toClient := rest, panicked := true } := by
  refine ⟨h.counter, fun r' hr' => h.pending r' ?_, h.table, h.delivered⟩
  simp only [hc, List.mem_append, List.mem_cons] at hr' ⊢
  tauto

theorem step (h : IdsSound s) {e : RequestEvent} (hs : s.step e = some s') : IdsSound s' := by
  cases e <;> simp only [Requests.step] at hs
  case sendRequest => cases hs; exact h.sendRequest
  case processRequest =>
    split at hs
    · next hq => cases hs; exact h.processRequest hq
    · cases hs
  case reply index =>
    split at hs
    · next ht => cases hs; exact h.reply ht
    · cases hs
  case receive =>
    split at hs
    · next hc =>
      split at hs
      · next hcall => cases hs; exact h.receive hc hcall
      · cases hs; exact h.panic hc
    · cases hs

end IdsSound

theorem Requests.Reachable.idsSound {s : Requests} (h : Requests.Reachable s) : IdsSound s := by
  induction h with
  | start => exact .start
  | step e _ hs ih => exact ih.step hs

theorem Requests.Reachable.run {s s' : Requests} (h : Requests.Reachable s) {es : List RequestEvent}
    (hrun : s.run es = some s') : Requests.Reachable s' := by
  induction es generalizing s with
  | nil => cases hrun; exact h
  | cons e es ih =>
    obtain ⟨s₁, h₁, h₂⟩ := Option.bind_eq_some.mp hrun
    exact ih (h.step e h₁) h₂

/-- While the client has made at most `2^32` calls, every reply handed to a responder is the
reply to that responder's own request. -/
theorem delivered_to_answered {s : Requests} (h : Requests.Reachable s) (hcalls : s.calls ≤ 2^32) :
    ∀ p ∈ s.delivered, p.1 = p.2 := by
  intro p hp
  obtain ⟨hmod, h1, h2⟩ := h.idsSound.delivered p hp
  rwa [Nat.mod_eq_of_lt (by omega), Nat.mod_eq_of_lt (by omega)] at hmod

/-- One call sent, inserted, answered and handed out. -/
def oneRoundTrip : Requests :=
  (Requests.start.run [.sendRequest, .processRequest, .reply 0, .receive]).getD Requests.start

theorem oneRoundTrip_delivered_to_answered :
    Requests.Reachable oneRoundTrip ∧ oneRoundTrip.calls ≤ 2^32 ∧
      ∀ p ∈ oneRoundTrip.delivered, p.1 = p.2 :=
  have hr : Requests.Reachable oneRoundTrip := @Requests.Reachable.run _ _ .start
    [.sendRequest, .processRequest, .reply 0, .receive] rfl
  ⟨hr, by decide, delivered_to_answered hr (by decide)⟩

/-! ## Each reply handed out at most once -/

/-- Removing the `i`th element of a list leaves the rest of it. -/
theorem perm_cons_eraseIdx {α : Type} : ∀ {l : List α} {i : Nat} {a : α}, l[i]? = some a →
    l.Perm (a :: l.eraseIdx i)
  | [], _, _, h => by simp at h
  | b :: l, 0, a, h => by
    simp only [List.getElem?_cons_zero, Option.some.injEq] at h
    subst h
    exact .refl _
  | b :: l, i + 1, a, h => by
    rw [List.eraseIdx_cons_succ]
    exact ((perm_cons_eraseIdx (by simpa using h)).cons b).trans (.swap _ _ _)

/-- Each call's request is in one place at a time, and gone once its reply is handed out; each
responder is handed at most one reply; the table holds each responder under one id at most, and
only responders neither handed a reply nor still queued. -/
structure RepliesOnce (s : Requests) : Prop where
  calls : ((s.queued ++ s.toServer ++ s.toClient).map (·.call) ++ s.delivered.map (·.2)).Nodup
  responders : (s.delivered.map (·.1)).Nodup
  table : ∀ id id' call, s.outstanding id = some call → s.outstanding id' = some call →
    id = id'
  fresh : ∀ id call, s.outstanding id = some call →
    call ∉ s.delivered.map (·.1) ∧ ∀ r ∈ s.queued, r.call ≠ call
  queued : ∀ r ∈ s.queued, r.call ∉ s.delivered.map (·.1)

namespace RepliesOnce

variable {s : Requests}

theorem start : RepliesOnce Requests.start where
  calls := by simp [Requests.start]
  responders := by simp [Requests.start]
  table _ _ _ h := by cases h
  fresh _ _ h := by cases h
  queued _ h := by cases h

/-- A new call is numbered past every call seen, so it is in no queue and was handed nothing. -/
theorem sendRequest (h : RepliesOnce s) (hi : IdsSound s) :
    RepliesOnce { s with requestId := s.requestId + 1, calls := s.calls + 1,
                         queued := s.queued ++ [⟨s.requestId, s.calls⟩] } := by
  have hnew : s.calls ∉
      (s.queued ++ s.toServer ++ s.toClient).map (·.call) ++ s.delivered.map (·.2) := by
    intro hmem
    rcases List.mem_append.mp hmem with hmem | hmem
    · obtain ⟨r, hr, hrc⟩ := List.mem_map.mp hmem
      have := (hi.pending r hr).2
      omega
    · obtain ⟨p, hp, hpc⟩ := List.mem_map.mp hmem
      have := (hi.delivered p hp).2.2
      omega
  have hperm : ((s.queued ++ [(⟨s.requestId, s.calls⟩ : Request)] ++ s.toServer ++
      s.toClient).map (·.call) ++
      s.delivered.map (·.2)).Perm
      (s.calls :: ((s.queued ++ s.toServer ++ s.toClient).map (·.call) ++
        s.delivered.map (·.2))) := by
    refine List.perm_iff_count.mpr fun a => ?_
    simp only [List.map_append, List.map_cons, List.map_nil, List.count_append, List.count_cons,
      List.count_nil]
    omega
  refine ⟨hperm.nodup_iff.mpr (List.nodup_cons.mpr ⟨hnew, h.calls⟩), h.responders, h.table,
    fun id c hc => ⟨(h.fresh id c hc).1, fun r hr => ?_⟩, fun r hr => ?_⟩
  · rcases List.mem_append.mp hr with hr | hr
    · exact (h.fresh id c hc).2 r hr
    · have := (hi.table id c hc).2
      rw [List.mem_singleton.mp hr]
      exact Nat.ne_of_gt this
  · rcases List.mem_append.mp hr with hr | hr
    · exact h.queued r hr
    · rw [List.mem_singleton.mp hr]
      intro hmem
      obtain ⟨p, hp, hpc⟩ := List.mem_map.mp hmem
      have := (hi.delivered p hp).2.1
      dsimp only at hpc
      omega

/-- `process_requests` moves the oldest queued request to the wire and the table; its
responder is in neither the table nor the handed-out list. -/
theorem processRequest (h : RepliesOnce s) {r : Request} {rest : List Request}
    (hq : s.queued = r :: rest) :
    RepliesOnce { s with queued := rest, toServer := s.toServer ++ [r],
                         outstanding := Function.update s.outstanding r.id (some r.call) } := by
  have hr : r ∈ s.queued := by simp [hq]
  have hrest : ∀ r' ∈ rest, r'.call ≠ r.call := by
    have hnd := h.calls
    rw [hq] at hnd
    simp only [List.cons_append, List.map_cons, List.nodup_cons, List.mem_append,
      List.mem_map] at hnd
    exact fun r' hr' hc => hnd.1 (.inl ⟨r', .inl (.inl hr'), hc⟩)
  have hperm : ((rest ++ (s.toServer ++ [r]) ++ s.toClient).map (·.call) ++
      s.delivered.map (·.2)).Perm
      ((s.queued ++ s.toServer ++ s.toClient).map (·.call) ++ s.delivered.map (·.2)) := by
    refine List.perm_iff_count.mpr fun a => ?_
    simp only [hq, List.map_append, List.map_cons, List.map_nil, List.count_append,
      List.count_cons, List.count_nil, List.cons_append]
    omega
  -- a responder the table holds is not `r`'s, which is still queued
  have hnot : ∀ id, s.outstanding id ≠ some r.call := fun id hid =>
    (h.fresh id _ hid).2 r hr rfl
  refine ⟨hperm.nodup_iff.mpr h.calls, h.responders, fun id id' c hid hid' => ?_,
    fun id c hc => ?_, fun r' hr' => h.queued r' (by simp [hq, hr'])⟩
  · by_cases hi : id = r.id <;> by_cases hi' : id' = r.id
    · exact hi.trans hi'.symm
    · subst hi
      simp only [Function.update_same, Option.some.injEq, Function.update_noteq hi'] at hid hid'
      exact absurd (hid ▸ hid') (hnot id')
    · subst hi'
      simp only [Function.update_same, Option.some.injEq, Function.update_noteq hi] at hid hid'
      exact absurd (hid' ▸ hid) (hnot id)
    · simp only [Function.update_noteq hi, Function.update_noteq hi'] at hid hid'
      exact h.table id id' c hid hid'
  · dsimp only at hc ⊢
    by_cases hi : id = r.id
    · subst hi
      simp only [Function.update_same, Option.some.injEq] at hc
      subst hc
      exact ⟨h.queued r hr, hrest⟩
    · rw [Function.update_noteq hi] at hc
      exact ⟨(h.fresh id c hc).1, fun r' hr' => (h.fresh id c hc).2 r' (by simp [hq, hr'])⟩

/-- The server answering a request moves it from the wire to the replies. -/
theorem reply (h : RepliesOnce s) {index : Nat} {r : Request} (ht : s.toServer[index]? = some r) :
    RepliesOnce { s with toServer := s.toServer.eraseIdx index,
                         toClient := s.toClient ++ [r] } := by
  have hserver := ((perm_cons_eraseIdx ht).map (·.call)).count_eq
  refine { h with calls := (List.perm_iff_count.mpr fun a => ?_).nodup_iff.mpr h.calls }
  have := hserver a
  simp only [List.map_append, List.map_cons, List.map_nil, List.count_append, List.count_cons,
    List.count_nil] at this ⊢
  omega

/-- The reader hands a reply to the responder the table holds under its id, and drops the
entry: that responder was handed nothing before, and no other entry holds it. -/
theorem receive (h : RepliesOnce s) {r : Request} {rest : List Request}
    (hc : s.toClient = r :: rest) {call : Nat} (hcall : s.outstanding r.id = some call) :
    RepliesOnce { s with toClient := rest, outstanding := Function.update s.outstanding r.id none,
                         delivered := s.delivered ++ [(call, r.call)] } := by
  obtain ⟨hcallNew, hcallQueued⟩ := h.fresh r.id call hcall
  have hperm : ((s.queued ++ s.toServer ++ rest).map (·.call) ++
      (s.delivered ++ [(call, r.call)]).map (·.2)).Perm
      ((s.queued ++ s.toServer ++ s.toClient).map (·.call) ++ s.delivered.map (·.2)) := by
    refine List.perm_iff_count.mpr fun a => ?_
    simp only [hc, List.map_append, List.map_cons, List.map_nil, List.count_append,
      List.count_cons, List.count_nil]
    omega
  have hresponders : ((s.delivered ++ [(call, r.call)]).map (·.1)).Perm
      (call :: s.delivered.map (·.1)) := by
    rw [List.map_append]
    exact List.perm_append_singleton _ _
  -- any other entry holds another responder
  have hother : ∀ id c, Function.update s.outstanding r.id none id = some c →
      s.outstanding id = some c ∧ c ≠ call := by
    intro id c hid
    by_cases hi : id = r.id
    · subst hi
      simp at hid
    · rw [Function.update_noteq hi] at hid
      exact ⟨hid, fun hce => hi (h.table id r.id c hid (hce ▸ hcall))⟩
  refine ⟨hperm.nodup_iff.mpr h.calls,
    hresponders.nodup_iff.mpr (List.nodup_cons.mpr ⟨hcallNew, h.responders⟩),
    fun id id' c hid hid' => h.table id id' c (hother id c hid).1 (hother id' c hid').1,
    fun id c hid => ?_, fun r' hr' => ?_⟩
  · obtain ⟨hid, hne⟩ := hother id c hid
    refine ⟨fun hmem => ?_, (h.fresh id c hid).2⟩
    rcases List.mem_cons.mp (hresponders.mem_iff.mp hmem) with hmem | hmem
    · exact hne hmem
    · exact (h.fresh id c hid).1 hmem
  · intro hmem
    rcases List.mem_cons.mp (hresponders.mem_iff.mp hmem) with hmem | hmem
    · exact hcallQueued r' hr' hmem
    · exact h.queued r' hr' hmem

/-- A reply with no entry makes the reader panic; it is dropped. -/
theorem panic (h : RepliesOnce s) {r : Request} {rest : List Request}
    (hc : s.toClient = r :: rest) : RepliesOnce { s with toClient := rest, panicked := true } := by
  have hperm : ((s.queued ++ s.toServer ++ s.toClient).map (·.call) ++ s.delivered.map (·.2)).Perm
      (r.call :: ((s.queued ++ s.toServer ++ rest).map (·.call) ++ s.delivered.map (·.2))) := by
    refine List.perm_iff_count.mpr fun a => ?_
    simp only [hc, List.map_append, List.map_cons, List.map_nil, List.count_append,
      List.count_cons, List.count_nil]
    omega
  exact { h with calls := (hperm.nodup_iff.mp h.calls).of_cons }

theorem step (h : RepliesOnce s) (hi : IdsSound s) {e : RequestEvent} {s' : Requests}
    (hs : s.step e = some s') : RepliesOnce s' := by
  cases e <;> simp only [Requests.step] at hs
  case sendRequest => cases hs; exact h.sendRequest hi
  case processRequest =>
    split at hs
    · next hq => cases hs; exact h.processRequest hq
    · cases hs
  case reply index =>
    split at hs
    · next ht => cases hs; exact h.reply ht
    · cases hs
  case receive =>
    split at hs
    · next hc =>
      split at hs
      · next hcall => cases hs; exact h.receive hc hcall
      · cases hs; exact h.panic hc
    · cases hs

end RepliesOnce

theorem Requests.Reachable.repliesOnce {s : Requests} (h : Requests.Reachable s) :
    RepliesOnce s := by
  induction h with
  | start => exact .start
  | step e hr hs ih => exact ih.step hr.idsSound hs

/-- No responder is handed two replies, and no reply is handed out twice, in every interleaving
and whatever the number of calls: after `request_id` wraps, a reply can reach the wrong
responder, but never a second one. -/
theorem replies_handed_out_once {s : Requests} (h : Requests.Reachable s) :
    (s.delivered.map Prod.fst).Nodup ∧ (s.delivered.map Prod.snd).Nodup :=
  ⟨h.repliesOnce.responders, h.repliesOnce.calls.sublist (List.sublist_append_right _ _)⟩

theorem oneRoundTrip_handed_out_once :
    Requests.Reachable oneRoundTrip ∧ oneRoundTrip.delivered = [(0, 0)] ∧
      (oneRoundTrip.delivered.map Prod.fst).Nodup ∧ (oneRoundTrip.delivered.map Prod.snd).Nodup :=
  have hr : Requests.Reachable oneRoundTrip := @Requests.Reachable.run _ _ .start
    [.sendRequest, .processRequest, .reply 0, .receive] rfl
  ⟨hr, rfl, replies_handed_out_once hr⟩

/-! ## The `2^32 + 1`st call -/

/-- One round: a call sent, inserted, answered ahead of the first call's request, and handed
out. -/
def wrapRound : List RequestEvent := [.sendRequest, .processRequest, .reply 1, .receive]

/-- `n` rounds. -/
def wrapRounds : Nat → List RequestEvent
  | 0 => []
  | n + 1 => wrapRound ++ wrapRounds n

/-- The first call's request, id `0`, on the wire and in the table; `k` calls made, and every
other reply handed out. -/
def firstOutstanding (k : Nat) (delivered : List (Nat × Nat)) : Requests :=
  ⟨BitVec.ofNat 32 k, k, [], [⟨0, 0⟩], [], Function.update (fun _ => none) 0 (some 0), delivered,
    false⟩

theorem firstOutstanding_round {k : Nat} (hk : 0 < k) (hk' : k < 2^32)
    (delivered : List (Nat × Nat)) :
    (firstOutstanding k delivered).run wrapRound =
      some (firstOutstanding (k + 1) (delivered ++ [(k, k)])) := by
  have hne : BitVec.ofNat 32 k ≠ 0 := fun h => by
    have := congrArg BitVec.toNat h
    simp only [BitVec.toNat_ofNat, Nat.reducePow, BitVec.ofNat_eq_ofNat] at this
    omega
  have hsucc : BitVec.ofNat 32 k + 1 = BitVec.ofNat 32 (k + 1) := by
    apply BitVec.eq_of_toNat_eq
    rw [BitVec.toNat_add, BitVec.toNat_ofNat, BitVec.toNat_ofNat,
      show (1 : BitVec 32).toNat = 1 from rfl]
    omega
  have hkept : Function.update (Function.update (fun _ => none) 0 (some 0)) (BitVec.ofNat 32 k)
      none = Function.update (fun _ => none) 0 (some 0) := by
    rw [Function.update_eq_self_iff, Function.update_noteq hne]
  simp only [firstOutstanding, wrapRound, Requests.run, Requests.step, Option.some_bind,
    List.nil_append, List.cons_append, List.getElem?_cons_succ, List.getElem?_cons_zero,
    List.eraseIdx_cons_succ, List.eraseIdx_cons_zero, Function.update_same, Function.update_idem,
    hsucc, hkept]

theorem firstOutstanding_rounds :
    ∀ (n : Nat) {k : Nat}, 0 < k → k + n ≤ 2^32 → ∀ delivered : List (Nat × Nat),
      ∃ delivered', (firstOutstanding k delivered).run (wrapRounds n) =
        some (firstOutstanding (k + n) delivered')
  | 0, _, _, _, delivered => ⟨delivered, rfl⟩
  | n + 1, k, hk, hn, delivered => by
    obtain ⟨delivered', h⟩ :=
      firstOutstanding_rounds n (k := k + 1) (Nat.succ_pos _) (by omega) (delivered ++ [(k, k)])
    refine ⟨delivered', ?_⟩
    rw [wrapRounds, Requests.run_append, firstOutstanding_round hk (by omega), Option.some_bind, h,
      Nat.add_right_comm, Nat.add_assoc]

/-- The `2^32 + 1`st call takes id `0` while the first call's request is unanswered under that
id: inserting it replaces the first call in `outstanding_requests`, and the server's reply to the
first call is handed to the new call's responder. -/
theorem request_id_wraps_to_outstanding :
    ∃ s, Requests.start.run
        ([.sendRequest, .processRequest] ++ wrapRounds (2^32 - 1) ++ [.sendRequest]) = some s ∧
      s.outstanding 0 = some 0 ∧ s.queued = [⟨0, 2^32⟩] ∧
      (s.step .processRequest).map (·.outstanding 0) = some (some (2^32)) ∧
      (s.run [.processRequest, .reply 0, .receive]).map (·.delivered.getLast?) =
        some (some (2^32, 0)) := by
  obtain ⟨delivered, hrounds⟩ := firstOutstanding_rounds (2^32 - 1) (k := 1) Nat.one_pos
    (by omega) []
  have hwrap : BitVec.ofNat 32 (2^32) = 0 := rfl
  have hfirst : Requests.start.run [.sendRequest, .processRequest] = some (firstOutstanding 1 []) :=
    rfl
  refine ⟨{ firstOutstanding (2^32) delivered with
              requestId := BitVec.ofNat 32 (2^32) + 1, calls := 2^32 + 1,
              queued := [⟨BitVec.ofNat 32 (2^32), 2^32⟩] }, ?_, ?_, ?_, ?_, ?_⟩
  · rw [Requests.run_append, Requests.run_append, hfirst, Option.some_bind, hrounds,
      Option.some_bind]
    rfl
  · rfl
  · rfl
  · rfl
  · simp only [Requests.run, Requests.step, firstOutstanding, hwrap, Option.some_bind,
      List.cons_append, List.nil_append, List.getElem?_cons_zero, List.eraseIdx_cons_zero,
      Function.update_same, Option.map_some', List.getLast?_concat]

end BonsaiDb.Client
