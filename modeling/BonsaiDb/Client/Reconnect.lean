import BonsaiDb.Client.Requests
import Mathlib.Data.List.Nodup

/-!
# Client — the reconnect loop

`reconnecting_client_loop` (`quic_worker.rs` 20–57) takes a request from the client's request
channel, and `connect_and_process` (59–110) opens a connection with it: when `connect` or the
send of that first request fails, the loop sends the error to the request's responder;
otherwise it spawns the reader `process` (130–149), inserts the first request in the
connection's `outstanding_requests`, and runs `process_requests` (112–128) beside the reader
under `try_join!` until one of them fails. The loop then takes the next request and reconnects.

* Each connection has its own wire and table; `Wire.outstanding` holds every table's
  `PendingRequest`s, each tagged with its connection.
* When `try_join!` fails, `connect_and_process` returns: the request `process_requests` holds is
  dropped, and the reader task it spawned is detached and runs on until its stream ends.
* `send_request` (`client.rs` 443–456) hands the worker a clone of `result_sender` and keeps
  `result_sender` itself until `recv_async` returns. `recv_async` returns the message the
  responder sent, or `Disconnected` once every sender is gone (`Wire.senders`).

A call whose `PendingRequest` is gone without a message never returns (`Lost.run`): its own
`result_sender` keeps its channel open. Every request left in the table of a connection whose
reader has ended is such a call (`ended_reader_request_hangs`).
-/

namespace BonsaiDb.Client

/-- What a call's `result_receiver.recv_async()` returns. -/
inductive Outcome where
  /-- `Ok(payload.wrapped)`: the reply to the call the server answered. -/
  | response (answered : Nat)
  /-- The error of `connect`, sent to the request that was to open the connection. -/
  | connectFailed
  /-- The error of sending the request that opened the connection. -/
  | sendFailed
  /-- Every sender is dropped and the channel is empty: `Error::Disconnected`. -/
  | disconnected
  deriving DecidableEq, Repr

/-- A `PendingRequest` in an `outstanding_requests` table: the connection, the id it is stored
under, and its call, which stands for its responder. -/
structure Outstanding where
  link : Nat
  id : BitVec 32
  call : Nat
  deriving DecidableEq, Repr

/-- A connection: the requests the server has yet to answer, the replies the reader has yet to
read, and whether the reader task `process` still runs. -/
structure Link where
  toServer : List Request
  toClient : List Request
  reading : Bool
  deriving DecidableEq, Repr

/-- Where `reconnecting_client_loop` is, with the request it holds. -/
inductive LoopPc where
  /-- At `request_receiver.recv_async()` (line 31). -/
  | receiving
  /-- In `connect` (line 73), holding the request that is to open the connection. -/
  | connecting (initial : Request)
  /-- Connected on `link`: `payload_sender.send(&initial_request.request)` (line 88) is next. -/
  | sendInitial (link : Nat) (initial : Request)
  /-- The first request's insertion in `outstanding_requests` (lines 92–101) is next. -/
  | registerInitial (link : Nat) (initial : Request)
  /-- Under `try_join!` (lines 103–107), `process_requests` at `recv_async` (line 117). -/
  | processing (link : Nat)
  /-- `process_requests` took `r`: the lock, the send and the insertion (lines 118–123) are
  next. -/
  | sending (link : Nat) (r : Request)
  deriving DecidableEq, Repr

/-- The request the loop holds. -/
def LoopPc.held : LoopPc → Option Request
  | .connecting r | .sendInitial _ r | .registerInitial _ r | .sending _ r => some r
  | .receiving | .processing _ => none

namespace LoopPc

variable {k : Nat} {r : Request}

@[simp] theorem held_receiving : receiving.held = none := rfl
@[simp] theorem held_connecting : (connecting r).held = some r := rfl
@[simp] theorem held_sendInitial : (sendInitial k r).held = some r := rfl
@[simp] theorem held_registerInitial : (registerInitial k r).held = some r := rfl
@[simp] theorem held_processing : (processing k).held = none := rfl
@[simp] theorem held_sending : (sending k r).held = some r := rfl

end LoopPc

/-- `outstanding_requests.remove(&id)` on `link`'s table. -/
def removeId (table : List Outstanding) (link : Nat) (id : BitVec 32) : List Outstanding :=
  table.filter fun e => !(e.link == link && e.id == id)

/-- The call `link`'s table holds under `id`. -/
def lookupId (table : List Outstanding) (link : Nat) (id : BitVec 32) : Option Nat :=
  (table.find? fun e => e.link == link && e.id == id).map (·.call)

/-- `outstanding_requests.insert(id, request)` on `link`'s table: a request under the same id is
replaced, and dropped. -/
def insertRequest (table : List Outstanding) (link : Nat) (r : Request) : List Outstanding :=
  ⟨link, r.id, r.call⟩ :: removeId table link r.id

/-- `payload_sender.send(&request)` on `link`. -/
def sendOn (links : List Link) (link : Nat) (r : Request) : List Link :=
  match links[link]? with
  | some l => links.set link { l with toServer := l.toServer ++ [r] }
  | none => links

/-- The server answers the `index`th request it holds, `r`: the reply goes onto the wire. -/
def Link.answer (l : Link) (index : Nat) (r : Request) : Link :=
  { l with toServer := l.toServer.eraseIdx index, toClient := l.toClient ++ [r] }

/-- The client's worker and its calls: `request_id`, the calls made, the request channel, the
loop, every connection opened, their tables, the message each call's responder sent, and what
each call returned. -/
structure Wire where
  requestId : BitVec 32
  calls : Nat
  queued : List Request
  loop : LoopPc
  links : List Link
  outstanding : List Outstanding
  mailbox : Nat → Option Outcome
  results : Nat → Option Outcome

/-- One atomic step. -/
inductive WireEvent where
  /-- `send_request`: `fetch_add` on `request_id`, then the request into the channel. -/
  | sendRequest
  /-- The loop's `recv_async` takes the oldest request. -/
  | take
  /-- `connect` returns a connection, or an error. -/
  | connect (ok : Bool)
  /-- The send of the first request succeeds, or fails. -/
  | sendInitial (ok : Bool)
  /-- The first request's insertion. -/
  | registerInitial
  /-- `process_requests`' `recv_async` takes the oldest request. -/
  | takeQueued
  /-- `process_requests` sends and inserts its request, or its send fails. -/
  | sendQueued (ok : Bool)
  /-- `try_join!` finds the reader task ended. -/
  | joinFailed
  /-- The server answers the `index`th request it holds on `link`. -/
  | reply (link index : Nat)
  /-- `link`'s reader reads the oldest reply and calls `process_response_payload`. -/
  | receive (link : Nat)
  /-- `link`'s stream ends: `payload_receiver.next()` yields `None` or an error. -/
  | close (link : Nat)
  /-- `call`'s `result_receiver.recv_async()` returns. -/
  | resume (call : Nat)
  deriving DecidableEq, Repr

namespace Wire

/-- A new client: nothing queued, no connection yet. -/
def start : Wire := ⟨0, 0, [], .receiving, [], [], fun _ => none, fun _ => none⟩

/-- The calls whose `PendingRequest` exists: in the request channel, held by the loop, or in a
table. -/
def pending (s : Wire) : List Nat :=
  s.queued.map (·.call) ++ (s.loop.held.map (·.call)).toList ++ s.outstanding.map (·.call)

/-- The live senders of `call`'s result channel: `send_request`'s own `result_sender` until the
call returns, and the clone in its `PendingRequest` while that exists. -/
def senders (s : Wire) (call : Nat) : Nat :=
  (if s.results call = none then 1 else 0) + s.pending.count call

/-- One step, or `none` when the event is not enabled. -/
def step (s : Wire) : WireEvent → Option Wire
  | .sendRequest =>
    some { s with requestId := s.requestId + 1, calls := s.calls + 1,
                  queued := s.queued ++ [⟨s.requestId, s.calls⟩] }
  | .take =>
    match s.loop, s.queued with
    | .receiving, r :: rest => some { s with loop := .connecting r, queued := rest }
    | _, _ => none
  | .connect ok =>
    match s.loop with
    | .connecting r =>
      if ok then
        some { s with loop := .sendInitial s.links.length r,
                      links := s.links ++ [⟨[], [], true⟩] }
      else
        some { s with loop := .receiving,
                      mailbox := Function.update s.mailbox r.call (some .connectFailed) }
    | _ => none
  | .sendInitial ok =>
    match s.loop with
    | .sendInitial k r =>
      if ok then some { s with loop := .registerInitial k r, links := sendOn s.links k r }
      else
        some { s with loop := .receiving,
                      mailbox := Function.update s.mailbox r.call (some .sendFailed) }
    | _ => none
  | .registerInitial =>
    match s.loop with
    | .registerInitial k r =>
      some { s with loop := .processing k, outstanding := insertRequest s.outstanding k r }
    | _ => none
  | .takeQueued =>
    match s.loop, s.queued with
    | .processing k, r :: rest => some { s with loop := .sending k r, queued := rest }
    | _, _ => none
  | .sendQueued ok =>
    match s.loop with
    | .sending k r =>
      if ok then
        some { s with loop := .processing k, links := sendOn s.links k r,
                      outstanding := insertRequest s.outstanding k r }
      else some { s with loop := .receiving }
    | _ => none
  | .joinFailed =>
    match s.loop with
    | .processing k | .sending k _ =>
      if s.links[k]?.map (·.reading) = some false then some { s with loop := .receiving }
      else none
    | _ => none
  | .reply k index =>
    match s.links[k]? with
    | some l =>
      match l.toServer[index]? with
      | some r =>
        some { s with links := s.links.set k (l.answer index r) }
      | none => none
    | none => none
  | .receive k =>
    match s.links[k]? with
    | some ⟨toServer, r :: rest, true⟩ =>
      match lookupId s.outstanding k r.id with
      | some call =>
        some { s with links := s.links.set k ⟨toServer, rest, true⟩,
                      outstanding := removeId s.outstanding k r.id,
                      mailbox := Function.update s.mailbox call (some (.response r.call)) }
      -- `.expect("missing responder")` panics the reader task
      | none => some { s with links := s.links.set k ⟨toServer, rest, false⟩ }
    | _ => none
  | .close k =>
    match s.links[k]? with
    | some ⟨toServer, toClient, true⟩ =>
      some { s with links := s.links.set k ⟨toServer, toClient, false⟩ }
    | _ => none
  | .resume call =>
    if call < s.calls ∧ s.results call = none then
      match s.mailbox call with
      | some o => some { s with results := Function.update s.results call (some o) }
      | none =>
        if s.senders call = 0 then
          some { s with results := Function.update s.results call (some .disconnected) }
        else none
    else none

/-- The events of `es`, one after another. -/
def run (s : Wire) : List WireEvent → Option Wire
  | [] => some s
  | e :: es => (s.step e).bind (·.run es)

end Wire

/-- The states a client's worker and calls reach, by any interleaving. -/
inductive WireReachable : Wire → Prop where
  | start : WireReachable Wire.start
  | step {s s' : Wire} (e : WireEvent) : WireReachable s → s.step e = some s' → WireReachable s'

theorem WireReachable.run {s s' : Wire} (hs : WireReachable s) (es : List WireEvent)
    (h : s.run es = some s') : WireReachable s' := by
  induction es generalizing s with
  | nil => cases h; exact hs
  | cons e es ih =>
    obtain ⟨s₁, h₁, h₂⟩ := Option.bind_eq_some.mp h
    exact ih (hs.step e h₁) h₂

/-! ## What each step does -/

namespace Wire

variable {s s' : Wire}

theorem step_sendRequest (h : s.step .sendRequest = some s') :
    s' = { s with requestId := s.requestId + 1, calls := s.calls + 1,
                  queued := s.queued ++ [⟨s.requestId, s.calls⟩] } :=
  (Option.some.inj h).symm

theorem step_take (h : s.step .take = some s') :
    ∃ r rest, s.loop = .receiving ∧ s.queued = r :: rest ∧
      s' = { s with loop := .connecting r, queued := rest } := by
  simp only [step] at h
  split at h
  · next r rest hl hq => exact ⟨r, rest, hl, hq, (Option.some.inj h).symm⟩
  · cases h

theorem step_connect {ok : Bool} (h : s.step (.connect ok) = some s') :
    ∃ r, s.loop = .connecting r ∧
      (ok = true ∧ s' = { s with loop := .sendInitial s.links.length r,
                                 links := s.links ++ [⟨[], [], true⟩] } ∨
       ok = false ∧
        s' = { s with loop := .receiving,
                      mailbox := Function.update s.mailbox r.call (some .connectFailed) }) := by
  simp only [step] at h
  split at h
  · next r hl => cases ok <;> simp only [Bool.false_eq_true, if_false, if_true] at h <;>
      exact ⟨r, hl, by simp [(Option.some.inj h).symm]⟩
  · cases h

theorem step_sendInitial {ok : Bool} (h : s.step (.sendInitial ok) = some s') :
    ∃ k r, s.loop = .sendInitial k r ∧
      (ok = true ∧ s' = { s with loop := .registerInitial k r, links := sendOn s.links k r } ∨
       ok = false ∧
        s' = { s with loop := .receiving,
                      mailbox := Function.update s.mailbox r.call (some .sendFailed) }) := by
  simp only [step] at h
  split at h
  · next k r hl => cases ok <;> simp only [Bool.false_eq_true, if_false, if_true] at h <;>
      exact ⟨k, r, hl, by simp [(Option.some.inj h).symm]⟩
  · cases h

theorem step_registerInitial (h : s.step .registerInitial = some s') :
    ∃ k r, s.loop = .registerInitial k r ∧
      s' = { s with loop := .processing k, outstanding := insertRequest s.outstanding k r } := by
  simp only [step] at h
  split at h
  · next k r hl => exact ⟨k, r, hl, (Option.some.inj h).symm⟩
  · cases h

theorem step_takeQueued (h : s.step .takeQueued = some s') :
    ∃ k r rest, s.loop = .processing k ∧ s.queued = r :: rest ∧
      s' = { s with loop := .sending k r, queued := rest } := by
  simp only [step] at h
  split at h
  · next k r rest hl hq => exact ⟨k, r, rest, hl, hq, (Option.some.inj h).symm⟩
  · cases h

theorem step_sendQueued {ok : Bool} (h : s.step (.sendQueued ok) = some s') :
    ∃ k r, s.loop = .sending k r ∧
      (ok = true ∧ s' = { s with loop := .processing k, links := sendOn s.links k r,
                                 outstanding := insertRequest s.outstanding k r } ∨
       ok = false ∧ s' = { s with loop := .receiving }) := by
  simp only [step] at h
  split at h
  · next k r hl => cases ok <;> simp only [Bool.false_eq_true, if_false, if_true] at h <;>
      exact ⟨k, r, hl, by simp [(Option.some.inj h).symm]⟩
  · cases h

theorem step_joinFailed (h : s.step .joinFailed = some s') :
    ∃ k, (s.loop = .processing k ∨ ∃ r, s.loop = .sending k r) ∧
      s.links[k]?.map (·.reading) = some false ∧ s' = { s with loop := .receiving } := by
  simp only [step] at h
  split at h
  all_goals first
    | cases h
    | next k hl => split at h <;> cases h; exact ⟨k, .inl hl, ‹_›, rfl⟩
    | next k r hl => split at h <;> cases h; exact ⟨k, .inr ⟨r, hl⟩, ‹_›, rfl⟩

theorem step_reply {k index : Nat} (h : s.step (.reply k index) = some s') :
    ∃ l r, s.links[k]? = some l ∧ l.toServer[index]? = some r ∧
      s' = { s with links := s.links.set k (l.answer index r) } := by
  simp only [step] at h
  split at h
  · next l hl =>
    split at h
    · next r hr => exact ⟨l, r, hl, hr, (Option.some.inj h).symm⟩
    · cases h
  · cases h

theorem step_receive {k : Nat} (h : s.step (.receive k) = some s') :
    ∃ toServer r rest, s.links[k]? = some ⟨toServer, r :: rest, true⟩ ∧
      ((∃ call, lookupId s.outstanding k r.id = some call ∧
        s' = { s with links := s.links.set k ⟨toServer, rest, true⟩,
                      outstanding := removeId s.outstanding k r.id,
                      mailbox := Function.update s.mailbox call (some (.response r.call)) }) ∨
       lookupId s.outstanding k r.id = none ∧
        s' = { s with links := s.links.set k ⟨toServer, rest, false⟩ }) := by
  simp only [step] at h
  split at h
  · next toServer r rest hl =>
    split at h
    · next call hc =>
      exact ⟨toServer, r, rest, hl, .inl ⟨call, hc, (Option.some.inj h).symm⟩⟩
    · next hc => exact ⟨toServer, r, rest, hl, .inr ⟨hc, (Option.some.inj h).symm⟩⟩
  · cases h

theorem step_close {k : Nat} (h : s.step (.close k) = some s') :
    ∃ toServer toClient, s.links[k]? = some ⟨toServer, toClient, true⟩ ∧
      s' = { s with links := s.links.set k ⟨toServer, toClient, false⟩ } := by
  simp only [step] at h
  split at h
  · next toServer toClient hl => exact ⟨toServer, toClient, hl, (Option.some.inj h).symm⟩
  · cases h

theorem step_resume {call : Nat} (h : s.step (.resume call) = some s') :
    call < s.calls ∧ s.results call = none ∧
      ((∃ o, s.mailbox call = some o ∧
        s' = { s with results := Function.update s.results call (some o) }) ∨
       s.mailbox call = none ∧ s.senders call = 0 ∧
        s' = { s with results := Function.update s.results call (some .disconnected) }) := by
  simp only [step] at h
  split at h
  · next hc =>
    refine ⟨hc.1, hc.2, ?_⟩
    split at h
    · next o ho => exact .inl ⟨o, ho, (Option.some.inj h).symm⟩
    · next ho =>
      split at h
      · exact .inr ⟨ho, ‹_›, (Option.some.inj h).symm⟩
      · cases h
  · cases h

end Wire

/-! ## The tables -/

section Tables

variable {table : List Outstanding} {link : Nat} {id : BitVec 32} {e : Outstanding}

theorem mem_removeId :
    e ∈ removeId table link id ↔ e ∈ table ∧ ¬(e.link = link ∧ e.id = id) := by
  simp [removeId, imp_iff_not_or]

theorem mem_insertRequest {r : Request} :
    e ∈ insertRequest table link r ↔
      e = ⟨link, r.id, r.call⟩ ∨ e ∈ table ∧ ¬(e.link = link ∧ e.id = r.id) := by
  rw [insertRequest, List.mem_cons, mem_removeId]

theorem lookupId_eq_some {call : Nat} (h : lookupId table link id = some call) :
    ⟨link, id, call⟩ ∈ table := by
  obtain ⟨e, he, rfl⟩ := Option.map_eq_some'.mp h
  have hmem := List.mem_of_find?_eq_some he
  simp only [Bool.and_eq_true, beq_iff_eq] at hmem
  obtain ⟨hl, hi⟩ := by simpa using List.find?_some he
  subst hl hi
  exact hmem

end Tables

/-- `link`'s reader has ended. -/
def Ended (links : List Link) (link : Nat) : Prop :=
  ∃ l, links[link]? = some l ∧ l.reading = false

namespace Ended

variable {links : List Link} {j : Nat}

/-- Rewriting connection `k` keeps an ended reader ended, unless it revives `k`'s. -/
theorem set (h : Ended links j) {k : Nat} {l' : Link} (hk : k = j → l'.reading = false) :
    Ended (links.set k l') j := by
  obtain ⟨l, hl, hr⟩ := h
  by_cases hkj : k = j
  · subst hkj
    exact ⟨l', List.getElem?_set_self (List.getElem?_eq_some_iff.mp hl).1, hk rfl⟩
  · exact ⟨l, by rw [List.getElem?_set_ne hkj, hl], hr⟩

/-- Rewriting connection `k` without touching whether its reader runs. -/
theorem set_of_reading (h : Ended links j) {k : Nat} {l l' : Link} (hk : links[k]? = some l)
    (hr : l'.reading = l.reading) : Ended (links.set k l') j :=
  h.set fun hkj => by
    obtain ⟨l₀, hl₀, hr₀⟩ := h
    rw [← hkj, hk] at hl₀
    cases hl₀
    exact hr.trans hr₀

theorem sendOn (h : Ended links j) (k : Nat) (r : Request) : Ended (Client.sendOn links k r) j := by
  unfold Client.sendOn
  split
  · next l hl => exact h.set_of_reading hl rfl
  · exact h

theorem append (h : Ended links j) (l' : Link) : Ended (links ++ [l']) j := by
  obtain ⟨l, hl, hr⟩ := h
  exact ⟨l, by rw [List.getElem?_append_left (List.getElem?_eq_some_iff.mp hl).1, hl], hr⟩

/-- A running reader is not ended. -/
theorem ne_of_reading (h : Ended links j) {k : Nat} {l : Link} (hk : links[k]? = some l)
    (hr : l.reading = true) : k ≠ j := by
  rintro rfl
  obtain ⟨l', hl', hr'⟩ := h
  rw [hk] at hl'
  cases hl'
  simp_all

end Ended

/-! ## A call whose request is gone never returns -/

/-- `call` waits on a channel no message can reach any more: it has made its request and has not
returned, it has no message, and its `PendingRequest` is not in the channel, not held by the loop,
and only in tables whose reader has ended. -/
structure Lost (s : Wire) (call : Nat) : Prop where
  made : call < s.calls
  waiting : s.results call = none
  mailbox : s.mailbox call = none
  queued : ∀ r ∈ s.queued, r.call ≠ call
  held : ∀ r, s.loop.held = some r → r.call ≠ call
  outstanding : ∀ e ∈ s.outstanding, e.call = call → Ended s.links e.link

namespace Lost

variable {s s' : Wire} {call : Nat}

/-- A step that sends no message to `call`, and brings its request nowhere it was not, keeps it
lost. -/
theorem of_frame (h : Lost s call) (hcalls : s.calls ≤ s'.calls)
    (hres : s'.results call = s.results call) (hmail : s'.mailbox call = s.mailbox call)
    (hqueued : ∀ r ∈ s'.queued, r ∈ s.queued)
    (hheld : ∀ r, s'.loop.held = some r → s.loop.held = some r ∨ r ∈ s.queued)
    (hout : ∀ e ∈ s'.outstanding, e ∈ s.outstanding ∨ s.loop.held = some ⟨e.id, e.call⟩)
    (hlinks : ∀ j, Ended s.links j → Ended s'.links j) : Lost s' call where
  made := Nat.lt_of_lt_of_le h.made hcalls
  waiting := hres.trans h.waiting
  mailbox := hmail.trans h.mailbox
  queued r hr := h.queued r (hqueued r hr)
  held r hr := (hheld r hr).elim (h.held r) (h.queued r)
  outstanding e he hc := (hout e he).elim (fun he => hlinks _ (h.outstanding e he hc))
    fun hh => absurd hc (h.held _ hh)



/-- The loop's error to the request it holds goes to another call. -/
theorem mailbox_update_held (h : Lost s call) {r : Request} (hr : s.loop.held = some r)
    (o : Option Outcome) : Function.update s.mailbox r.call o call = s.mailbox call :=
  Function.update_noteq (Ne.symm (h.held r hr)) _ _

/-- A request the loop took or inserted was in the channel, or held. -/
theorem of_insert (h : Lost s call) {k : Nat} {r : Request} (hr : s.loop.held = some r)
    {s' : Wire} (hcalls : s'.calls = s.calls) (hres : s'.results = s.results)
    (hmail : s'.mailbox = s.mailbox) (hqueued : s'.queued = s.queued) (hheld : s'.loop.held = none)
    (hout : s'.outstanding = insertRequest s.outstanding k r)
    (hlinks : ∀ j, Ended s.links j → Ended s'.links j) : Lost s' call := by
  refine h.of_frame hcalls.ge (by rw [hres]) (by rw [hmail]) (fun r' hr' => hqueued ▸ hr')
    (fun r' hr' => by rw [hheld] at hr'; cases hr') (fun e he => ?_) hlinks
  rw [hout] at he
  rcases mem_insertRequest.mp he with rfl | ⟨he, -⟩
  exacts [.inr hr, .inl he]

/-- No step delivers to a lost call, and its `recv_async` cannot return while its own
`result_sender` lives. -/
theorem step (h : Lost s call) {ev : WireEvent} (hs : s.step ev = some s') : Lost s' call := by
  cases ev with
  | sendRequest =>
    obtain rfl := Wire.step_sendRequest hs
    refine ⟨Nat.lt_succ_of_lt h.made, h.waiting, h.mailbox, fun r hr => ?_, h.held,
      h.outstanding⟩
    rcases List.mem_append.mp hr with hr | hr
    · exact h.queued r hr
    · rw [List.mem_singleton.mp hr]
      exact Nat.ne_of_gt h.made
  | take =>
    obtain ⟨r, rest, -, hq, rfl⟩ := Wire.step_take hs
    exact h.of_frame le_rfl rfl rfl (fun r' hr' => by simp [hq, hr'])
      (fun r' hr' => .inr (by cases hr'; simp [hq])) (fun e he => .inl he) fun _ hj => hj
  | connect ok =>
    obtain ⟨r, hl, ⟨-, rfl⟩ | ⟨-, rfl⟩⟩ := Wire.step_connect hs
    · exact h.of_frame le_rfl rfl rfl (fun _ hr => hr)
        (fun r' hr' => .inl (by simpa [hl] using hr')) (fun e he => .inl he) fun j hj => hj.append _
    · exact h.of_frame le_rfl rfl (h.mailbox_update_held (by simp [hl]) _) (fun _ hr => hr)
        (by simp) (fun e he => .inl he) fun _ hj => hj
  | sendInitial ok =>
    obtain ⟨k, r, hl, ⟨-, rfl⟩ | ⟨-, rfl⟩⟩ := Wire.step_sendInitial hs
    · exact h.of_frame le_rfl rfl rfl (fun _ hr => hr)
        (fun r' hr' => .inl (by simpa [hl] using hr')) (fun e he => .inl he)
        fun j hj => hj.sendOn k r
    · exact h.of_frame le_rfl rfl (h.mailbox_update_held (by simp [hl]) _) (fun _ hr => hr)
        (by simp) (fun e he => .inl he) fun _ hj => hj
  | registerInitial =>
    obtain ⟨k, r, hl, rfl⟩ := Wire.step_registerInitial hs
    exact h.of_insert (by simp [hl]) rfl rfl rfl rfl rfl rfl fun _ hj => hj
  | takeQueued =>
    obtain ⟨k, r, rest, -, hq, rfl⟩ := Wire.step_takeQueued hs
    exact h.of_frame le_rfl rfl rfl (fun r' hr' => by simp [hq, hr'])
      (fun r' hr' => .inr (by cases hr'; simp [hq])) (fun e he => .inl he) fun _ hj => hj
  | sendQueued ok =>
    obtain ⟨k, r, hl, ⟨-, rfl⟩ | ⟨-, rfl⟩⟩ := Wire.step_sendQueued hs
    · exact h.of_insert (by simp [hl]) rfl rfl rfl rfl rfl rfl fun j hj => hj.sendOn k r
    · exact h.of_frame le_rfl rfl rfl (fun _ hr => hr) (by simp) (fun e he => .inl he)
        fun _ hj => hj
  | joinFailed =>
    obtain ⟨k, -, -, rfl⟩ := Wire.step_joinFailed hs
    exact h.of_frame le_rfl rfl rfl (fun _ hr => hr) (by simp) (fun e he => .inl he) fun _ hj => hj
  | reply k index =>
    obtain ⟨l, r, hl, -, rfl⟩ := Wire.step_reply hs
    exact h.of_frame le_rfl rfl rfl (fun _ hr => hr) (fun r hr => .inl hr) (fun e he => .inl he)
      fun j hj => hj.set_of_reading hl rfl
  | receive k =>
    obtain ⟨toServer, r, rest, hl, ⟨c, hc, rfl⟩ | ⟨-, rfl⟩⟩ := Wire.step_receive hs
    · -- the reply's call is in `k`'s table, whose reader runs: it is not `call`
      have hne : c ≠ call := fun hcall =>
        (h.outstanding _ (lookupId_eq_some hc) hcall).ne_of_reading hl rfl rfl
      exact h.of_frame le_rfl rfl (Function.update_noteq (Ne.symm hne) _ _) (fun _ hr => hr)
        (fun r hr => .inl hr) (fun e he => .inl (mem_removeId.mp he).1)
        fun j hj => hj.set fun hkj => absurd hkj (hj.ne_of_reading hl rfl)
    · exact h.of_frame le_rfl rfl rfl (fun _ hr => hr) (fun r hr => .inl hr)
        (fun e he => .inl he) fun j hj => hj.set fun _ => rfl
  | close k =>
    obtain ⟨toServer, toClient, -, rfl⟩ := Wire.step_close hs
    exact h.of_frame le_rfl rfl rfl (fun _ hr => hr) (fun r hr => .inl hr) (fun e he => .inl he)
      fun j hj => hj.set fun _ => rfl
  | resume c =>
    obtain ⟨-, -, ⟨o, ho, rfl⟩ | ⟨-, hsenders, rfl⟩⟩ := Wire.step_resume hs
    all_goals by_cases hcall : c = call
    · exact absurd (hcall ▸ ho) (by simp [h.mailbox])
    · exact h.of_frame le_rfl (Function.update_noteq (Ne.symm hcall) _ _) rfl (fun _ hr => hr)
        (fun r hr => .inl hr) (fun e he => .inl he) fun _ hj => hj
    · -- its own `result_sender` is still a sender
      subst hcall
      simp [Wire.senders, h.waiting] at hsenders
    · exact h.of_frame le_rfl (Function.update_noteq (Ne.symm hcall) _ _) rfl (fun _ hr => hr)
        (fun r hr => .inl hr) (fun e he => .inl he) fun _ hj => hj

/-- Whatever happens next, a lost call stays lost. -/
theorem run (h : Lost s call) {es : List WireEvent} (hs : s.run es = some s') : Lost s' call := by
  induction es generalizing s with
  | nil => cases hs; exact h
  | cons ev es ih =>
    obtain ⟨s₁, h₁, h₂⟩ := Option.bind_eq_some.mp hs
    exact ih (h.step h₁) h₂


end Lost

/-! ## Each request is in one place -/

theorem eq_of_update_ne {f : Nat → Option Outcome} {c₀ c : Nat} {v : Option Outcome}
    (h : Function.update f c₀ v c ≠ f c) : c = c₀ :=
  by_contra fun hne => h (Function.update_noteq hne _ _)

/-- Each call's `PendingRequest` exists at most once; while it exists, the call has no message
and has not returned; and no call not yet made has either. -/
structure CustodySound (s : Wire) : Prop where
  nodup : s.pending.Nodup
  pending : ∀ c ∈ s.pending, c < s.calls ∧ s.mailbox c = none ∧ s.results c = none
  fresh : ∀ c, s.calls ≤ c → s.mailbox c = none ∧ s.results c = none

namespace CustodySound

variable {s s' : Wire}

/-- A step that keeps the calls made, moves or drops requests, and sends to or returns only calls
made whose request is then gone, keeps the invariant. -/
theorem of_subperm (h : CustodySound s) (hsub : s'.pending.Subperm s.pending)
    (hcalls : s'.calls = s.calls)
    (hmail : ∀ c, s'.mailbox c ≠ s.mailbox c → c ∉ s'.pending ∧ c < s.calls)
    (hres : ∀ c, s'.results c ≠ s.results c → c ∉ s'.pending ∧ c < s.calls) :
    CustodySound s' := by
  have hm : ∀ c, c ∈ s'.pending ∨ s.calls ≤ c → s'.mailbox c = s.mailbox c := fun c hc =>
    by_contra fun hne => hc.elim (hmail c hne).1 fun hle => Nat.not_le.mpr (hmail c hne).2 hle
  have hr : ∀ c, c ∈ s'.pending ∨ s.calls ≤ c → s'.results c = s.results c := fun c hc =>
    by_contra fun hne => hc.elim (hres c hne).1 fun hle => Nat.not_le.mpr (hres c hne).2 hle
  obtain ⟨l, hperm, hsubl⟩ := hsub
  refine ⟨hperm.nodup_iff.mp (h.nodup.sublist hsubl), fun c hc => ?_, fun c hc => ?_⟩
  · obtain ⟨hlt, hmc, hrc⟩ := h.pending c (hsubl.subset (hperm.symm.subset hc))
    exact ⟨hcalls ▸ hlt, (hm c (.inl hc)).trans hmc, (hr c (.inl hc)).trans hrc⟩
  · rw [hcalls] at hc
    exact ⟨(hm c (.inr hc)).trans (h.fresh c hc).1, (hr c (.inr hc)).trans (h.fresh c hc).2⟩

theorem start : CustodySound Wire.start :=
  ⟨by simp [Wire.start, Wire.pending], by simp [Wire.start, Wire.pending],
    fun _ _ => ⟨rfl, rfl⟩⟩

theorem mem_pending_of_outstanding {e : Outstanding} (he : e ∈ s.outstanding) :
    e.call ∈ s.pending :=
  List.mem_append_right _ (List.mem_map_of_mem _ he)

/-- Two entries of the tables for one call are one entry. -/
theorem eq_of_call_eq (h : CustodySound s) {e e' : Outstanding} (he : e ∈ s.outstanding)
    (he' : e' ∈ s.outstanding) (hc : e.call = e'.call) : e = e' :=
  List.inj_on_of_nodup_map h.nodup.of_append_right he he' hc

/-- A call in a table is not also in the channel or held by the loop. -/
theorem not_mem_front (h : CustodySound s) {e : Outstanding} (he : e ∈ s.outstanding) :
    e.call ∉ s.queued.map (·.call) ++ (s.loop.held.map (·.call)).toList := fun hmem =>
  List.disjoint_of_nodup_append h.nodup hmem (List.mem_map_of_mem _ he)

/-- The loop's request is nowhere else. -/
theorem held_not_mem (h : CustodySound s) {r : Request} (hr : s.loop.held = some r) :
    r.call ∉ s.queued.map (·.call) ++ s.outstanding.map (·.call) := by
  have hnodup := h.nodup
  simp only [Wire.pending, hr, Option.map_some', Option.toList_some, List.append_assoc,
    List.singleton_append] at hnodup
  exact (List.nodup_cons.mp (List.nodup_middle.mp hnodup)).1

theorem held_made (h : CustodySound s) {r : Request} (hr : s.loop.held = some r) :
    r.call < s.calls :=
  (h.pending r.call (by simp [Wire.pending, hr])).1

/-- A step that moves or drops requests and sends and returns nothing keeps the invariant. -/
theorem of_sublist (h : CustodySound s) (hsub : s'.pending.Sublist s.pending)
    (hcalls : s'.calls = s.calls) (hmail : s'.mailbox = s.mailbox)
    (hres : s'.results = s.results) : CustodySound s' :=
  h.of_subperm hsub.subperm hcalls (fun c hne => absurd (congrFun hmail c) hne)
    fun c hne => absurd (congrFun hres c) hne

/-- The loop drops the request it holds, after sending it an error or not. -/
theorem dropHeld (h : CustodySound s) {r : Request} (hr : s.loop.held = some r)
    (hcalls : s'.calls = s.calls) (hq : s'.queued = s.queued) (hheld : s'.loop.held = none)
    (hout : s'.outstanding = s.outstanding) (hres : s'.results = s.results)
    (hmail : ∀ c, s'.mailbox c ≠ s.mailbox c → c = r.call) : CustodySound s' := by
  have hpending : s'.pending = s.queued.map (·.call) ++ s.outstanding.map (·.call) := by
    simp [Wire.pending, hq, hheld, hout]
  refine h.of_subperm (hpending ▸ ?_) hcalls (fun c hne => ?_)
    fun c hne => absurd (congrFun hres c) hne
  · simp only [Wire.pending, hr, Option.map_some', Option.toList_some]
    exact ((List.sublist_append_left _ _).append_right _).subperm
  · rw [hmail c hne, hpending]
    exact ⟨h.held_not_mem hr, h.held_made hr⟩

/-- The loop inserts the request it holds into `k`'s table. -/
theorem insertHeld (h : CustodySound s) {k : Nat} {r : Request} (hr : s.loop.held = some r)
    (hcalls : s'.calls = s.calls) (hq : s'.queued = s.queued) (hheld : s'.loop.held = none)
    (hout : s'.outstanding = insertRequest s.outstanding k r) (hmail : s'.mailbox = s.mailbox)
    (hres : s'.results = s.results) : CustodySound s' := by
  refine h.of_sublist ?_ hcalls hmail hres
  simp only [Wire.pending, hq, hheld, hout, hr, insertRequest, Option.map_none', Option.toList_none,
    List.append_nil, List.map_cons, Option.map_some', Option.toList_some, List.append_assoc,
    List.singleton_append]
  exact ((List.filter_sublist _).map _).cons₂ _ |>.append_left _

/-- The loop takes the oldest request of the channel. -/
theorem takeQueue (h : CustodySound s) {r : Request} {rest : List Request}
    (hq : s.queued = r :: rest) (hheld : s.loop.held = none) (hcalls : s'.calls = s.calls)
    (hq' : s'.queued = rest) (hheld' : s'.loop.held = some r)
    (hout : s'.outstanding = s.outstanding) (hmail : s'.mailbox = s.mailbox)
    (hres : s'.results = s.results) : CustodySound s' :=
  h.of_subperm (List.Perm.subperm (by simp [Wire.pending, hq, hheld, hq', hheld', hout]))
    hcalls (fun c hne => absurd (congrFun hmail c) hne) fun c hne => absurd (congrFun hres c) hne

/-- Every step keeps the invariant. -/
theorem step (h : CustodySound s) {ev : WireEvent} (hs : s.step ev = some s') :
    CustodySound s' := by
  cases ev with
  | sendRequest =>
    have hs' := Wire.step_sendRequest hs
    have hold : s.pending = s.queued.map (·.call) ++
        ((s.loop.held.map (·.call)).toList ++ s.outstanding.map (·.call)) :=
      List.append_assoc _ _ _
    have hpend : s'.pending = s.queued.map (·.call) ++
        s.calls :: ((s.loop.held.map (·.call)).toList ++ s.outstanding.map (·.call)) := by
      simp [hs', Wire.pending]
    have hnew : s.calls ∉ s.pending := fun hc => Nat.lt_irrefl _ (h.pending _ hc).1
    rw [hold] at hnew
    subst hs'
    refine ⟨?_, fun c hc => ?_, fun c hc => h.fresh c (Nat.le_of_succ_le hc)⟩
    · rw [hpend]
      exact List.nodup_middle.mpr (List.nodup_cons.mpr ⟨hnew, hold ▸ h.nodup⟩)
    · rw [hpend] at hc
      rcases List.mem_append.mp hc with hc | hc
      · exact (h.pending c (hold ▸ List.mem_append_left _ hc)).imp_left Nat.lt_succ_of_lt
      · rcases List.mem_cons.mp hc with rfl | hc
        · exact ⟨Nat.lt_succ_self _, h.fresh _ le_rfl⟩
        · exact (h.pending c (hold ▸ List.mem_append_right _ hc)).imp_left Nat.lt_succ_of_lt
  | take =>
    obtain ⟨r, rest, hl, hq, rfl⟩ := Wire.step_take hs
    exact h.takeQueue hq (by simp [hl]) rfl rfl rfl rfl rfl rfl
  | connect ok =>
    obtain ⟨r, hl, ⟨-, rfl⟩ | ⟨-, rfl⟩⟩ := Wire.step_connect hs
    · exact h.of_sublist (by simp [Wire.pending, hl]) rfl rfl rfl
    · exact h.dropHeld (by simp [hl]) rfl rfl rfl rfl rfl fun c hne => eq_of_update_ne hne
  | sendInitial ok =>
    obtain ⟨k, r, hl, ⟨-, rfl⟩ | ⟨-, rfl⟩⟩ := Wire.step_sendInitial hs
    · exact h.of_sublist (by simp [Wire.pending, hl]) rfl rfl rfl
    · exact h.dropHeld (by simp [hl]) rfl rfl rfl rfl rfl fun c hne => eq_of_update_ne hne
  | registerInitial =>
    obtain ⟨k, r, hl, rfl⟩ := Wire.step_registerInitial hs
    exact h.insertHeld (by simp [hl]) rfl rfl rfl rfl rfl rfl
  | takeQueued =>
    obtain ⟨k, r, rest, hl, hq, rfl⟩ := Wire.step_takeQueued hs
    exact h.takeQueue hq (by simp [hl]) rfl rfl rfl rfl rfl rfl
  | sendQueued ok =>
    obtain ⟨k, r, hl, ⟨-, rfl⟩ | ⟨-, rfl⟩⟩ := Wire.step_sendQueued hs
    · exact h.insertHeld (by simp [hl]) rfl rfl rfl rfl rfl rfl
    · exact h.dropHeld (show s.loop.held = some r by simp [hl]) rfl rfl rfl rfl rfl
        fun c hne => absurd rfl hne
  | joinFailed =>
    obtain ⟨k, hl | ⟨r, hl⟩, -, rfl⟩ := Wire.step_joinFailed hs
    · exact h.of_sublist (by simp [Wire.pending, hl]) rfl rfl rfl
    · exact h.dropHeld (show s.loop.held = some r by simp [hl]) rfl rfl rfl rfl rfl
        fun c hne => absurd rfl hne
  | reply k index =>
    obtain ⟨l, r, -, -, rfl⟩ := Wire.step_reply hs
    exact h.of_sublist (List.Sublist.refl _) rfl rfl rfl
  | receive k =>
    obtain ⟨toServer, r, rest, -, ⟨c, hc, hs'⟩ | ⟨-, rfl⟩⟩ := Wire.step_receive hs
    · have he := lookupId_eq_some hc
      have hsub : s'.pending.Sublist s.pending := by
        rw [hs']
        exact ((List.filter_sublist _).map _).append_left _
      subst hs'
      refine h.of_subperm hsub.subperm rfl (fun c' hne => ?_) fun c' hne => absurd rfl hne
      rw [eq_of_update_ne hne]
      refine ⟨fun hmem => ?_, (h.pending c (mem_pending_of_outstanding he)).1⟩
      -- the reply's call was in the table once, under the entry just removed
      rcases List.mem_append.mp hmem with hfront | hmem
      · exact h.not_mem_front he hfront
      · obtain ⟨e, he', hce⟩ := List.mem_map.mp hmem
        obtain ⟨he', hne'⟩ := mem_removeId.mp he'
        exact hne' (by rw [h.eq_of_call_eq he' he hce]; exact ⟨rfl, rfl⟩)
    · exact h.of_sublist (List.Sublist.refl _) rfl rfl rfl
  | close k =>
    obtain ⟨toServer, toClient, -, rfl⟩ := Wire.step_close hs
    exact h.of_sublist (List.Sublist.refl _) rfl rfl rfl
  | resume c =>
    obtain ⟨hc, -, ⟨o, ho, rfl⟩ | ⟨-, hsenders, rfl⟩⟩ := Wire.step_resume hs
    · -- a call with a message has no request left
      refine h.of_subperm (List.Subperm.refl _) rfl (fun c' hne => absurd rfl hne) fun c' hne => ?_
      rw [eq_of_update_ne hne]
      exact ⟨fun hmem => by simp [(h.pending c hmem).2.1] at ho, hc⟩
    · refine h.of_subperm (List.Subperm.refl _) rfl (fun c' hne => absurd rfl hne) fun c' hne => ?_
      rw [eq_of_update_ne hne]
      exact ⟨List.count_eq_zero.mp (show s.pending.count c = 0 by
        simp only [Wire.senders] at hsenders; omega), hc⟩

/-- A request in the table of a connection whose reader has ended is lost: it is nowhere else,
and it has neither a message nor returned. -/
theorem lost_of_ended (h : CustodySound s) {k : Nat} {l : Link} (hk : s.links[k]? = some l)
    (hended : l.reading = false) {id : BitVec 32} {call : Nat}
    (hc : ⟨k, id, call⟩ ∈ s.outstanding) : Lost s call := by
  obtain ⟨hmade, hmail, hres⟩ := h.pending call (mem_pending_of_outstanding hc)
  have hfront := h.not_mem_front hc
  refine ⟨hmade, hres, hmail, fun r hr hrc => hfront ?_, fun r hr hrc => hfront ?_,
    fun e he hec => ?_⟩
  · exact List.mem_append_left _ (List.mem_map.mpr ⟨r, hr, hrc⟩)
  · exact List.mem_append_right _ (by simp [hr, hrc])
  · rw [h.eq_of_call_eq he hc hec]
    exact ⟨l, hk, hended⟩

end CustodySound

theorem WireReachable.custodySound {s : Wire} (hs : WireReachable s) : CustodySound s := by
  induction hs with
  | start => exact CustodySound.start
  | step _ _ he ih => exact ih.step he

/-- A request left in the `outstanding_requests` of a connection whose reader has ended is never
answered: whatever the loop, the server, the readers and the other calls do next, its responder
gets no message and its `send_request` call does not return. It does not return `Disconnected`
either, since it holds `result_sender` itself. -/
theorem ended_reader_request_hangs {s : Wire} (hs : WireReachable s) {k : Nat} {l : Link}
    (hk : s.links[k]? = some l) (hended : l.reading = false) {id : BitVec 32} {call : Nat}
    (hc : ⟨k, id, call⟩ ∈ s.outstanding) {es : List WireEvent} {s' : Wire}
    (h : s.run es = some s') : s'.mailbox call = none ∧ s'.results call = none := by
  have hlost := (hs.custodySound.lost_of_ended hk hended hc).run h
  exact ⟨hlost.mailbox, hlost.waiting⟩

/-- Call 0 opens the first connection and is inserted in its table; then the connection's stream
ends. -/
def firstConnection : List WireEvent :=
  [.sendRequest, .take, .connect true, .sendInitial true, .registerInitial, .close 0]

/-- `try_join!` gives up on the first connection; call 1 opens a second one and gets its reply. -/
def reconnect : List WireEvent :=
  [.joinFailed, .sendRequest, .take, .connect true, .sendInitial true, .registerInitial,
    .reply 1 0, .receive 1, .resume 1]

theorem firstConnection_call_waits :
    ∃ s s', Wire.start.run firstConnection = some s ∧ s.run reconnect = some s' ∧
      s'.results 1 = some (.response 1) ∧ s'.mailbox 0 = none ∧ s'.results 0 = none :=
  ⟨_, _, rfl, rfl, rfl, @ended_reader_request_hangs _
    (WireReachable.run .start firstConnection rfl) 0 _ rfl rfl 0 0 (by decide) reconnect _ rfl⟩

end BonsaiDb.Client
