import Mathlib.Data.List.Basic

/-!
# Storage — bringing a view up to date

The second half of `TaskManager::update_view_if_needed` (`tasks.rs` 61–98) for one
`(database, collection, view)`, called concurrently. Each call reads the database's last
transaction id, then the triple's entry in `view_update_last_status` under the read lock, and when
the entry is absent or behind it loops: `lookup_or_enqueue` a `Mapper`, wait for the transaction
id the job returns, until that id reaches the one the call read.

* The `Mapper` is not among the sources; it is modelled from the spec's contract. When it runs it
  reads the database's last transaction id, maps up to it, publishes it with `mark_view_updated`
  (lines 160–171) and returns it.
* `lookup_or_enqueue` joins the queued or running job of the same key, so the manager holds at
  most one `Mapper` for the triple, as in `Storage.Tasks`.
* Commits move the last transaction id forward, and calls arrive, at any moment.
* `rounds` counts the jobs a call has enqueued or joined; nothing in the code reads it.
* A call that returns after reading a transaction id leaves the view's status at or past it, and
  no call waits on more than two `Mapper` jobs (`view_update_fresh`): a call can join a job that
  read an older id, but the next job it joins starts after that one has finished.
-/

namespace BonsaiDb.Local

/-- `x` is an id at or past `w`. -/
def AtOrPast (x : Option Nat) (w : Nat) : Prop :=
  ∃ t, x = some t ∧ w ≤ t

theorem AtOrPast.self (t : Nat) : AtOrPast (some t) t := ⟨t, rfl, Nat.le_refl t⟩

theorem AtOrPast.le {t w : Nat} (h : AtOrPast (some t) w) : w ≤ t := by
  obtain ⟨_, ⟨⟩, hw⟩ := h
  exact hw

/-- A commit of `id` past the last transaction id keeps every id already reached. -/
theorem AtOrPast.commit {x : Option Nat} {w id : Nat} (h : AtOrPast x w)
    (hid : x.all (· < id) = true) : AtOrPast (some id) w := by
  obtain ⟨t, rfl, hw⟩ := h
  simp only [Option.all_some, decide_eq_true_eq] at hid
  exact ⟨id, rfl, by omega⟩

/-- The manager's `Mapper` job for the triple. -/
inductive MapperJob where
  | queued
  /-- Running, having read the database's last transaction id. -/
  | running (transactionId : Nat)
  /-- After its `mark_view_updated`, before it leaves the manager. -/
  | marked (transactionId : Nat)
  deriving DecidableEq, Repr

/-- The job will return an id at or past `w`: a queued job reads the last transaction id when it
starts. -/
def MapperJob.Answers : MapperJob → Nat → Prop
  | .queued, _ => True
  | .running t, w => w ≤ t
  | .marked t, w => w ≤ t

/-- Where a call is in lines 62–98. -/
inductive UpdatePc where
  /-- About to read `last_transaction_id` (line 62). -/
  | start
  /-- Read `current_transaction_id`, about to read the triple's status (lines 63–77). -/
  | compare (current : Nat)
  /-- At the top of the loop for `wait_for_transaction` (line 81). -/
  | enqueue (wait : Nat)
  /-- Waiting on the `Mapper`'s handle (line 93). -/
  | waiting (wait : Nat)
  /-- Returned, with the transaction id it read if there was one. -/
  | done (observed : Option Nat)
  deriving DecidableEq, Repr

/-- One call and the `Mapper` jobs it has enqueued or joined. -/
structure UpdateCall where
  pc : UpdatePc
  rounds : Nat
  deriving DecidableEq, Repr

/-- What the calls share: the database's last transaction id, the triple's entry in
`view_update_last_status`, and the manager's `Mapper` for the triple. -/
structure Shared where
  lastTransactionId : Option Nat
  lastStatus : Option Nat
  job : Option MapperJob
  deriving DecidableEq, Repr

/-- The calls for one triple and what they share. -/
structure ViewUpdates where
  shared : Shared
  calls : List UpdateCall
  deriving DecidableEq, Repr

/-- One atomic step. -/
inductive UpdateEvent where
  /-- A write commits transaction `id`. -/
  | commit (id : Nat)
  /-- A call of `update_view_if_needed` gets past its integrity check. -/
  | arrive
  /-- Call `i` takes its next step. -/
  | call (i : Nat)
  /-- The manager starts the queued `Mapper`, which reads the last transaction id. -/
  | start
  /-- The `Mapper`'s `mark_view_updated`. -/
  | mark
  /-- The `Mapper` returns and leaves the manager; the calls waiting on it receive its id. -/
  | finish
  deriving DecidableEq, Repr

namespace UpdateCall

/-- One step of a call and the shared state after it; `none` while it waits or once it has
returned. -/
def step (sh : Shared) (c : UpdateCall) : Option (UpdateCall × Shared) :=
  match c.pc with
  | .start =>
    match sh.lastTransactionId with
    | some current => some ({ c with pc := .compare current }, sh)
    | none => some ({ c with pc := .done none }, sh)
  | .compare current =>
    let needsReindex :=
      match sh.lastStatus with
      | some lastTransactionIndexed => decide (lastTransactionIndexed < current)
      | none => true
    if needsReindex then some ({ c with pc := .enqueue current }, sh)
    else some ({ c with pc := .done (some current) }, sh)
  | .enqueue wait =>
    some (⟨.waiting wait, c.rounds + 1⟩, { sh with job := some (sh.job.getD .queued) })
  | .waiting _ | .done _ => none

/-- A waiting call handed the id its job returned: it returns once the id reaches the one it
waits for, and loops otherwise (lines 93–96). -/
def receive (id : Nat) (c : UpdateCall) : UpdateCall :=
  match c.pc with
  | .waiting wait => { c with pc := if wait ≤ id then .done (some wait) else .enqueue wait }
  | _ => c

end UpdateCall

namespace ViewUpdates

/-- A storage just opened on a database whose last transaction id is `lastTransactionId`: the
status table is empty and no call has arrived. -/
def start (lastTransactionId : Option Nat) : ViewUpdates :=
  ⟨⟨lastTransactionId, none, none⟩, []⟩

/-- One step, or `none` when the event is not enabled. -/
def step (s : ViewUpdates) : UpdateEvent → Option ViewUpdates
  | .commit id =>
    if s.shared.lastTransactionId.all (· < id) then
      some { s with shared := { s.shared with lastTransactionId := some id } }
    else none
  | .arrive => some { s with calls := s.calls ++ [⟨.start, 0⟩] }
  | .call i =>
    (s.calls[i]?).bind fun c =>
      (c.step s.shared).map fun (c', shared) => ⟨shared, s.calls.set i c'⟩
  | .start =>
    match s.shared.job, s.shared.lastTransactionId with
    | some .queued, some t => some { s with shared := { s.shared with job := some (.running t) } }
    | _, _ => none
  | .mark =>
    match s.shared.job with
    | some (.running t) =>
      some { s with shared := { s.shared with job := some (.marked t), lastStatus := some t } }
    | _ => none
  | .finish =>
    match s.shared.job with
    | some (.marked t) => some ⟨{ s.shared with job := none }, s.calls.map (·.receive t)⟩
    | _ => none

/-- Steps one after another. -/
def run (s : ViewUpdates) : List UpdateEvent → Option ViewUpdates
  | [] => some s
  | e :: es => (s.step e).bind (·.run es)

end ViewUpdates

/-- The states the calls reach from a storage open by any interleaving. -/
inductive UpdatesReachable : ViewUpdates → Prop where
  | start (lastTransactionId : Option Nat) :
    UpdatesReachable (ViewUpdates.start lastTransactionId)
  | step {s s' : ViewUpdates} (e : UpdateEvent) : UpdatesReachable s → s.step e = some s' →
    UpdatesReachable s'

theorem UpdatesReachable.run {s s' : ViewUpdates} (hs : UpdatesReachable s)
    (es : List UpdateEvent) (h : s.run es = some s') : UpdatesReachable s' := by
  induction es generalizing s with
  | nil => cases h; exact hs
  | cons e es ih =>
    obtain ⟨s₁, h₁, h₂⟩ := Option.bind_eq_some.mp h
    exact ih (hs.step e h₁) h₂

/-! ## The invariant -/

/-- What the shared state keeps: the status and a running job's id are ids the database has
reached, a running job will not move the status back, and a marked job's id is the status. -/
structure SharedSound (sh : Shared) : Prop where
  status : ∀ l, sh.lastStatus = some l → AtOrPast sh.lastTransactionId l
  running : ∀ t, sh.job = some (.running t) →
    AtOrPast sh.lastTransactionId t ∧ ∀ l, sh.lastStatus = some l → l ≤ t
  marked : ∀ t, sh.job = some (.marked t) → sh.lastStatus = some t

/-- What a call's control point says about the shared state: an id it read the database has
reached; a call retrying finds no job that read an older id; a call on its second job waits on
one that answers it; a call that returned after reading `w` left the status at or past `w`. -/
def CallSound (sh : Shared) (c : UpdateCall) : Prop :=
  match c.pc with
  | .start => c.rounds = 0
  | .compare w => c.rounds = 0 ∧ AtOrPast sh.lastTransactionId w
  | .enqueue w => AtOrPast sh.lastTransactionId w ∧
    (c.rounds = 0 ∨ c.rounds = 1 ∧ ∀ j, sh.job = some j → j.Answers w)
  | .waiting w => AtOrPast sh.lastTransactionId w ∧
    ∃ j, sh.job = some j ∧ (c.rounds = 1 ∨ c.rounds = 2 ∧ j.Answers w)
  | .done none => c.rounds ≤ 2
  | .done (some w) => c.rounds ≤ 2 ∧ AtOrPast sh.lastStatus w

/-- Every state the calls reach keeps both. -/
structure UpdatesSound (s : ViewUpdates) : Prop where
  shared : SharedSound s.shared
  calls : ∀ c ∈ s.calls, CallSound s.shared c

namespace CallSound

variable {sh : Shared} {c : UpdateCall}

theorem rounds_le (h : CallSound sh c) : c.rounds ≤ 2 := by
  unfold CallSound at h
  split at h <;> omega

theorem fresh (h : CallSound sh c) {w : Nat} (hc : c.pc = .done (some w)) :
    AtOrPast sh.lastStatus w := by
  simp only [CallSound, hc] at h
  exact h.2

/-- A commit keeps every call's view. -/
theorem commit (h : CallSound sh c) {id : Nat} (hid : sh.lastTransactionId.all (· < id) = true) :
    CallSound { sh with lastTransactionId := some id } c := by
  unfold CallSound at h ⊢
  split at h
  · exact h
  · exact ⟨h.1, h.2.commit hid⟩
  · exact ⟨h.1.commit hid, h.2⟩
  · exact ⟨h.1.commit hid, h.2⟩
  · exact h
  · exact h

/-- Starting the queued job: every id a call read is at most the id the job reads. -/
theorem start (h : CallSound sh c) {t : Nat} (hlast : sh.lastTransactionId = some t) :
    CallSound { sh with job := some (.running t) } c := by
  unfold CallSound at h ⊢
  split at h
  · exact h
  · exact h
  · refine ⟨h.1, h.2.imp_right fun ⟨hr, _⟩ => ⟨hr, ?_⟩⟩
    rintro j ⟨⟩
    exact (hlast ▸ h.1).le
  · obtain ⟨hread, j, -, hr⟩ := h
    exact ⟨hread, _, rfl, hr.imp_right fun ⟨hr, _⟩ => ⟨hr, (hlast ▸ hread).le⟩⟩
  · exact h
  · exact h

/-- The job's `mark_view_updated` of `t`: a returned call's status stays reached, as the status
was at most `t`. -/
theorem mark (h : CallSound sh c) {t : Nat} (hjob : sh.job = some (.running t))
    (hstatus : ∀ l, sh.lastStatus = some l → l ≤ t) :
    CallSound { sh with job := some (.marked t), lastStatus := some t } c := by
  unfold CallSound at h ⊢
  split at h
  · exact h
  · exact h
  · refine ⟨h.1, h.2.imp_right fun ⟨hr, hj⟩ => ⟨hr, ?_⟩⟩
    rintro j ⟨⟩
    exact hj (.running t) hjob
  · obtain ⟨hread, j, hj, hr⟩ := h
    cases hjob.symm.trans hj
    exact ⟨hread, _, rfl, hr⟩
  · exact h
  · obtain ⟨hr, l, hl, hw⟩ := h
    exact ⟨hr, t, rfl, Nat.le_trans hw (hstatus l hl)⟩

/-- The job returns `t` with the status at `t`: each waiting call returns or retries, and no
other call waits on it. -/
theorem finish (h : CallSound sh c) {t : Nat} (hjob : sh.job = some (.marked t))
    (hstatus : sh.lastStatus = some t) :
    CallSound { sh with job := none } (c.receive t) := by
  obtain ⟨pc, rounds⟩ := c
  cases pc with
  | waiting w =>
    obtain ⟨hread, j, hj, hr⟩ := h
    cases hjob.symm.trans hj
    dsimp only at hr
    by_cases hw : w ≤ t
    · simp only [UpdateCall.receive, CallSound, if_pos hw]
      exact ⟨by rcases hr with hr | ⟨hr, -⟩ <;> omega, t, hstatus, hw⟩
    · simp only [UpdateCall.receive, CallSound, if_neg hw]
      refine ⟨hread, .inr ⟨?_, fun j hj => nomatch hj⟩⟩
      rcases hr with hr | ⟨_, hr⟩
      · exact hr
      · exact absurd hr hw
  | enqueue w =>
    obtain ⟨hread, hr⟩ := h
    exact ⟨hread, hr.imp_right fun ⟨hr, _⟩ => ⟨hr, fun j hj => nomatch hj⟩⟩
  | start | compare _ => exact h
  | done o => cases o <;> exact h

/-- A call's `lookup_or_enqueue` leaves any job there as it is, so every other call keeps its
view. -/
theorem lookupOrEnqueue (h : CallSound sh c) :
    CallSound { sh with job := some (sh.job.getD .queued) } c := by
  unfold CallSound at h ⊢
  split at h
  · exact h
  · exact h
  · refine ⟨h.1, h.2.imp_right fun ⟨hr, hj⟩ => ⟨hr, ?_⟩⟩
    cases hjob : sh.job with
    | none => rintro j ⟨⟩; trivial
    | some j => rintro _ ⟨⟩; exact hj j hjob
  · obtain ⟨hread, j, hj, hr⟩ := h
    exact ⟨hread, j, by simp [hj], hr⟩
  · exact h
  · exact h

/-- The calling call's own step. -/
theorem step (h : CallSound sh c) {c' : UpdateCall} {sh' : Shared}
    (hs : c.step sh = some (c', sh')) : CallSound sh' c' := by
  obtain ⟨pc, rounds⟩ := c
  cases pc with
  | start =>
    cases hlast : sh.lastTransactionId <;>
      simp only [UpdateCall.step, hlast, Option.some.injEq, Prod.mk.injEq] at hs <;>
      obtain ⟨rfl, rfl⟩ := hs
    · exact (show rounds = 0 from h) ▸ Nat.zero_le 2
    · exact ⟨h, hlast ▸ AtOrPast.self _⟩
  | compare w =>
    obtain ⟨hr, hread⟩ := h
    simp only [UpdateCall.step] at hs
    split_ifs at hs with hneeds <;> simp only [Option.some.injEq, Prod.mk.injEq] at hs <;>
      obtain ⟨rfl, rfl⟩ := hs
    · exact ⟨hread, .inl hr⟩
    · refine ⟨(show rounds = 0 from hr) ▸ Nat.zero_le 2, ?_⟩
      cases hstatus : sh.lastStatus with
      | none => simp [hstatus] at hneeds
      | some l =>
        simp only [hstatus, decide_eq_true_eq, Nat.not_lt] at hneeds
        exact ⟨l, rfl, hneeds⟩
  | enqueue w =>
    obtain ⟨hread, hr⟩ := h
    simp only [UpdateCall.step, Option.some.injEq, Prod.mk.injEq] at hs
    obtain ⟨rfl, rfl⟩ := hs
    refine ⟨hread, _, rfl, ?_⟩
    rcases hr with rfl | ⟨rfl, hj⟩
    · exact .inl rfl
    · refine .inr ⟨rfl, ?_⟩
      cases hjob : sh.job with
      | none => trivial
      | some j => exact hj j hjob
  | waiting _ | done _ => simp [UpdateCall.step] at hs

/-- A call's step changes the shared state only by its `lookup_or_enqueue`. -/
theorem step_shared {sh' : Shared} {c' : UpdateCall} (hs : c.step sh = some (c', sh')) :
    sh' = sh ∨ sh' = { sh with job := some (sh.job.getD .queued) } := by
  unfold UpdateCall.step at hs
  split at hs
  · split at hs <;> cases hs <;> exact .inl rfl
  · dsimp only at hs
    split at hs <;> cases hs <;> exact .inl rfl
  · cases hs
    exact .inr rfl
  · cases hs
  · cases hs

end CallSound

namespace SharedSound

variable {sh : Shared}

theorem lookupOrEnqueue (h : SharedSound sh) :
    SharedSound { sh with job := some (sh.job.getD .queued) } := by
  obtain ⟨last, status, _ | j⟩ := sh
  · exact ⟨h.status, (fun _ hj => nomatch hj), (fun _ hj => nomatch hj)⟩
  · exact h

end SharedSound

namespace UpdatesSound

variable {s s' : ViewUpdates}

theorem start (lastTransactionId : Option Nat) :
    UpdatesSound (ViewUpdates.start lastTransactionId) :=
  ⟨⟨(fun _ h => nomatch h), (fun _ h => nomatch h), fun _ h => nomatch h⟩,
    fun _ h => nomatch h⟩

theorem commit (h : UpdatesSound s) {id : Nat} (hid : s.shared.lastTransactionId.all (· < id)) :
    UpdatesSound { s with shared := { s.shared with lastTransactionId := some id } } where
  shared :=
    ⟨fun l hl => (h.shared.status l hl).commit hid,
      fun t hj => ⟨((h.shared.running t hj).1).commit hid, (h.shared.running t hj).2⟩,
      h.shared.marked⟩
  calls c hc := (h.calls c hc).commit hid

theorem arrive (h : UpdatesSound s) :
    UpdatesSound { s with calls := s.calls ++ [⟨.start, 0⟩] } where
  shared := h.shared
  calls c hc := by
    rcases List.mem_append.mp hc with hc | hc
    · exact h.calls c hc
    · rw [List.mem_singleton.mp hc]
      rfl

theorem call (h : UpdatesSound s) {i : Nat} {c c' : UpdateCall} {sh' : Shared}
    (hc : s.calls[i]? = some c) (hs : c.step s.shared = some (c', sh')) :
    UpdatesSound ⟨sh', s.calls.set i c'⟩ := by
  have hother : SharedSound sh' ∧ ∀ d ∈ s.calls, CallSound sh' d := by
    rcases CallSound.step_shared hs with rfl | rfl
    · exact ⟨h.shared, h.calls⟩
    · exact ⟨h.shared.lookupOrEnqueue, fun d hd => (h.calls d hd).lookupOrEnqueue⟩
  refine ⟨hother.1, fun d hd => ?_⟩
  rcases List.mem_or_eq_of_mem_set hd with hd | rfl
  · exact hother.2 d hd
  · exact (h.calls c (List.getElem?_mem hc)).step hs

theorem start_job (h : UpdatesSound s) {t : Nat} (hlast : s.shared.lastTransactionId = some t) :
    UpdatesSound { s with shared := { s.shared with job := some (.running t) } } where
  shared :=
    ⟨h.shared.status,
      fun _ hj => by
        cases hj
        exact ⟨hlast ▸ AtOrPast.self _, fun l hl => (hlast ▸ h.shared.status l hl).le⟩,
      fun _ hj => nomatch hj⟩
  calls c hc := (h.calls c hc).start hlast

theorem mark (h : UpdatesSound s) {t : Nat} (hjob : s.shared.job = some (.running t)) :
    UpdatesSound
      { s with shared := { s.shared with job := some (.marked t), lastStatus := some t } } where
  shared :=
    ⟨fun _ hl => by cases hl; exact (h.shared.running t hjob).1, (fun _ hj => nomatch hj),
      fun _ hj => by cases hj; rfl⟩
  calls c hc := (h.calls c hc).mark hjob (h.shared.running t hjob).2

theorem finish (h : UpdatesSound s) {t : Nat} (hjob : s.shared.job = some (.marked t)) :
    UpdatesSound ⟨{ s.shared with job := none }, s.calls.map (·.receive t)⟩ where
  shared := ⟨h.shared.status, (fun _ hj => nomatch hj), fun _ hj => nomatch hj⟩
  calls c hc := by
    obtain ⟨d, hd, rfl⟩ := List.mem_map.mp hc
    exact (h.calls d hd).finish hjob (h.shared.marked t hjob)

/-- Every step keeps the invariant. -/
theorem step (h : UpdatesSound s) {e : UpdateEvent} (hs : s.step e = some s') :
    UpdatesSound s' := by
  cases e <;> simp only [ViewUpdates.step] at hs
  case commit id =>
    split_ifs at hs with hid
    cases hs
    exact h.commit hid
  case arrive =>
    cases hs
    exact h.arrive
  case call i =>
    obtain ⟨c, hc, hs⟩ := Option.bind_eq_some.mp hs
    obtain ⟨⟨c', sh'⟩, hstep, rfl⟩ := Option.map_eq_some'.mp hs
    exact h.call hc hstep
  case start =>
    split at hs <;> cases hs
    exact h.start_job ‹_›
  case mark =>
    split at hs <;> cases hs
    exact h.mark ‹_›
  case finish =>
    split at hs <;> cases hs
    exact h.finish ‹_›

end UpdatesSound

theorem UpdatesReachable.updatesSound {s : ViewUpdates} (h : UpdatesReachable s) :
    UpdatesSound s := by
  induction h with
  | start lastTransactionId => exact UpdatesSound.start lastTransactionId
  | step _ _ hs ih => exact ih.step hs

/-- In every interleaving of calls, commits and `Mapper` runs, a call of `update_view_if_needed`
that returned after reading transaction id `w` left the view's `view_update_last_status` at or
past `w`, and no call enqueues or joins more than two `Mapper` jobs. -/
theorem view_update_fresh {s : ViewUpdates} (h : UpdatesReachable s) :
    ∀ c ∈ s.calls, c.rounds ≤ 2 ∧ ∀ w, c.pc = .done (some w) → AtOrPast s.shared.lastStatus w :=
  fun c hc =>
    have hsound := h.updatesSound.calls c hc
    ⟨hsound.rounds_le, fun _ hw => hsound.fresh hw⟩

/-- Two calls: the second reads transaction 2 and joins the job that already read 1, so it
retries and returns on its second job. -/
def staleJoin : List UpdateEvent :=
  [.arrive, .arrive, .call 0, .call 0, .call 0, .start, .commit 2, .call 1, .call 1, .call 1,
    .mark, .finish, .call 1, .start, .mark, .finish]

/-- The calls after `staleJoin` from a database at transaction 1. -/
def staleJoinRun : ViewUpdates :=
  ((ViewUpdates.start (some 1)).run staleJoin).getD (ViewUpdates.start none)

theorem staleJoin_second_round :
    staleJoinRun.calls = [⟨.done (some 1), 1⟩, ⟨.done (some 2), 2⟩] ∧
      ∀ c ∈ staleJoinRun.calls, c.rounds ≤ 2 ∧
        ∀ w, c.pc = .done (some w) → AtOrPast staleJoinRun.shared.lastStatus w :=
  ⟨rfl, view_update_fresh (UpdatesReachable.run (.start (some 1)) staleJoin rfl)⟩

end BonsaiDb.Local
