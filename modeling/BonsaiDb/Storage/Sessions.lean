import BonsaiDb.Storage.Registry

/-!
# Storage — sessions and the values that hold them

`assume_user` registers each new session in the instance's `sessions` table, which keeps its own
`Arc` clone of the session's `AuthenticatedSession`, and returns a `Storage` holding another
clone. `impl Drop for AuthenticatedSession` deregisters the session and removes its subscribers,
but it runs only when the last `Arc` goes away.

* A program's live `Storage` values are explicit (`Handles`), and the strong count of a session's
  `Arc` is computed from them and from the table (`strongCount`).
* Dropping a value runs the session's `Drop` exactly when the count reaches zero
  (`Handles.drop`); cloning a value clones its `Arc`.
* The table's clone keeps the count at one or more, so the cleanup never runs and no session
  ever leaves the table (`session_stays_registered`).
-/

namespace BonsaiDb.Local

/-- `impl Drop for AuthenticatedSession` for the session `id` (lines 185–206): the id leaves
`sessions`, and the subscribers `subscribers_by_session` lists for it leave `subscribers`. -/
def dropSession (d : Data) (id : Nat) : Data :=
  let ids := ((d.subscribersBySession.find? (·.1 = id)).map (·.2)).getD []
  { d with sessions := d.sessions.filter (· ≠ id),
           subscribersBySession := d.subscribersBySession.filter (·.1 ≠ id),
           subscribers := d.subscribers.filter (·.1 ∉ ids) }

/-- The `Storage` values a program holds, with the shared state. -/
structure Handles where
  data : Data
  live : List Storage

namespace Handles

/-- The strong count of session `id`'s `Arc<AuthenticatedSession>`: one for each live value that
holds it, and one for the clone in `sessions`. -/
def strongCount (w : Handles) (id : Nat) : Nat :=
  (w.live.filter (·.authentication = some id)).length + if id ∈ w.data.sessions then 1 else 0

/-- Dropping the `i`th live value; when it held the last `Arc` of its session, that session's
`Drop` runs. -/
def drop (w : Handles) (i : Nat) : Handles :=
  let w' := { w with live := w.live.eraseIdx i }
  match (w.live.get? i).bind (·.authentication) with
  | some id => if w'.strongCount id = 0 then { w' with data := dropSession w'.data id } else w'
  | none => w'

/-- The state after a call that returns a `Storage`: the value, if any, joins the live ones. -/
def keep (w : Handles) (r : Except Error Storage × Data) : Handles :=
  ⟨r.2, match r.1 with
    | .ok st => w.live ++ [st]
    | .error _ => w.live⟩

end Handles

/-- A call that can assume a user, or a clone or a drop of a live value. -/
inductive SessionEvent where
  | authenticate (user : NamedReference) (password : String)
  | assumeIdentity (identity : Identity)
  | clone (i : Nat)
  | drop (i : Nat)

namespace SessionEvent

variable (c : Collaborators)

/-- One event; `none` where the call panics or no live value has the index. -/
def step (w : Handles) : SessionEvent → Option Handles
  | .authenticate user password => some (w.keep (StorageInstance.authenticate c w.data user password))
  | .assumeIdentity identity => (StorageInstance.assumeIdentity c w.data identity).map w.keep
  | .clone i => (w.live.get? i).map fun st => { w with live := w.live ++ [st] }
  | .drop i => if i < w.live.length then some (w.drop i) else none

/-- Events one after another. -/
def run (w : Handles) : List SessionEvent → Option Handles
  | [] => some w
  | e :: es => (step c w e).bind (run · es)

end SessionEvent

/-- The states a program reaches from `Storage::open` by session events. -/
inductive SessionReachable (c : Collaborators) : Handles → Prop where
  | «open» {config : StorageConfiguration} {disk : Disk} {d : Data} :
    Storage.open config disk = .ok d → SessionReachable c ⟨d, []⟩
  | step {w w' : Handles} (e : SessionEvent) : SessionReachable c w → e.step c w = some w' →
    SessionReachable c w'

theorem SessionReachable.run {c : Collaborators} {w w' : Handles} (hw : SessionReachable c w)
    (es : List SessionEvent) (h : SessionEvent.run c w es = some w') : SessionReachable c w' := by
  induction es generalizing w with
  | nil => cases h; exact hw
  | cons e es ih =>
    obtain ⟨w₁, h₁, h₂⟩ := Option.bind_eq_some.mp h
    exact ih (hw.step e h₁) h₂

/-! ## No session leaves the table -/

namespace SessionsKept

/-- A drop removes only its own session, and only once no value, the table's included, holds
it: so only a session absent from the table. -/
theorem drop {w : Handles} (h : SessionsKept w.data) (i : Nat) : SessionsKept (w.drop i).data := by
  unfold Handles.drop
  dsimp only
  split
  · next id _ =>
    split
    · next hzero =>
      have hout : id ∉ w.data.sessions := fun hin => by
        simp [Handles.strongCount, hin] at hzero
      intro id' hid hle
      exact List.mem_filter.mpr ⟨h id' hid hle, by
        simpa using fun he : id' = id => hout (he ▸ h id' hid hle)⟩
    · exact h
  · exact h

end SessionsKept

theorem SessionEvent.step_sessionsKept {c : Collaborators} {w w' : Handles} {e : SessionEvent}
    (h : SessionsKept w.data) (hs : e.step c w = some w') : SessionsKept w'.data := by
  cases e with
  | authenticate user password => cases hs; exact (Grows.authenticate c _ user password).sessions h
  | assumeIdentity identity =>
    obtain ⟨r, hr, rfl⟩ := Option.map_eq_some'.mp hs
    exact (Grows.assumeIdentity hr).sessions h
  | clone i =>
    obtain ⟨st, -, rfl⟩ := Option.map_eq_some'.mp hs
    exact h
  | drop i =>
    simp only [step] at hs
    split at hs
    · cases hs; exact h.drop i
    · cases hs

theorem SessionReachable.sessionsKept {c : Collaborators} {w : Handles}
    (hw : SessionReachable c w) : SessionsKept w.data := by
  induction hw with
  | «open» h =>
    unfold Storage.open at h
    dsimp only at h
    exact (Storage.createAdminDatabaseIfNeeded_grows h).sessions fun _ hid hle => by
      simp [StorageInstance.admin] at hle
      omega
  | step e _ hs ih => exact SessionEvent.step_sessionsKept ih hs

/-- Whatever values a program assumes, clones and drops, every session `assume_user` has
created stays in the `sessions` table. -/
theorem session_stays_registered {c : Collaborators} {w : Handles} (hw : SessionReachable c w)
    {id : Nat} (hid : 0 < id) (hle : id ≤ w.data.lastSessionId) : id ∈ w.data.sessions :=
  hw.sessionsKept id hid hle

/-- A disk whose admin directory `db/_admin` holds one user, `u1`, with id 1. -/
def oneUserDisk : Disk := ⟨[["db"], ["db", "_admin"]], [], [⟨1, "u1", [], [], none⟩], [], []⟩

/-- The state `Storage::open freshConfig` reaches on `oneUserDisk`. -/
def oneUserStorage : Data :=
  match Storage.open freshConfig oneUserDisk with
  | .ok d => d
  | .error _ => freshStorage

theorem open_oneUserDisk : Storage.open freshConfig oneUserDisk = .ok oneUserStorage := rfl

/-- `oneUserStorage` after assuming user 1's identity and dropping the value that returns. -/
def droppedSession : Handles :=
  (SessionEvent.run plainCollaborators ⟨oneUserStorage, []⟩
    [.assumeIdentity (.user 1 "u1"), .drop 0]).getD ⟨oneUserStorage, []⟩

/-- No value outside the table holds session 1 any more, yet it stays registered: the table's
own clone keeps its strong count at one. -/
theorem droppedSession_still_registered :
    SessionReachable plainCollaborators droppedSession ∧ droppedSession.live = [] ∧
      droppedSession.strongCount 1 = 1 ∧ 1 ∈ droppedSession.data.sessions :=
  have hw : SessionReachable plainCollaborators droppedSession :=
    .run (.open open_oneUserDisk) [.assumeIdentity (.user 1 "u1"), .drop 0] rfl
  ⟨hw, rfl, by decide, session_stays_registered hw (by decide) (by decide)⟩

end BonsaiDb.Local
