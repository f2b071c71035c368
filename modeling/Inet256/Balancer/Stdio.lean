import Inet256.Foundation.Bytes

/-!
# Connections to the standard streams

`listen stdio` serves every connection with the process's own input and output.
`rwBackend` opens them for one connection at a time, by a semaphore that the closing
of what it opened releases; `PlumbRWC` copies in both directions and closes, at the
end of each loop, the side the loop has written to.  So the semaphore is released
when everything was copied to the output, while the loop from the input may still
be reading: only the output belongs to one connection at a time.  Reads and writes
of all connections may come in any order.
-/

namespace Inet256.Balancer.Stdio

open Inet256.Foundation

/-! ## One connection -/

/-- A loop of `io.Copy` in a goroutine of `PlumbRWC`. -/
inductive Copy where
  | reading
  | writing (data : Bytes)
  /-- The loop is over, the deferred `Close` is to be called. -/
  | closing (err : Option String)
  | finished
  deriving DecidableEq

/-- An error `net.ErrClosed` is none. -/
inductive CopyEvent where
  | read (data : Bytes)
  | readEnd (err : Option String)
  | wrote
  /-- Only the first bytes were written. -/
  | writeFailed (n : Nat) (err : Option String)
  | close

def Copy.step : Copy → CopyEvent → Option Copy
  | .reading, .read data => some (.writing data)
  | .reading, .readEnd err => some (.closing err)
  | .writing _, .wrote => some .reading
  | .writing _, .writeFailed _ err => some (.closing err)
  | .closing _, .close => some .finished
  | _, _ => none

/-- What a write puts out. -/
def Copy.output : Copy → CopyEvent → Option Bytes
  | .writing data, .wrote => some data
  | .writing data, .writeFailed n _ => some (data.take n)
  | _, _ => none

/-- What a goroutine returns, when it does. -/
def Copy.result : Copy → Option String
  | .closing err => err
  | _ => none

inductive Phase where
  | opening
  /-- In the `select` of `Open` that waits for the semaphore. -/
  | selecting
  /-- `up` copies from the connection to the output, `down` from the input to the connection. -/
  | plumbing (up down : Copy) (err : Option String)
  | returned (err : Option String)
  deriving DecidableEq

structure Session where
  phase : Phase
  frontClosed : Bool
  deriving DecidableEq

/-! ## The backend -/

structure State where
  closed : Bool
  /-- The channel `sem` is full. -/
  sem : Bool
  sessions : List Session
  /-- What was written to the output, and by whose connection. -/
  out : List (Nat × Bytes)

def newRWBackend : State := ⟨false, false, [], []⟩

inductive SessionEvent where
  | check
  | acquire
  | refuse (err : String)
  | up (event : CopyEvent)
  | down (event : CopyEvent)
  | wait

inductive Event where
  | closeBackend
  | accept
  | session (c : Nat) (event : SessionEvent)

namespace State

def set (s : State) (c : Nat) (session : Session) : State :=
  { s with sessions := s.sessions.set c session }

/-- The semaphore after an event of the loop to the output; `Close` waits for its element. -/
def release (s : State) : CopyEvent → Option Bool
  | .close => if s.sem then some false else none
  | _ => some s.sem

/-- What `serveFrontendConn` returns if the backend does not open. -/
def openFailed (err : String) : Phase := .returned (some ("could not connect to backend " ++ err))

/-- A closed connection gives no data any more. -/
def readable (session : Session) : CopyEvent → Bool
  | .read _ => !session.frontClosed
  | _ => true

def closesFront (session : Session) : CopyEvent → Bool
  | .close => true
  | _ => session.frontClosed

def sessionStep (s : State) (c : Nat) (session : Session) : SessionEvent → Option State
  | .check =>
      match session.phase with
      | .opening =>
          if s.closed then
            some (s.set c { session with phase := openFailed "use of closed network connection" })
          else some (s.set c { session with phase := .selecting })
      | _ => none
  | .acquire =>
      match session.phase with
      | .selecting =>
          if s.sem then none
          else
            some { s.set c { session with phase := .plumbing .reading .reading none } with
              sem := true }
      | _ => none
  | .refuse err =>
      match session.phase with
      | .selecting => some (s.set c { session with phase := openFailed err })
      | _ => none
  | .up event =>
      match session.phase with
      | .plumbing up down err =>
          if !readable session event then none
          else do
            let up' ← up.step event
            let sem ← s.release event
            some { s.set c { session with phase := .plumbing up' down (err.or up.result) } with
              sem
              out := s.out ++ (up.output event).toList.map fun data => (c, data) }
      | _ => none
  | .down event =>
      match session.phase with
      | .plumbing up down err => do
          let down' ← down.step event
          some (s.set c ⟨.plumbing up down' (err.or down.result), closesFront session event⟩)
      | _ => none
  | .wait =>
      match session.phase with
      | .plumbing .finished .finished err =>
          some (s.set c { session with phase := .returned err })
      | _ => none

def step (s : State) : Event → Option (State × Unit)
  | .closeBackend => some ({ s with closed := true }, ())
  | .accept => some ({ s with sessions := s.sessions ++ [⟨.opening, false⟩] }, ())
  | .session c event => do
      let session ← s.sessions[c]?
      let s ← s.sessionStep c session event
      some (s, ())

end State

/-! ## One loop -/

/-- What was read and is about to be written. -/
def Copy.pending : Copy → Bytes
  | .writing data => data
  | _ => []

def CopyEvent.readBytes : CopyEvent → Bytes
  | .read data => data
  | _ => []

def CopyEvent.isFailure : CopyEvent → Bool
  | .writeFailed _ _ => true
  | _ => false

/-- The loop is still going on. -/
def Copy.going : Copy → Bool
  | .reading => true
  | .writing _ => true
  | _ => false

namespace Copy

variable {copy copy' : Copy} {event : CopyEvent}

/-- Nothing is written that was not read before. -/
theorem carried (h : copy.step event = some copy') :
    (copy.output event).getD [] ++ copy'.pending <+: copy.pending ++ event.readBytes := by
  unfold Copy.step at h
  split at h <;> cases h
  · exact List.prefix_rfl
  · exact List.prefix_rfl
  · simp [output, pending, CopyEvent.readBytes]
  · simpa [output, pending, CopyEvent.readBytes] using List.take_prefix _ _
  · exact List.prefix_rfl

theorem whole (h : copy.step event = some copy') (hok : event.isFailure = false) :
    (copy.output event).getD [] ++ copy'.pending = copy.pending ++ event.readBytes := by
  unfold Copy.step at h
  split at h <;> cases h
  · rfl
  · rfl
  · simp [output, pending, CopyEvent.readBytes]
  · cases hok
  · rfl

theorem readBytes_or_going (h : copy.step event = some copy') :
    event.readBytes = [] ∨ copy.going = true := by
  unfold Copy.step at h
  split at h <;> cases h <;> simp [CopyEvent.readBytes, going]

theorem going_of_step (h : copy.step event = some copy') (hgoing : copy'.going = true) :
    copy.going = true ∧ event.isFailure = false := by
  unfold Copy.step at h
  split at h <;> cases h <;> simp_all [CopyEvent.isFailure, going]

theorem ne_finished_of_step (h : copy.step event = some copy') : copy ≠ .finished := by
  rintro rfl
  cases event <;> cases h

theorem eq_finished_iff (h : copy.step event = some copy') :
    copy' = .finished ↔ event = .close := by
  unfold Copy.step at h
  split at h <;> cases h <;> simp

end Copy

/-! ## What one step does -/

/-- The connection has not got the semaphore yet. -/
def Session.fresh (session : Session) : Bool :=
  match session.phase with
  | .opening => true
  | .selecting => true
  | _ => false

/--
The connection has the output: its loop to the output has not called `Close` yet.  It may read
from the input before and after that.
-/
def Session.hasOutput (session : Session) : Bool :=
  match session.phase with
  | .plumbing up _ _ => decide (up ≠ .finished)
  | _ => false

def Session.pending (session : Session) : Bytes :=
  match session.phase with
  | .plumbing up _ _ => up.pending
  | _ => []

/-- No loop to the output has ended, so that no write has failed. -/
def Session.unbroken (session : Session) : Bool :=
  match session.phase with
  | .plumbing up _ _ => up.going
  | _ => session.fresh

def SessionEvent.isAcquire : SessionEvent → Bool
  | .acquire => true
  | _ => false

def SessionEvent.readBytes : SessionEvent → Bytes
  | .up event => event.readBytes
  | _ => []

def SessionEvent.isFailure : SessionEvent → Bool
  | .up event => event.isFailure
  | _ => false

/-- Who has the output changes together with the semaphore. -/
inductive Handover (s s' : State) (session session' : Session) : SessionEvent → Prop
  | keeps (event : SessionEvent) (hother : event.isAcquire = false)
      (houtput : session'.hasOutput = session.hasOutput) (hsem : s'.sem = s.sem) :
      Handover s s' session session' event
  | takes (hfresh : session.fresh = true) (houtput : session'.hasOutput = true)
      (hfree : s.sem = false) (hsem : s'.sem = true) : Handover s s' session session' .acquire
  | gives (hbefore : session.hasOutput = true) (hafter : session'.hasOutput = false)
      (hsem : s'.sem = false) : Handover s s' session session' (.up .close)

/-- What a step of a connection does; `chunk` is what it writes to the output. -/
structure Effect (s s' : State) (c : Nat) (session session' : Session) (event : SessionEvent)
    (chunk : Option Bytes) : Prop where
  sessions : s'.sessions = s.sessions.set c session'
  out : s'.out = s.out ++ chunk.toList.map fun data => (c, data)
  writer : chunk ≠ none → session.hasOutput = true
  carried : chunk.getD [] ++ session'.pending <+: session.pending ++ event.readBytes
  whole : event.isFailure = false →
    chunk.getD [] ++ session'.pending = session.pending ++ event.readBytes
  fresh : session'.fresh = true → session.fresh = true
  unread : event.readBytes = [] ∨ session.unbroken = true
  unbroken : session'.unbroken = true → session.unbroken = true ∧ event.isFailure = false
  handover : Handover s s' session session' event

namespace State

variable {s s' : State} {c : Nat} {session : Session}

theorem sessionStep_up {event : CopyEvent} (h : s.sessionStep c session (.up event) = some s') :
    ∃ up down err up' sem, session.phase = .plumbing up down err ∧ up.step event = some up' ∧
      s.release event = some sem ∧
      s' = { s.set c { session with phase := .plumbing up' down (err.or up.result) } with
        sem
        out := s.out ++ (up.output event).toList.map fun data => (c, data) } := by
  simp only [sessionStep] at h
  split at h
  · next up down err hphase =>
      split at h
      · cases h
      · simp only [Option.bind_eq_bind, Option.bind_eq_some_iff] at h
        obtain ⟨up', hup, sem, hsem, h⟩ := h
        exact ⟨up, down, err, up', sem, hphase, hup, hsem, (Option.some.inj h).symm⟩
  · cases h

theorem release_cases {event : CopyEvent} {sem : Bool} (h : s.release event = some sem) :
    (event = .close ∧ sem = false) ∨ (event ≠ .close ∧ sem = s.sem) := by
  unfold release at h
  split at h
  · split at h
    · cases h
      exact Or.inl ⟨rfl, rfl⟩
    · cases h
  · next hevent =>
      cases h
      exact Or.inr ⟨hevent, rfl⟩

/-- The loop to the output writes what it has read, and its end releases the semaphore. -/
theorem up_effect {event : CopyEvent} (h : s.sessionStep c session (.up event) = some s') :
    ∃ session' chunk, Effect s s' c session session' (.up event) chunk := by
  obtain ⟨up, down, err, up', sem, hphase, hup, hsem, rfl⟩ := sessionStep_up h
  have hpending : session.pending = up.pending := by rw [Session.pending, hphase]
  have hbefore : session.hasOutput = true := by
    rw [Session.hasOutput, hphase]
    exact decide_eq_true (Copy.ne_finished_of_step hup)
  have hunbroken : session.unbroken = up.going := by rw [Session.unbroken, hphase]
  refine ⟨_, up.output event, rfl, rfl, fun _ => hbefore, ?_, ?_, nofun, ?_, ?_, ?_⟩
  · rw [hpending]
    exact Copy.carried hup
  · rw [hpending]
    exact Copy.whole hup
  · rw [hunbroken]
    exact Copy.readBytes_or_going hup
  · rw [hunbroken]
    exact Copy.going_of_step hup
  · have hfinished := Copy.eq_finished_iff hup
    rcases release_cases hsem with ⟨rfl, rfl⟩ | ⟨hevent, rfl⟩
    · refine .gives hbefore ?_ rfl
      simpa [Session.hasOutput] using hfinished
    · refine .keeps _ rfl ?_ rfl
      rw [hbefore]
      simpa [Session.hasOutput, hfinished] using hevent

/-- A step that leaves the output and the semaphore alone. -/
theorem quiet_effect {session' : Session} {event : SessionEvent}
    (hacquire : event.isAcquire = false) (hread : event.readBytes = [])
    (hok : event.isFailure = false) (houtput : session'.hasOutput = session.hasOutput)
    (hpending : session'.pending = session.pending)
    (hfresh : session'.fresh = true → session.fresh = true)
    (hunbroken : session'.unbroken = true → session.unbroken = true) :
    Effect s (s.set c session') c session session' event none where
  sessions := rfl
  out := by simp [State.set]
  writer := nofun
  carried := by simp [hread, hpending]
  whole _ := by simp [hread, hpending]
  fresh := hfresh
  unread := Or.inl hread
  unbroken h := ⟨hunbroken h, hok⟩
  handover := .keeps event hacquire houtput rfl

theorem sessionStep_effect {event : SessionEvent} (h : s.sessionStep c session event = some s') :
    ∃ session' chunk, Effect s s' c session session' event chunk := by
  cases event with
  | check =>
      simp only [sessionStep] at h
      split at h
      · next hphase =>
          split at h
          · cases h
            exact ⟨_, none,
              quiet_effect rfl rfl rfl (by simp [Session.hasOutput, openFailed, hphase])
                (by simp [Session.pending, openFailed, hphase]) nofun nofun⟩
          · cases h
            exact ⟨_, none, quiet_effect rfl rfl rfl (by simp [Session.hasOutput, hphase])
              (by simp [Session.pending, hphase]) (by simp [Session.fresh, hphase])
              (by simp [Session.unbroken, Session.fresh, hphase])⟩
      · cases h
  | acquire =>
      simp only [sessionStep] at h
      split at h
      · next hphase =>
          split at h
          · cases h
          · next hsem =>
              cases h
              refine ⟨_, none, rfl, by simp [State.set], nofun, ?_, ?_, nofun, Or.inl rfl, ?_, ?_⟩
              · simp [Session.pending, Copy.pending]
              · simp [Session.pending, Copy.pending, hphase, SessionEvent.readBytes]
              · simp [Session.unbroken, Session.fresh, hphase, SessionEvent.isFailure]
              · exact .takes (by simp [Session.fresh, hphase]) (by simp [Session.hasOutput])
                  (by simpa using hsem) rfl
      · cases h
  | refuse err =>
      simp only [sessionStep] at h
      split at h
      · next hphase =>
          cases h
          exact ⟨_, none, quiet_effect rfl rfl rfl (by simp [Session.hasOutput, openFailed, hphase])
            (by simp [Session.pending, openFailed, hphase]) nofun nofun⟩
      · cases h
  | up event => exact up_effect h
  | down event =>
      simp only [sessionStep] at h
      split at h
      · next hphase =>
          obtain ⟨down', -, h⟩ := Option.bind_eq_some_iff.mp h
          cases h
          exact ⟨_, none, quiet_effect rfl rfl rfl (by simp [Session.hasOutput, hphase])
            (by simp [Session.pending, hphase]) nofun (by simp [Session.unbroken, hphase])⟩
      · cases h
  | wait =>
      simp only [sessionStep] at h
      split at h
      · next hphase =>
          cases h
          exact ⟨_, none, quiet_effect rfl rfl rfl (by simp [Session.hasOutput, hphase])
            (by simp [Session.pending, Copy.pending, hphase]) nofun nofun⟩
      · cases h

end State

end Inet256.Balancer.Stdio
