import Inet256.Foundation.Runs
import Inet256.Foundation.Runtime
import Inet256.Pki.Codec

/-!
# Nodes as packet connections

`packetConn` makes a `net.PacketConn` of a node.  It keeps a deadline for each
direction.  A call of `ReadFrom` or `WriteTo` turns the one for its direction,
as it is when the call begins, into the deadline of the context for the node.
-/

namespace Inet256.Conn

open Inet256.Foundation

/-! ## Errors, contexts and addresses -/

/-- An `error`, as far as `errors.Is` looks for `context.DeadlineExceeded` in it. -/
inductive Err where
  | deadlineExceeded
  | osDeadlineExceeded
  | new (text : String)
  | wrap (text : String) (cause : Err)
  deriving DecidableEq

def Err.isDeadlineExceeded : Err → Bool
  | .deadlineExceeded => true
  | .osDeadlineExceeded => false
  | .new _ => false
  | .wrap _ cause => cause.isDeadlineExceeded

def convertError (err : Err) : Err :=
  if err.isDeadlineExceeded then .osDeadlineExceeded else err

structure Context where
  deadline : Option Time
  deriving DecidableEq

namespace Context

def background : Context := ⟨none⟩

/-- `context.WithDeadline`: an earlier deadline of the parent stays. -/
def withDeadline (parent : Context) (d : Time) : Context :=
  match parent.deadline with
  | some cur => if d.after cur then parent else ⟨some d⟩
  | none => ⟨some d⟩

/-- The deadline has passed at this time. -/
def expired (ctx : Context) (now : Time) : Bool :=
  match ctx.deadline with
  | some d => !d.after now
  | none => false

end Context

/-- A `net.Addr`: an address of the network, or any other, which prints as the text. -/
inductive NetAddr where
  | inet256 (addr : Addr)
  | other (text : String)

def convertAddr : NetAddr → Except Err Addr
  | .inet256 addr => .ok addr
  | .other text => .error (.new s!"invalid address: {text}")

/-! ## The connection -/

structure PacketConn where
  readDeadline : Option Time
  writeDeadline : Option Time
  deriving DecidableEq

namespace PacketConn

def new : PacketConn := ⟨none, none⟩

def setDeadline (pc : PacketConn) (t : Time) : PacketConn :=
  { pc with readDeadline := some t, writeDeadline := some t }

def setWriteDeadline (pc : PacketConn) (t : Time) : PacketConn :=
  { pc with writeDeadline := some t }

def setReadDeadline (pc : PacketConn) (t : Time) : PacketConn :=
  { pc with readDeadline := some t }

def contextFor (dl : Option Time) : Context :=
  match dl with
  | some dl => Context.background.withDeadline dl
  | none => Context.background

def getReadContext (pc : PacketConn) : Context := contextFor pc.readDeadline

def getWriteContext (pc : PacketConn) : Context := contextFor pc.writeDeadline

@[simp] theorem deadline_contextFor (dl : Option Time) : (contextFor dl).deadline = dl := by
  cases dl <;> rfl

end PacketConn

/-! ## Calls on a connection -/

/-- A call that waits for the node, with the caller's buffer. -/
inductive Pending where
  | readFrom (p : Bytes)
  | writeTo (p : Bytes)
  deriving DecidableEq

structure State where
  pc : PacketConn
  calls : GoMap Nat Pending

inductive Event where
  | setDeadline (t : Time)
  | setReadDeadline (t : Time)
  | setWriteDeadline (t : Time)
  | readFrom (call : Nat) (p : Bytes)
  | writeTo (call : Nat) (p : Bytes) (addr : NetAddr)
  /-- `Receive` returns, after it has passed on a message or without one. -/
  | received (call : Nat) (message : Option (Addr × Bytes)) (err : Option Err)
  /-- `Send` returns. -/
  | sent (call : Nat) (err : Option Err)

inductive Seen where
  | nothing
  /-- `Receive` is called on the node. -/
  | receive (ctx : Context)
  /-- `Send` is called on the node. -/
  | send (ctx : Context) (dst : Addr) (p : Bytes)
  /-- `ReadFrom` returns, with the buffer as it is then. -/
  | read (p : Bytes) (n : Nat) (addr : Option Addr) (err : Option Err)
  /-- `WriteTo` returns. -/
  | wrote (n : Nat) (err : Option Err)
  deriving DecidableEq

/-- What `ReadFrom` returns when `Receive` has returned. -/
def finishRead (p : Bytes) (message : Option (Addr × Bytes)) (err : Option Err) : Seen :=
  -- the callback has run before the error is looked at
  let n := match message with
    | some (_, payload) => min p.length payload.length
    | none => 0
  let p := match message with
    | some (_, payload) => payload.take n ++ p.drop n
    | none => p
  match err with
  | some err => .read p n none (some (convertError err))
  | none => .read p n (message.map Prod.fst) none

/-- What `WriteTo` returns when `Send` has returned. -/
def finishWrite (p : Bytes) : Option Err → Seen
  | some err => .wrote 0 (some (convertError err))
  | none => .wrote p.length none

namespace State

def new : State := ⟨.new, ∅⟩

def enter (s : State) (call : Nat) (pending : Pending) : State :=
  { s with calls := s.calls.insert call pending }

def leave (s : State) (call : Nat) : State := { s with calls := s.calls.erase call }

/-- Setters and the beginnings of calls hold the lock while they use the deadlines. -/
def step (s : State) : Event → Option (State × Seen)
  | .setDeadline t => some ({ s with pc := s.pc.setDeadline t }, .nothing)
  | .setReadDeadline t => some ({ s with pc := s.pc.setReadDeadline t }, .nothing)
  | .setWriteDeadline t => some ({ s with pc := s.pc.setWriteDeadline t }, .nothing)
  | .readFrom call p =>
      match s.calls.lookup call with
      | some _ => none
      | none => some (s.enter call (.readFrom p), .receive s.pc.getReadContext)
  | .writeTo call p addr =>
      match s.calls.lookup call with
      | some _ => none
      | none =>
          match convertAddr addr with
          | .error err => some (s, .wrote 0 (some err))
          | .ok dst => some (s.enter call (.writeTo p), .send s.pc.getWriteContext dst p)
  | .received call message err =>
      match s.calls.lookup call with
      | some (.readFrom p) => some (s.leave call, finishRead p message err)
      | _ => none
  | .sent call err =>
      match s.calls.lookup call with
      | some (.writeTo p) => some (s.leave call, finishWrite p err)
      | _ => none

end State

/-! ## The deadlines of a run -/

inductive Direction where
  | read
  | write

@[simp] def PacketConn.deadline (pc : PacketConn) : Direction → Option Time
  | .read => pc.readDeadline
  | .write => pc.writeDeadline

/-- The time that a call sets for the direction. -/
@[simp] def Event.sets : Direction → Event → Option Time
  | _, .setDeadline t => some t
  | .read, .setReadDeadline t => some t
  | .write, .setWriteDeadline t => some t
  | _, _ => none

/-- The context that the node is called with. -/
def Seen.context : Seen → Option (Direction × Context)
  | .receive ctx => some (.read, ctx)
  | .send ctx _ _ => some (.write, ctx)
  | _ => none

abbrev Trace := List (Event × Seen)

variable {s s' : State} {event : Event} {seen : Seen} {trace : Trace}

@[simp] theorem context_finishRead (p : Bytes) (message : Option (Addr × Bytes))
    (err : Option Err) : (finishRead p message err).context = none := by
  cases err <;> rfl

@[simp] theorem context_finishWrite (p : Bytes) (err : Option Err) :
    (finishWrite p err).context = none := by
  cases err <;> rfl

/-- What is seen of a connection when a call begins or returns. -/
inductive Seen.OfCall (pc : PacketConn) : Seen → Prop
  | receive : OfCall pc (.receive pc.getReadContext)
  | send (dst : Addr) (p : Bytes) : OfCall pc (.send pc.getWriteContext dst p)
  | refused {addr : NetAddr} {err : Err} (h : convertAddr addr = .error err) :
      OfCall pc (.wrote 0 (some err))
  | read (p : Bytes) (message : Option (Addr × Bytes)) (err : Option Err) :
      OfCall pc (finishRead p message err)
  | wrote (p : Bytes) (err : Option Err) : OfCall pc (finishWrite p err)

/-- A step sets deadlines and shows nothing, or it leaves them. -/
theorem State.step_cases (h : s.step event = some (s', seen)) :
    (seen = .nothing ∧ ∀ direction,
      s'.pc.deadline direction = (event.sets direction).or (s.pc.deadline direction)) ∨
    (seen.OfCall s.pc ∧ s'.pc = s.pc ∧ ∀ direction, event.sets direction = none) := by
  cases event with
  | setDeadline t | setReadDeadline t | setWriteDeadline t =>
      cases h
      exact Or.inl ⟨rfl, fun direction => by cases direction <;> rfl⟩
  | readFrom call p =>
      simp only [State.step] at h
      split at h
      · cases h
      · cases h
        exact Or.inr ⟨.receive, rfl, by simp⟩
  | writeTo call p addr =>
      simp only [State.step] at h
      split at h
      · cases h
      · split at h
        · next err herr =>
            cases h
            exact Or.inr ⟨.refused herr, rfl, by simp⟩
        · next dst _ =>
            cases h
            exact Or.inr ⟨.send dst p, rfl, by simp⟩
  | received call message err =>
      simp only [State.step] at h
      split at h
      · next p _ =>
          cases h
          exact Or.inr ⟨.read p message err, rfl, by simp⟩
      · cases h
  | sent call err =>
      simp only [State.step] at h
      split at h
      · next p _ =>
          cases h
          exact Or.inr ⟨.wrote p err, rfl, by simp⟩
      · cases h

theorem Seen.OfCall.deadline {pc : PacketConn} (h : seen.OfCall pc) {direction : Direction}
    {ctx : Context} (hctx : seen.context = some (direction, ctx)) :
    ctx.deadline = pc.deadline direction := by
  cases h with
  | receive | send dst p =>
      cases hctx
      exact PacketConn.deadline_contextFor _
  | refused => cases hctx
  | read p message err => simp at hctx
  | wrote p err => simp at hctx

theorem State.step_deadline (h : s.step event = some (s', seen)) (direction : Direction) :
    s'.pc.deadline direction = (event.sets direction).or (s.pc.deadline direction) := by
  rcases State.step_cases h with ⟨-, hsets⟩ | ⟨-, hsame, hnone⟩
  · exact hsets direction
  · rw [hsame, hnone, Option.none_or]

theorem State.step_context (h : s.step event = some (s', seen)) {direction : Direction}
    {ctx : Context} (hctx : seen.context = some (direction, ctx)) :
    ctx.deadline = s.pc.deadline direction := by
  rcases State.step_cases h with ⟨rfl, -⟩ | ⟨hcall, -⟩
  · cases hctx
  · exact hcall.deadline hctx

theorem deadline_eq_latest (run : Runs State.step anyEvent .new trace s) (direction : Direction) :
    s.pc.deadline direction = latest (Event.sets direction) trace := by
  refine run.field_eq_latest (fun s => s.pc.deadline direction) ?_ ?_
  · cases direction <;> rfl
  · intro s event s' seen hstep
    exact State.step_deadline hstep direction

/-! ## The contract of `net.PacketConn` -/

/-- What is set with the latest call counts, and the zero time sets no deadline. -/
def contractDeadline (set : Option Time) : Option Time := set.filter (· ≠ Time.zero)

theorem eq_contractDeadline_iff (set : Option Time) :
    set = contractDeadline set ↔ set ≠ some Time.zero := by
  cases set with
  | none => simp [contractDeadline]
  | some t =>
      by_cases ht : t = Time.zero
      · simp [contractDeadline, Option.filter, ht]
      · simp [contractDeadline, Option.filter, ht]

/-- The node was called in this direction, with the context, after the calls before it. -/
def CalledAfter (trace before : Trace) (direction : Direction) (ctx : Context) : Prop :=
  ∃ event seen after, trace = before ++ (event, seen) :: after ∧
    seen.context = some (direction, ctx)

def FollowsContract (trace : Trace) : Prop :=
  ∀ before direction ctx, CalledAfter trace before direction ctx →
    ctx.deadline = contractDeadline (latest (Event.sets direction) before)

theorem context_eq_latest (run : Runs State.step anyEvent .new trace s) {before : Trace}
    {direction : Direction} {ctx : Context} (hcalled : CalledAfter trace before direction ctx) :
    ctx.deadline = latest (Event.sets direction) before := by
  obtain ⟨event, seen, after, rfl, hctx⟩ := hcalled
  obtain ⟨here, there, hbefore, -, hstep, -⟩ := run.middle
  rw [← deadline_eq_latest hbefore direction]
  exact State.step_context hstep hctx

/--
The contexts of a run follow the contract if and only if none is taken when the latest call for
its direction has set the zero time.
-/
theorem deadlines_follow_contract_iff (run : Runs State.step anyEvent .new trace s) :
    FollowsContract trace ↔
      ∀ before direction ctx, CalledAfter trace before direction ctx →
        latest (Event.sets direction) before ≠ some Time.zero := by
  constructor
  · intro h before direction ctx hcalled
    have hcontract := h before direction ctx hcalled
    rw [context_eq_latest run hcalled] at hcontract
    exact (eq_contractDeadline_iff _).mp hcontract
  · intro h before direction ctx hcalled
    rw [context_eq_latest run hcalled]
    exact (eq_contractDeadline_iff _).mpr (h before direction ctx hcalled)

/-- A reader and a writer whose deadlines are set by different calls. -/
def sampleEvents : List Event :=
  [.readFrom 0 [0, 0], .setDeadline ⟨2 * second⟩, .setReadDeadline ⟨3 * second⟩,
    .writeTo 1 [7] (.inet256 (copyTo 32 [9])), .received 0 (some (copyTo 32 [9], [1])) none,
    .readFrom 2 [0], .sent 1 (some .deadlineExceeded)]

theorem deadlines_follow_contract_iff_sample :
    ∃ trace s, trace.map Prod.fst = sampleEvents ∧
      trace.map Prod.snd = [.receive ⟨none⟩, .nothing, .nothing,
        .send ⟨some ⟨2 * second⟩⟩ (copyTo 32 [9]) [7], .read [1, 0] 1 (some (copyTo 32 [9])) none,
        .receive ⟨some ⟨3 * second⟩⟩, .wrote 0 (some .osDeadlineExceeded)] ∧
      Runs State.step anyEvent .new trace s ∧
      (FollowsContract trace ↔
        ∀ before direction ctx, CalledAfter trace before direction ctx →
          latest (Event.sets direction) before ≠ some Time.zero) := by
  have hreplay : (replay State.step anyEvent .new sampleEvents).map
      (fun result => result.2.map Prod.snd) = some [.receive ⟨none⟩, .nothing, .nothing,
        .send ⟨some ⟨2 * second⟩⟩ (copyTo 32 [9]) [7], .read [1, 0] 1 (some (copyTo 32 [9])) none,
        .receive ⟨some ⟨3 * second⟩⟩, .wrote 0 (some .osDeadlineExceeded)] := by
    decide +kernel
  obtain ⟨trace, s, hevents, run, hseen⟩ := exists_run_of_map hreplay
  exact ⟨trace, s, hevents, hseen, run, deadlines_follow_contract_iff run⟩

/-- A read deadline is set and cleared, and a message is waited for. -/
def clearedTrace : Trace :=
  [(.setReadDeadline ⟨second⟩, .nothing), (.setDeadline Time.zero, .nothing),
    (.readFrom 0 [0], .receive ⟨some Time.zero⟩)]

/-- Clearing the deadline leaves one that has always passed. -/
theorem zero_time_sets_deadline :
    (∃ s, Runs State.step anyEvent .new clearedTrace s) ∧
      (∀ now : Time, Time.zero.nanos ≤ now.nanos →
        Context.expired ⟨some Time.zero⟩ now = true) ∧
      ¬ FollowsContract clearedTrace := by
  refine ⟨?_, ?_, ?_⟩
  · have hreplay : replay State.step anyEvent .new (clearedTrace.map Prod.fst) =
        some (⟨⟨some Time.zero, some Time.zero⟩, (∅ : GoMap Nat Pending).insert 0 (.readFrom [0])⟩,
          clearedTrace) := rfl
    exact ⟨_, (runs_of_replay hreplay).1⟩
  · intro now hnow
    simpa [Context.expired, Time.after] using hnow
  · intro hcontract
    have hcalled : CalledAfter clearedTrace (clearedTrace.take 2) .read ⟨some Time.zero⟩ :=
      ⟨.readFrom 0 [0], .receive ⟨some Time.zero⟩, [], rfl, rfl⟩
    exact absurd (hcontract _ _ _ hcalled) (by decide)

/-! ## What the calls return -/

/--
An error comes without an address or a count of written bytes, and what the node reports as an
exceeded deadline is the error of package `os`.
-/
def Seen.ReportsError : Seen → Prop
  | .read _ _ addr (some err) => addr = none ∧ err.isDeadlineExceeded = false
  | .wrote n (some err) => n = 0 ∧ err.isDeadlineExceeded = false
  | _ => True

theorem isDeadlineExceeded_convertError (err : Err) :
    (convertError err).isDeadlineExceeded = false := by
  unfold convertError
  split
  · rfl
  · next h => simpa using h

theorem reportsError_finishRead (p : Bytes) (message : Option (Addr × Bytes))
    (err : Option Err) : (finishRead p message err).ReportsError := by
  cases err with
  | none => trivial
  | some err => exact ⟨rfl, isDeadlineExceeded_convertError err⟩

theorem reportsError_finishWrite (p : Bytes) (err : Option Err) :
    (finishWrite p err).ReportsError := by
  cases err with
  | none => trivial
  | some err => exact ⟨rfl, isDeadlineExceeded_convertError err⟩

theorem isDeadlineExceeded_convertAddr {addr : NetAddr} {err : Err}
    (h : convertAddr addr = .error err) : err.isDeadlineExceeded = false := by
  cases addr with
  | inet256 addr => cases h
  | other text =>
      cases h
      rfl

theorem Seen.OfCall.reportsError {pc : PacketConn} (h : seen.OfCall pc) :
    seen.ReportsError := by
  cases h with
  | receive | send dst p => trivial
  | refused haddr => exact ⟨rfl, isDeadlineExceeded_convertAddr haddr⟩
  | read p message err => exact reportsError_finishRead p message err
  | wrote p err => exact reportsError_finishWrite p err

theorem State.step_reportsError (h : s.step event = some (s', seen)) : seen.ReportsError := by
  rcases State.step_cases h with ⟨rfl, -⟩ | ⟨hcall, -⟩
  · trivial
  · exact hcall.reportsError

theorem returned_errors_reported (run : Runs State.step anyEvent .new trace s) :
    ∀ entry ∈ trace, entry.2.ReportsError := by
  have hrun : True ∧ ∀ entry ∈ trace, entry.2.ReportsError :=
    run.safety trivial fun _ _ _ _ _ _ hstep => ⟨trivial, State.step_reportsError hstep⟩
  exact hrun.2

end Inet256.Conn
