import Inet256.Foundation.Runs

/-!
# Keep-alives

A client sends a keep-alive every interval, and the server gives it up when its
timer runs out and no message was handled since it was last reset.  The test of
the flag and its reset are two steps, and a message that is handled between them
is forgotten.  Times are in nanoseconds since the connection was made.

The environment may run everything late, within bounds: the client's tick, the
way of a message up to the end of its handling, and the server's timer.  Where
the interval and the lateness of one keep-alive stay below the timeout, a client
that goes on is never given up; and one that has stopped is given up in time.
-/

namespace Inet256.Ipc

open Inet256.Foundation

structure KeepAliveConfig where
  keepAliveInterval : Nat
  keepAliveTimeout : Nat

def defaultKeepAlive : KeepAliveConfig := ⟨1000000000, 3000000000⟩

/-- How late the client's tick, a message, and the server's timer may be. -/
structure Lateness where
  tick : Nat
  message : Nat
  timer : Nat

/--
`due` is the client's next tick, `flight` the times at which the messages under
way were sent, and `since` the time at which the server's timer was last set.
`heard` records when a message was last handled.
-/
structure KeepAlive where
  now : Nat
  due : Nat
  died : Option Nat
  flight : List Nat
  gotOne : Bool
  tested : Bool
  since : Nat
  missed : Bool
  heard : Nat
  deriving DecidableEq

inductive KeepAliveEvent where
  | wait (d : Nat)
  /-- The client's ticker fires and the client sends. -/
  | tick
  /-- The client sends something else. -/
  | say
  /-- The client stops. -/
  | die
  /-- The server's read loop has handled the oldest message under way. -/
  | handle
  /-- The server's timer fires and the flag is read. -/
  | fire
  /-- The flag is cleared and the timer is set again. -/
  | reset
  deriving DecidableEq

/-- A ticker's channel holds one tick: what a late reader missed is dropped. -/
def nextTick (interval due now : Nat) : Nat :=
  due + ((now - due) / interval + 1) * interval

theorem le_nextTick (interval due now : Nat) : due ≤ nextTick interval due now :=
  Nat.le_add_right _ _

theorem nextTick_le (interval : Nat) {due now : Nat} (ready : due ≤ now) :
    nextTick interval due now ≤ now + interval := by
  have hlate : (now - due) / interval * interval ≤ now - due := Nat.div_mul_le_self _ _
  unfold nextTick
  rw [Nat.succ_mul]
  omega

namespace KeepAlive

variable (c : KeepAliveConfig)

def start : KeepAlive where
  now := 0
  due := c.keepAliveInterval
  died := none
  flight := []
  gotOne := false
  tested := false
  since := 0
  missed := false
  heard := 0

def step (s : KeepAlive) (event : KeepAliveEvent) : Option (KeepAlive × Unit) :=
  if s.missed then none
  else
    match event with
    | .wait d => some ({ s with now := s.now + d }, ())
    | .tick =>
        if s.died = none ∧ s.due ≤ s.now then
          some ({ s with
            due := nextTick c.keepAliveInterval s.due s.now
            flight := s.flight ++ [s.now] }, ())
        else none
    | .say =>
        if s.died = none then some ({ s with flight := s.flight ++ [s.now] }, ()) else none
    | .die => if s.died = none then some ({ s with died := some s.now }, ()) else none
    | .handle =>
        match s.flight with
        | [] => none
        | _ :: rest => some ({ s with flight := rest, gotOne := true, heard := s.now }, ())
    | .fire =>
        if s.tested = false ∧ s.since + c.keepAliveTimeout ≤ s.now then
          if s.gotOne then some ({ s with tested := true }, ())
          else some ({ s with missed := true }, ())
        else none
    | .reset =>
        if s.tested then
          some ({ s with tested := false, gotOne := false, since := s.now }, ())
        else none

/-- Time does not pass what is due by more than the bounds. -/
def timely (b : Lateness) (s : KeepAlive) : KeepAliveEvent → Prop
  | .wait d => s.now + d ≤ s.since + c.keepAliveTimeout + b.timer ∧
      (s.died = none → s.now + d ≤ s.due + b.tick) ∧
      ∀ sent ∈ s.flight, s.now + d ≤ sent + b.message
  | _ => True

instance (b : Lateness) (s : KeepAlive) (event : KeepAliveEvent) :
    Decidable (s.timely c b event) := by
  unfold timely
  split <;> infer_instance

/-- What a step can do. -/
inductive Moves (s : KeepAlive) : KeepAliveEvent → KeepAlive → Prop where
  | wait (d : Nat) : Moves s (.wait d) { s with now := s.now + d }
  | tick (alive : s.died = none) (ready : s.due ≤ s.now) :
      Moves s .tick
        { s with
          due := nextTick c.keepAliveInterval s.due s.now
          flight := s.flight ++ [s.now] }
  | say (alive : s.died = none) : Moves s .say { s with flight := s.flight ++ [s.now] }
  | die (alive : s.died = none) : Moves s .die { s with died := some s.now }
  | handle {sent : Nat} {rest : List Nat} (first : s.flight = sent :: rest) :
      Moves s .handle { s with flight := rest, gotOne := true, heard := s.now }
  | test (ready : s.since + c.keepAliveTimeout ≤ s.now) (got : s.gotOne = true) :
      Moves s .fire { s with tested := true }
  | miss (ready : s.since + c.keepAliveTimeout ≤ s.now) (got : s.gotOne = false) :
      Moves s .fire { s with missed := true }
  | reset (tested : s.tested = true) :
      Moves s .reset { s with tested := false, gotOne := false, since := s.now }

variable {c} {b : Lateness} {s s' : KeepAlive} {event : KeepAliveEvent} {seen : Unit}

theorem moves_of_step (h : s.step c event = some (s', seen)) :
    s.missed = false ∧ s.Moves c event s' := by
  unfold step at h
  split at h
  · cases h
  · next hrunning =>
      refine ⟨Bool.eq_false_iff.mpr hrunning, ?_⟩
      cases event with
      | wait d =>
          cases h
          exact .wait d
      | tick =>
          obtain ⟨hready, h⟩ := Option.ite_none_right_eq_some.mp h
          cases h
          exact .tick hready.1 hready.2
      | say =>
          obtain ⟨halive, h⟩ := Option.ite_none_right_eq_some.mp h
          cases h
          exact .say halive
      | die =>
          obtain ⟨halive, h⟩ := Option.ite_none_right_eq_some.mp h
          cases h
          exact .die halive
      | handle =>
          dsimp only at h
          split at h
          · cases h
          · next hflight =>
              cases h
              exact .handle hflight
      | fire =>
          obtain ⟨hready, h⟩ := Option.ite_none_right_eq_some.mp h
          split at h
          · next hgot =>
              cases h
              exact .test hready.2 hgot
          · next hgot =>
              cases h
              exact .miss hready.2 (Bool.eq_false_iff.mpr hgot)
      | reset =>
          obtain ⟨htested, h⟩ := Option.ite_none_right_eq_some.mp h
          cases h
          exact .reset htested

/-! ## The invariant -/

variable (c) (b) (s) in
/-- Nothing is later than its bound. -/
structure Punctual : Prop where
  timer : s.now ≤ s.since + c.keepAliveTimeout + b.timer
  tick : s.died = none → s.now ≤ s.due + b.tick
  message : ∀ sent ∈ s.flight, sent ≤ s.now ∧ s.now ≤ sent + b.message
  due : s.due ≤ s.now + c.keepAliveInterval
  since : s.since ≤ s.now

variable (c) (b) (s) in
/-- Where the flag is not set, the next keep-alive comes in time to set it. -/
def Expecting : Prop :=
  s.died = none → s.gotOne = false →
    (s.flight = [] → s.due ≤ s.since + c.keepAliveInterval) ∧
    ∀ sent, s.flight.head? = some sent → sent ≤ s.since + c.keepAliveInterval + b.tick

variable (c) (b) (s) in
/-- What the flag says of when a message was last handled. -/
structure Recalls : Prop where
  heard : s.heard ≤ s.now
  set : s.gotOne = true → s.since ≤ s.heard
  clear : s.gotOne = false →
    s.heard ≤ s.since ∧ s.since ≤ s.heard + (c.keepAliveTimeout + b.timer)
  tested : s.tested = true → s.gotOne = true
  died : ∀ time, s.died = some time → s.heard ≤ time + b.message ∧
    ∀ sent ∈ s.flight, sent ≤ time

theorem Punctual.message_sent (punctual : s.Punctual c b) :
    ∀ sent ∈ s.flight ++ [s.now], sent ≤ s.now ∧ s.now ≤ sent + b.message := by
  intro sent hsent
  rcases List.mem_append.mp hsent with hold | hnew
  · exact punctual.message sent hold
  · rw [List.mem_singleton.mp hnew]
    omega

theorem Punctual.step (punctual : s.Punctual c b) (htimely : s.timely c b event)
    (move : s.Moves c event s') : s'.Punctual c b := by
  have hsending := punctual.message_sent
  obtain ⟨htimer, htick, hmessage, hdue, hsince⟩ := punctual
  cases move with
  | wait d =>
      refine ⟨htimely.1, htimely.2.1, ?_, ?_, ?_⟩
      · intro sent hsent
        have hold := hmessage sent hsent
        have hlate := htimely.2.2 sent hsent
        dsimp only
        omega
      · dsimp only
        omega
      · dsimp only
        omega
  | tick alive ready =>
      have hnow := htick alive
      have hlater := le_nextTick c.keepAliveInterval s.due s.now
      refine ⟨htimer, fun _ => ?_, hsending, nextTick_le c.keepAliveInterval ready, hsince⟩
      dsimp only
      omega
  | say alive => exact ⟨htimer, htick, hsending, hdue, hsince⟩
  | die alive => exact ⟨htimer, by simp, hmessage, hdue, hsince⟩
  | handle first =>
      refine ⟨htimer, htick, fun other hother => hmessage other ?_, hdue, hsince⟩
      rw [first]
      exact List.mem_cons_of_mem _ hother
  | test ready got => exact ⟨htimer, htick, hmessage, hdue, hsince⟩
  | miss ready got => exact ⟨htimer, htick, hmessage, hdue, hsince⟩
  | reset tested => exact ⟨by dsimp only; omega, htick, hmessage, hdue, le_rfl⟩

theorem Expecting.head_le (expecting : s.Expecting c b) (punctual : s.Punctual c b)
    (alive : s.died = none) (hclear : s.gotOne = false) {sent : Nat}
    (hsent : (s.flight ++ [s.now]).head? = some sent) :
    sent ≤ s.since + c.keepAliveInterval + b.tick := by
  obtain ⟨hidle, hhead⟩ := expecting alive hclear
  -- The new message is the next one only where none was under way.
  cases hflight : s.flight with
  | nil =>
      rw [hflight] at hsent
      cases hsent
      have hnow := punctual.tick alive
      have hdue := hidle hflight
      omega
  | cons first rest =>
      refine hhead sent ?_
      rw [hflight] at hsent ⊢
      exact hsent

theorem Expecting.step (expecting : s.Expecting c b) (punctual : s.Punctual c b)
    (move : s.Moves c event s') : s'.Expecting c b := by
  cases move with
  | wait d => exact expecting
  | tick alive ready =>
      intro _ hclear
      exact ⟨by simp, fun sent => expecting.head_le punctual alive hclear⟩
  | say alive =>
      intro _ hclear
      exact ⟨by simp, fun sent => expecting.head_le punctual alive hclear⟩
  | die alive =>
      intro halive
      cases halive
  | handle first =>
      intro _ hclear
      cases hclear
  | test ready got => exact expecting
  | miss ready got => exact expecting
  | reset tested =>
      intro _ _
      refine ⟨fun _ => punctual.due, fun sent hsent => ?_⟩
      have hold := (punctual.message sent (List.mem_of_mem_head? hsent)).1
      dsimp only
      omega

theorem Recalls.step (recalls : s.Recalls c b) (punctual : s.Punctual c b)
    (move : s.Moves c event s') : s'.Recalls c b := by
  obtain ⟨hheard, hset, hclear, htested, hdied⟩ := recalls
  cases move with
  | wait d => exact ⟨by dsimp only; omega, hset, hclear, htested, hdied⟩
  | tick alive ready =>
      refine ⟨hheard, hset, hclear, htested, ?_⟩
      intro time htime
      rw [alive] at htime
      cases htime
  | say alive =>
      refine ⟨hheard, hset, hclear, htested, ?_⟩
      intro time htime
      rw [alive] at htime
      cases htime
  | die alive =>
      refine ⟨hheard, hset, hclear, htested, ?_⟩
      rintro time ⟨⟩
      exact ⟨by dsimp only; omega, fun sent hsent => (punctual.message sent hsent).1⟩
  | @handle sent rest first =>
      have hsent := punctual.message sent (by simp [first])
      refine ⟨le_rfl, fun _ => punctual.since, by simp, fun _ => rfl, ?_⟩
      intro time htime
      obtain ⟨-, hbefore⟩ := hdied time htime
      have hold := hbefore sent (by simp [first])
      refine ⟨by dsimp only; omega, fun other hother => hbefore other ?_⟩
      rw [first]
      exact List.mem_cons_of_mem _ hother
  | test ready got => exact ⟨hheard, hset, hclear, fun _ => got, hdied⟩
  | miss ready got => exact ⟨hheard, hset, hclear, htested, hdied⟩
  | reset tested =>
      have hsince := hset (htested tested)
      have htimer := punctual.timer
      exact ⟨hheard, by simp, fun _ => ⟨hheard, by dsimp only; omega⟩, by simp, hdied⟩

/-- Only a client that has stopped is missed. -/
theorem missed_step (hbounds : c.keepAliveInterval + b.tick + b.message < c.keepAliveTimeout)
    (punctual : s.Punctual c b) (expecting : s.Expecting c b) (hrunning : s.missed = false)
    (move : s.Moves c event s') (hmissed : s'.missed = true) : s'.died ≠ none := by
  cases move with
  | miss ready got =>
      intro halive
      obtain ⟨hidle, hhead⟩ := expecting halive got
      cases hflight : s.flight with
      | nil =>
          have hdue := hidle hflight
          have htick := punctual.tick halive
          omega
      | cons sent rest =>
          have hsent := hhead sent (by rw [hflight]; rfl)
          have hlate := (punctual.message sent (by simp [hflight])).2
          omega
  | _ =>
      rw [hrunning] at hmissed
      cases hmissed

/-! ## The protocol -/

/--
While the client goes on, it is not given up.  Once it has stopped, the server
gives it up after the last message may have been handled and two rounds of the
timer have passed.
-/
theorem keep_alive_protocol {trace : List (KeepAliveEvent × Unit)}
    (hbounds : c.keepAliveInterval + b.tick + b.message < c.keepAliveTimeout)
    (run : Runs (fun s event => s.step c event) (fun s event => s.timely c b event)
      (start c) trace s) :
    (s.died = none → s.missed = false) ∧
    ∀ time, s.died = some time → s.missed = false →
      s.now ≤ time + b.message + 2 * (c.keepAliveTimeout + b.timer) := by
  have hinv : (s.Punctual c b ∧ s.Expecting c b ∧ s.Recalls c b) ∧
      (s.missed = true → s.died ≠ none) := by
    refine run.invariant (motive := fun s => (s.Punctual c b ∧ s.Expecting c b ∧
      s.Recalls c b) ∧ (s.missed = true → s.died ≠ none)) ?_ ?_
    · refine ⟨⟨⟨Nat.zero_le _, fun _ => Nat.zero_le _, by simp [start], by simp [start],
        le_rfl⟩, ?_, ⟨le_rfl, by simp [start], by simp [start], by simp [start],
        by simp [start]⟩⟩, by simp [start]⟩
      intro _ _
      simp [start]
    · rintro s event s' seen ⟨⟨punctual, expecting, recalls⟩, -⟩ htimely hstep
      obtain ⟨hrunning, move⟩ := moves_of_step hstep
      exact ⟨⟨punctual.step htimely move, expecting.step punctual move,
        recalls.step punctual move⟩, missed_step hbounds punctual expecting hrunning move⟩
  obtain ⟨⟨punctual, -, recalls⟩, hmissed⟩ := hinv
  constructor
  · intro halive
    exact Bool.eq_false_iff.mpr fun h => hmissed h halive
  · intro time htime _
    have hheard := (recalls.died time htime).1
    have htimer := punctual.timer
    cases hflag : s.gotOne with
    | true =>
        have hset := recalls.set hflag
        omega
    | false =>
        have hclear := recalls.clear hflag
        omega

def sampleLateness : Lateness := ⟨100000000, 500000000, 100000000⟩

/-- A keep-alive and a request arrive, then the client stops and the timer runs out once. -/
def sampleKeepAlives : List KeepAliveEvent :=
  [.wait 1000000000, .tick, .say, .wait 200000000, .handle, .handle, .die, .wait 1800000000,
    .fire, .reset, .wait 2000000000]

theorem keep_alive_protocol_sample :
    ∃ trace s, trace.map Prod.fst = sampleKeepAlives ∧
      Runs (fun s event => s.step defaultKeepAlive event)
        (fun s event => s.timely defaultKeepAlive sampleLateness event)
        (start defaultKeepAlive) trace s ∧ s.died = some 1200000000 ∧ s.missed = false ∧
      s.now ≤ 1200000000 + 500000000 + 2 * (3000000000 + 100000000) := by
  have hreplay : (replay (fun s event => s.step defaultKeepAlive event)
      (fun s event => s.timely defaultKeepAlive sampleLateness event)
      (start defaultKeepAlive) sampleKeepAlives).map
      (fun result => (result.1.died, result.1.missed)) = some (some 1200000000, false) := by
    decide +kernel
  obtain ⟨trace, s, hevents, run, hboth⟩ := exists_run_of_map hreplay
  obtain ⟨hdied, hmissed⟩ := Prod.mk.inj hboth
  have hprotocol := keep_alive_protocol (by decide) run
  exact ⟨trace, s, hevents, run, hdied, hmissed, hprotocol.2 _ hdied hmissed⟩

end KeepAlive

end Inet256.Ipc
