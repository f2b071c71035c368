import Inet256.Balancer.Stdio
import Inet256.Foundation.Runs
import Inet256.Foundation.Segments

/-!
# The output of all connections

The connections write to the output in turns: whoever has the semaphore came last
and is the only one to write until it is closed.  What was read from a connection
and what was written for it are compared along the whole run.
-/

namespace Inet256.Balancer.Stdio

open Inet256.Foundation

/-! ## Traces -/

def Event.opens : Event → Option Nat
  | .session c event => if event.isAcquire then some c else none
  | _ => none

def Event.readBy (c : Nat) : Event → Bytes
  | .session other event => if other = c then event.readBytes else []
  | _ => []

def Event.failsFor (c : Nat) : Event → Bool
  | .session other event => decide (other = c) && event.isFailure
  | _ => false

/-- The connections that got the semaphore, in their order. -/
def opened (trace : List (Event × Unit)) : List Nat := trace.filterMap fun entry => entry.1.opens

/-- What was read from the connection. -/
def got (trace : List (Event × Unit)) (c : Nat) : Bytes :=
  trace.flatMap fun entry => entry.1.readBy c

/-- What was written to the output for the connection. -/
def written (s : State) (c : Nat) : Bytes := (entriesOf s.out c).flatMap Prod.snd

/-- No write for the connection has failed. -/
def Intact (trace : List (Event × Unit)) (c : Nat) : Prop :=
  ∀ entry ∈ trace, entry.1.failsFor c = false

theorem opened_concat (trace : List (Event × Unit)) (event : Event) (seen : Unit) :
    opened (trace ++ [(event, seen)]) = opened trace ++ event.opens.toList := by
  rw [opened, List.filterMap_append]
  cases h : event.opens <;> simp [opened, h]

theorem got_concat (trace : List (Event × Unit)) (event : Event) (seen : Unit) (c : Nat) :
    got (trace ++ [(event, seen)]) c = got trace c ++ event.readBy c := by
  simp [got]

theorem Intact.init {trace : List (Event × Unit)} {event : Event} {seen : Unit} {c : Nat}
    (h : Intact (trace ++ [(event, seen)]) c) :
    Intact trace c ∧ event.failsFor c = false :=
  ⟨fun entry hentry => h entry (List.mem_append_left _ hentry), h (event, seen) (by simp)⟩

structure Inv (trace : List (Event × Unit)) (s : State) : Prop where
  turns : Turns (opened trace) s.out
  used : ∀ c ∈ opened trace, ∃ session, s.sessions[c]? = some session ∧ session.fresh = false
  holder : ∀ c session, s.sessions[c]? = some session → session.hasOutput = true →
    s.sem = true ∧ ∃ before, opened trace = before ++ [c]
  busy : s.sem = true → ∃ (c : Nat) (session : Session),
    s.sessions[c]? = some session ∧ session.hasOutput = true
  unread : ∀ c, s.sessions.length ≤ c → got trace c = []
  carried : ∀ c session, s.sessions[c]? = some session →
    written s c ++ session.pending <+: got trace c
  whole : ∀ c session, s.sessions[c]? = some session →
    session.unbroken = true ∨ Intact trace c → written s c ++ session.pending = got trace c

theorem inv_new : Inv [] newRWBackend where
  turns := .nil
  used := by simp [opened]
  holder := by simp [newRWBackend]
  busy := by simp [newRWBackend]
  unread := by simp [got]
  carried := by simp [newRWBackend]
  whole := by simp [newRWBackend]

namespace Inv

variable {trace : List (Event × Unit)} {s s' : State} {c : Nat} {session session' : Session}
  {event : SessionEvent} {chunk : Option Bytes}

theorem holder_unique (inv : Inv trace s) {c' : Nat} (hc : s.sessions[c]? = some session)
    (houtput : session.hasOutput = true) (hc' : s.sessions[c']? = some session')
    (houtput' : session'.hasOutput = true) : c = c' := by
  obtain ⟨-, before, hlast⟩ := inv.holder c session hc houtput
  obtain ⟨-, before', hlast'⟩ := inv.holder c' session' hc' houtput'
  have hboth := hlast.symm.trans hlast'
  simpa using (List.append_inj' hboth rfl).2

theorem written_of_length_le (inv : Inv trace s) (hc : s.sessions.length ≤ c) :
    written s c = [] := by
  have hunused : c ∉ opened trace := by
    intro hmem
    obtain ⟨session, hsession, -⟩ := inv.used c hmem
    rw [List.getElem?_eq_none hc] at hsession
    cases hsession
  rw [written, inv.turns.entriesOf_eq_nil hunused, List.flatMap_nil]

theorem accept (inv : Inv trace s) :
    Inv (trace ++ [(.accept, ())]) { s with sessions := s.sessions ++ [⟨.opening, false⟩] } := by
  have hopened : opened (trace ++ [(.accept, ())]) = opened trace := by
    simp [opened_concat, Event.opens]
  have hgot : ∀ c, got (trace ++ [(.accept, ())]) c = got trace c := by
    simp [got_concat, Event.readBy]
  constructor
  · rw [hopened]
    exact inv.turns
  · rw [hopened]
    intro c hc
    obtain ⟨session, hsession, hfresh⟩ := inv.used c hc
    exact ⟨session, getElem?_concat_of_some hsession, hfresh⟩
  · rw [hopened]
    intro c session hsession houtput
    rcases getElem?_concat_cases hsession with hold | ⟨-, rfl⟩
    · exact inv.holder c session hold houtput
    · cases houtput
  · intro hsem
    obtain ⟨c, session, hsession, houtput⟩ := inv.busy hsem
    exact ⟨c, session, getElem?_concat_of_some hsession, houtput⟩
  · intro c hc
    rw [hgot]
    rw [List.length_append] at hc
    exact inv.unread c (by omega)
  · intro c session hsession
    rw [hgot]
    rcases getElem?_concat_cases hsession with hold | ⟨rfl, rfl⟩
    · exact inv.carried c session hold
    · have hnone : written s s.sessions.length = [] := inv.written_of_length_le (Nat.le_refl _)
      change written s _ ++ [] <+: _
      simp [hnone]
  · intro c session hsession hintact
    rw [hgot]
    rcases getElem?_concat_cases hsession with hold | ⟨rfl, rfl⟩
    · exact inv.whole c session hold (hintact.imp id fun h => h.init.1)
    · have hnone : written s s.sessions.length = [] := inv.written_of_length_le (Nat.le_refl _)
      change written s _ ++ [] = _
      rw [hnone, inv.unread _ (Nat.le_refl _), List.append_nil]

theorem fresh_not_hasOutput (h : session.fresh = true) : session.hasOutput = false := by
  unfold Session.fresh at h
  unfold Session.hasOutput
  split
  · next hphase => simp [hphase] at h
  · rfl

theorem written_step (effect : Effect s s' c session session' event chunk) (other : Nat) :
    written s' other = written s other ++ if c = other then chunk.getD [] else [] := by
  rw [written, effect.out, entriesOf_append, List.flatMap_append, written]
  congr 1
  cases chunk with
  | none => simp [entriesOf]
  | some data =>
      split
      · next hsame => simp [entriesOf, hsame]
      · next hne => simp [entriesOf, hne]

theorem sessions_cases (effect : Effect s s' c session session' event chunk) {other : Nat}
    {x : Session} (h : s'.sessions[other]? = some x) :
    (c = other ∧ x = session') ∨ (c ≠ other ∧ s.sessions[other]? = some x) := by
  rw [effect.sessions] at h
  rcases eq_or_ne c other with rfl | hne
  · rw [List.getElem?_set_self'] at h
    obtain ⟨_, -, rfl⟩ := Option.map_eq_some_iff.mp h
    exact Or.inl ⟨rfl, rfl⟩
  · rw [List.getElem?_set_ne hne] at h
    exact Or.inr ⟨hne, h⟩

theorem turns_step (inv : Inv trace s) (hc : s.sessions[c]? = some session)
    (effect : Effect s s' c session session' event chunk) :
    Turns (opened trace ++ (Event.session c event).opens.toList) s'.out := by
  rw [effect.out]
  cases chunk with
  | some data =>
      -- the writer is the last one that came, and no other comes by this step
      have houtput := effect.writer nofun
      obtain ⟨-, before, hlast⟩ := inv.holder c session hc houtput
      have hnone : (Event.session c event).opens = none := by
        cases effect.handover with
        | keeps _ hother => simp [Event.opens, hother]
        | takes hfresh =>
            rw [fresh_not_hasOutput hfresh] at houtput
            cases houtput
        | gives => rfl
      have hturns := inv.turns
      rw [hlast] at hturns
      rw [hnone, hlast]
      simpa using hturns.write data
  | none =>
      simp only [Option.toList_none, List.map_nil, List.append_nil]
      cases effect.handover with
      | keeps _ hother => simpa [Event.opens, hother] using inv.turns
      | takes hfresh =>
          refine inv.turns.pass fun hmem => ?_
          obtain ⟨used, hused, hnot⟩ := inv.used c hmem
          cases hc.symm.trans hused
          rw [hfresh] at hnot
          cases hnot
      | gives => simpa [Event.opens, SessionEvent.isAcquire] using inv.turns

theorem used_step (inv : Inv trace s) (hc : s.sessions[c]? = some session)
    (effect : Effect s s' c session session' event chunk)
    (hself : s'.sessions[c]? = some session') :
    ∀ other ∈ opened trace ++ (Event.session c event).opens.toList,
      ∃ x, s'.sessions[other]? = some x ∧ x.fresh = false := by
  intro other hmem
  rcases List.mem_append.mp hmem with hold | hnew
  · obtain ⟨x, hx, hfresh⟩ := inv.used other hold
    rcases eq_or_ne c other with rfl | hne
    · cases hc.symm.trans hx
      refine ⟨session', hself, Bool.eq_false_iff.mpr fun hfresh' => ?_⟩
      rw [effect.fresh hfresh'] at hfresh
      cases hfresh
    · exact ⟨x, by rw [effect.sessions, List.getElem?_set_ne hne, hx], hfresh⟩
  · cases effect.handover with
    | keeps _ hother => simp [Event.opens, hother] at hnew
    | takes _ houtput =>
        obtain rfl : c = other := by simpa [Event.opens, SessionEvent.isAcquire, eq_comm] using hnew
        refine ⟨session', hself, Bool.eq_false_iff.mpr fun hfresh => ?_⟩
        rw [fresh_not_hasOutput hfresh] at houtput
        cases houtput
    | gives => simp [Event.opens, SessionEvent.isAcquire] at hnew

theorem holder_step (inv : Inv trace s) (hc : s.sessions[c]? = some session)
    (effect : Effect s s' c session session' event chunk) {other : Nat} {x : Session}
    (hx : s'.sessions[other]? = some x) (houtput : x.hasOutput = true) :
    s'.sem = true ∧
      ∃ before, opened trace ++ (Event.session c event).opens.toList = before ++ [other] := by
  rcases sessions_cases effect hx with ⟨rfl, rfl⟩ | ⟨hne, hold⟩
  · cases effect.handover with
    | keeps _ hother hsame hsem =>
        obtain ⟨hfull, hlast⟩ := inv.holder c session hc (hsame ▸ houtput)
        rw [hsem]
        exact ⟨hfull, by simpa [Event.opens, hother] using hlast⟩
    | takes _ _ _ hsem => exact ⟨hsem, opened trace, rfl⟩
    | gives _ hafter =>
        rw [hafter] at houtput
        cases houtput
  · obtain ⟨hfull, hlast⟩ := inv.holder other x hold houtput
    cases effect.handover with
    | keeps _ hother _ hsem =>
        rw [hsem]
        exact ⟨hfull, by simpa [Event.opens, hother] using hlast⟩
    | takes _ _ hfree =>
        rw [hfree] at hfull
        cases hfull
    | gives hbefore => exact absurd (inv.holder_unique hc hbefore hold houtput) hne

theorem busy_step (inv : Inv trace s) (hc : s.sessions[c]? = some session)
    (effect : Effect s s' c session session' event chunk)
    (hself : s'.sessions[c]? = some session') (hsem : s'.sem = true) :
    ∃ (other : Nat) (x : Session), s'.sessions[other]? = some x ∧ x.hasOutput = true := by
  cases effect.handover with
  | keeps _ _ hsame hkept =>
      obtain ⟨other, x, hx, houtput⟩ := inv.busy (hkept ▸ hsem)
      rcases eq_or_ne c other with rfl | hne
      · cases hc.symm.trans hx
        exact ⟨c, session', hself, hsame.trans houtput⟩
      · exact ⟨other, x, by rw [effect.sessions, List.getElem?_set_ne hne, hx], houtput⟩
  | takes _ houtput => exact ⟨c, session', hself, houtput⟩
  | gives _ _ hfree =>
      rw [hfree] at hsem
      cases hsem

theorem carried_step (inv : Inv trace s) (hc : s.sessions[c]? = some session)
    (effect : Effect s s' c session session' event chunk) :
    written s c ++ chunk.getD [] ++ session'.pending <+: got trace c ++ event.readBytes := by
  have hstep := (List.prefix_append_right_inj (written s c)).mpr effect.carried
  rw [List.append_assoc]
  rcases effect.unread with hread | hunbroken
  · rw [hread, List.append_nil] at hstep ⊢
    exact hstep.trans (inv.carried c session hc)
  · rw [← inv.whole c session hc (Or.inl hunbroken), List.append_assoc]
    exact hstep

theorem serve (inv : Inv trace s) (hc : s.sessions[c]? = some session)
    (effect : Effect s s' c session session' event chunk) (seen : Unit) :
    Inv (trace ++ [(.session c event, seen)]) s' := by
  have hself : s'.sessions[c]? = some session' := by
    rw [effect.sessions, List.getElem?_set_self (List.getElem?_eq_some_iff.mp hc).1]
  constructor
  · rw [opened_concat]
    exact inv.turns_step hc effect
  · rw [opened_concat]
    exact inv.used_step hc effect hself
  · rw [opened_concat]
    exact fun other x => inv.holder_step hc effect
  · exact inv.busy_step hc effect hself
  · intro other hle
    have hlength : s'.sessions.length = s.sessions.length := by
      rw [effect.sessions, List.length_set]
    have hne : c ≠ other := by
      have := (List.getElem?_eq_some_iff.mp hc).1
      omega
    rw [got_concat, inv.unread other (by omega)]
    simp [Event.readBy, hne]
  · intro other x hx
    rw [got_concat, written_step effect other]
    rcases sessions_cases effect hx with ⟨rfl, rfl⟩ | ⟨hne, hold⟩
    · simpa [Event.readBy] using inv.carried_step hc effect
    · simpa [Event.readBy, hne] using inv.carried other x hold
  · intro other x hx hintact
    rw [got_concat, written_step effect other]
    rcases sessions_cases effect hx with ⟨rfl, rfl⟩ | ⟨hne, hold⟩
    · have hbefore : (session.unbroken = true ∨ Intact trace c) ∧ event.isFailure = false := by
        rcases hintact with hunbroken | hintact
        · exact (effect.unbroken hunbroken).imp Or.inl id
        · exact hintact.init.imp Or.inr fun h => by simpa [Event.failsFor] using h
      have hwhole := inv.whole c session hc hbefore.1
      simp only [if_true, Event.readBy]
      rw [List.append_assoc, effect.whole hbefore.2, ← List.append_assoc, hwhole]
    · have hwhole := inv.whole other x hold (hintact.imp id fun h => h.init.1)
      simpa [Event.readBy, hne] using hwhole

theorem step {event : Event} {seen : Unit} (inv : Inv trace s)
    (h : s.step event = some (s', seen)) : Inv (trace ++ [(event, seen)]) s' := by
  cases event with
  | closeBackend =>
      cases h
      have hopened : opened (trace ++ [(Event.closeBackend, ())]) = opened trace := by
        simp [opened_concat, Event.opens]
      have hgot : got (trace ++ [(Event.closeBackend, ())]) = got trace := by
        funext c
        simp [got_concat, Event.readBy]
      refine ⟨?_, ?_, ?_, inv.busy, ?_, ?_, ?_⟩
      · exact hopened ▸ inv.turns
      · exact hopened ▸ inv.used
      · exact hopened ▸ inv.holder
      · exact hgot ▸ inv.unread
      · exact hgot ▸ inv.carried
      · intro c session hsession hintact
        rw [hgot]
        exact inv.whole c session hsession (hintact.imp id fun h => h.init.1)
  | accept =>
      cases h
      exact inv.accept
  | session c event =>
      simp only [State.step, Option.bind_eq_bind, Option.bind_eq_some_iff] at h
      obtain ⟨session, hc, next, hstep, h⟩ := h
      cases h
      obtain ⟨session', chunk, effect⟩ := State.sessionStep_effect hstep
      exact inv.serve hc effect ()

end Inv

/--
One connection at a time has the output, and the semaphore is taken exactly while one has it, so
that closing never waits.  The output is what the connections wrote, one after the other as they
came; each has written what was read from it, as far as it has come, and all of it if no write
failed.  Nothing like this holds of the input.
-/
structure Serialised (trace : List (Event × Unit)) (s : State) : Prop where
  exclusive : ∀ (c c' : Nat) (session session' : Session), s.sessions[c]? = some session →
    s.sessions[c']? = some session' → session.hasOutput = true → session'.hasOutput = true → c = c'
  sem : s.sem = true ↔ ∃ (c : Nat) (session : Session),
    s.sessions[c]? = some session ∧ session.hasOutput = true
  closes : ∀ c down err err' frontClosed,
    s.sessions[c]? = some ⟨.plumbing (.closing err) down err', frontClosed⟩ →
    (s.step (.session c (.up .close))).isSome = true
  once : (opened trace).Nodup
  output : s.out.flatMap Prod.snd = (opened trace).flatMap (written s)
  carried : ∀ c, written s c <+: got trace c
  whole : ∀ (c : Nat) (session : Session), s.sessions[c]? = some session →
    session.pending = [] → Intact trace c → written s c = got trace c

theorem output_serialised {trace : List (Event × Unit)} {s : State}
    (run : Runs State.step anyEvent newRWBackend trace s) : Serialised trace s := by
  have inv : Inv trace s := run.history inv_new fun _ _ _ _ _ _ inv _ hstep => inv.step hstep
  refine ⟨?_, ⟨inv.busy, ?_⟩, ?_, inv.turns.nodup, ?_, ?_, ?_⟩
  · intro c c' session session' hc hc' houtput houtput'
    exact inv.holder_unique hc houtput hc' houtput'
  · rintro ⟨c, session, hc, houtput⟩
    exact (inv.holder c session hc houtput).1
  · intro c down err err' frontClosed hc
    have hsem := (inv.holder c _ hc rfl).1
    simp [State.step, hc, State.sessionStep, State.readable, Copy.step, State.release, hsem]
  · have hlog := congrArg (List.flatMap Prod.snd) inv.turns.log
    rwa [List.flatMap_assoc] at hlog
  · intro c
    rcases Nat.lt_or_ge c s.sessions.length with hlt | hge
    · exact (List.prefix_append _ _).trans (inv.carried c _ (List.getElem?_eq_getElem hlt))
    · rw [inv.written_of_length_le hge]
      exact List.nil_prefix
  · intro c session hc hpending hintact
    have hwhole := inv.whole c session hc (Or.inr hintact)
    rwa [hpending, List.append_nil] at hwhole

/-! ### Two connections -/

/-- The second waits until the first has sent everything.  The first then still takes a part of
the input, while the output is the second one's. -/
def sampleStdioEvents : List Event :=
  [.accept, .accept, .session 0 .check, .session 1 .check, .session 0 .acquire,
    .session 0 (.up (.read [1, 2])), .session 0 (.up .wrote), .session 0 (.up (.read [3])),
    .session 0 (.up .wrote), .session 0 (.up (.readEnd none)), .session 0 (.up .close),
    .session 1 .acquire, .session 1 (.up (.read [4])), .session 0 (.down (.read [9])),
    .session 1 (.up .wrote), .session 0 (.down (.writeFailed 0 (some "connection reset"))),
    .session 0 (.down .close), .session 0 .wait]

theorem output_serialised_sample :
    ∃ (trace : List (Event × Unit)) (s : State), trace.map Prod.fst = sampleStdioEvents ∧
      s.out = [(0, [1, 2]), (0, [3]), (1, [4])] ∧ s.sem = true ∧ Serialised trace s := by
  have hreplay : (replay State.step anyEvent newRWBackend sampleStdioEvents).map
      (fun result => (result.1.out, result.1.sem)) =
      some ([(0, [1, 2]), (0, [3]), (1, [4])], true) := by
    decide +kernel
  obtain ⟨trace, s, hevents, run, hseen⟩ := exists_run_of_map hreplay
  obtain ⟨hout, hsem⟩ := Prod.mk.inj hseen
  exact ⟨trace, s, hevents, hout, hsem, output_serialised run⟩

end Inet256.Balancer.Stdio
