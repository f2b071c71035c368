import Mathlib.Data.List.Induction
import Mathlib.Order.OrderIsoNat

/-!
# Runs of a labelled machine

A machine is a partial step function: at a state, an event is refused or leads
to a next state with an observation.  A run records its events and
observations in order.  Every run is taken under a condition on the events it
may take, so that a property of all runs and a property of the runs that avoid
some behaviour are the same kind of statement.
-/

namespace Inet256.Foundation

variable {σ ε ω : Type}

inductive Runs (step : σ → ε → Option (σ × ω)) (allowed : σ → ε → Prop)
    (start : σ) : List (ε × ω) → σ → Prop
  | refl : Runs step allowed start [] start
  | next {trace : List (ε × ω)} {state state' : σ} {event : ε} {seen : ω}
      (run : Runs step allowed start trace state)
      (hallowed : allowed state event)
      (hstep : step state event = some (state', seen)) :
      Runs step allowed start (trace ++ [(event, seen)]) state'

def anyEvent (_ : σ) (_ : ε) : Prop := True

instance (state : σ) (event : ε) : Decidable (anyEvent state event) :=
  inferInstanceAs (Decidable True)

namespace Runs

variable {step : σ → ε → Option (σ × ω)} {allowed allowed' : σ → ε → Prop}
  {start state state' : σ} {trace trace' : List (ε × ω)}

/-- What every step preserves, history included, holds after every run. -/
theorem history {motive : List (ε × ω) → σ → Prop} (hstart : motive [] start)
    (hnext : ∀ trace state event state' seen,
      Runs step allowed start trace state → motive trace state →
      allowed state event → step state event = some (state', seen) →
      motive (trace ++ [(event, seen)]) state')
    (run : Runs step allowed start trace state) : motive trace state := by
  induction run with
  | refl => exact hstart
  | next run hallowed hstep ih =>
      exact hnext _ _ _ _ _ run ih hallowed hstep

theorem invariant {motive : σ → Prop} (hstart : motive start)
    (hnext : ∀ state event state' seen, motive state → allowed state event →
      step state event = some (state', seen) → motive state')
    (run : Runs step allowed start trace state) : motive state :=
  run.history (motive := fun _ state => motive state) hstart
    fun _ state event state' seen _ => hnext state event state' seen

/-- What every step from a state of the invariant shows. -/
theorem safety {inv : σ → Prop} {good : ε × ω → Prop} (hstart : inv start)
    (hnext : ∀ state event state' seen, inv state → allowed state event →
      step state event = some (state', seen) → inv state' ∧ good (event, seen))
    (run : Runs step allowed start trace state) : inv state ∧ ∀ entry ∈ trace, good entry := by
  induction run with
  | refl => exact ⟨hstart, by simp⟩
  | next run hallowed hstep ih =>
      obtain ⟨hinv, hgood⟩ := hnext _ _ _ _ ih.1 hallowed hstep
      refine ⟨hinv, fun entry hentry => ?_⟩
      cases List.mem_append.mp hentry with
      | inl hbefore => exact ih.2 entry hbefore
      | inr hlast =>
          rw [List.mem_singleton.mp hlast]
          exact hgood

theorem mono (himp : ∀ state event, allowed state event → allowed' state event)
    (run : Runs step allowed start trace state) :
    Runs step allowed' start trace state := by
  induction run with
  | refl => exact .refl
  | next _ hallowed hstep ih => exact ih.next (himp _ _ hallowed) hstep

/-- A run may be taken under any condition that its events meet in every state. -/
theorem restrict (run : Runs step allowed start trace state)
    (h : ∀ entry ∈ trace, ∀ state, allowed' state entry.1) :
    Runs step allowed' start trace state := by
  induction run with
  | refl => exact .refl
  | @next _ before _ event seen _ _ hstep ih =>
      have hbefore := ih fun entry hentry => h entry (List.mem_append_left _ hentry)
      exact hbefore.next (h (event, seen) (by simp) before) hstep

theorem trans (first : Runs step allowed start trace state)
    (second : Runs step allowed state trace' state') :
    Runs step allowed start (trace ++ trace') state' := by
  induction second with
  | refl => simpa using first
  | next _ hallowed hstep ih =>
      rw [← List.append_assoc]
      exact ih.next hallowed hstep

theorem single {event : ε} {seen : ω} (hallowed : allowed start event)
    (hstep : step start event = some (state, seen)) :
    Runs step allowed start [(event, seen)] state :=
  Runs.next .refl hallowed hstep

theorem split (run : Runs step allowed start (trace ++ trace') state') :
    ∃ state, Runs step allowed start trace state ∧
      Runs step allowed state trace' state' := by
  induction trace' using List.reverseRecOn generalizing state' with
  | nil => exact ⟨state', by simpa using run, .refl⟩
  | append_singleton trace' last ih =>
      rw [← List.append_assoc] at run
      generalize htrace : trace ++ trace' ++ [last] = whole at run
      cases run with
      | refl => simp at htrace
      | next run hallowed hstep =>
          obtain ⟨hinit, hlast⟩ := List.append_inj' htrace rfl
          obtain rfl : last = _ := by simpa using hlast
          subst hinit
          obtain ⟨state, hfirst, hsecond⟩ := ih run
          exact ⟨state, hfirst, hsecond.next hallowed hstep⟩

theorem middle {before after : List (ε × ω)} {event : ε} {seen : ω}
    (run : Runs step allowed start (before ++ (event, seen) :: after) state) :
    ∃ here there, Runs step allowed start before here ∧ allowed here event ∧
      step here event = some (there, seen) ∧ Runs step allowed there after state := by
  rw [List.append_cons] at run
  obtain ⟨there, hfirst, hsecond⟩ := run.split
  generalize htrace : before ++ [(event, seen)] = whole at hfirst
  cases hfirst with
  | refl => simp at htrace
  | next hrun hallowed hstep =>
      obtain ⟨rfl, hlast⟩ := List.append_inj' htrace rfl
      obtain ⟨rfl, rfl⟩ : event = _ ∧ seen = _ := by simpa using hlast
      exact ⟨_, there, hrun, hallowed, hstep, hsecond⟩

/-- Where every step is matched by one of another machine, so is every run. -/
theorem simulates {σ' ω' : Type} {step' : σ' → ε → Option (σ' × ω')} {start' : σ'}
    {related : σ → σ' → Prop} {view : ω → ω'} (hstart : related start start')
    (hnext : ∀ state event next seen other, related state other → allowed state event →
      step state event = some (next, seen) →
      ∃ next', step' other event = some (next', view seen) ∧ related next next')
    (run : Runs step allowed start trace state) :
    ∃ other, Runs step' anyEvent start'
      (trace.map fun entry => (entry.1, view entry.2)) other ∧ related state other := by
  induction run with
  | refl => exact ⟨start', .refl, hstart⟩
  | next _ hallowed hstep ih =>
      obtain ⟨other, hrun, hrelated⟩ := ih
      obtain ⟨next', hstep', hrelated'⟩ := hnext _ _ _ _ other hrelated hallowed hstep
      refine ⟨next', ?_, hrelated'⟩
      rw [List.map_append]
      exact hrun.next trivial hstep'

/-- Where every step is one of a part of the machine, or nothing to it, so is every run. -/
theorem part {σ' ε' ω' : Type} {step' : σ' → ε' → Option (σ' × ω')} {allowed' : σ' → ε' → Prop}
    (view : σ → σ') (entry : ε × ω → Option (ε' × ω'))
    (hnext : ∀ state event state' seen, allowed state event →
      step state event = some (state', seen) →
      (entry (event, seen) = none ∧ view state' = view state) ∨
      ∃ event' seen', entry (event, seen) = some (event', seen') ∧
        allowed' (view state) event' ∧ step' (view state) event' = some (view state', seen'))
    (run : Runs step allowed start trace state) :
    Runs step' allowed' (view start) (trace.filterMap entry) (view state) := by
  induction run with
  | refl => exact .refl
  | @next trace before after event seen _ hallowed hstep ih =>
      rw [List.filterMap_append]
      rcases hnext _ _ _ _ hallowed hstep with ⟨hnone, hsame⟩ | ⟨event', seen', hsome, hpart⟩
      · rw [List.filterMap_cons_none hnone, List.filterMap_nil, List.append_nil, hsame]
        exact ih
      · rw [List.filterMap_cons_some hsome, List.filterMap_nil]
        exact ih.next hpart.1 hpart.2

end Runs

/-! ## The latest of some events -/

section Latest

variable {α : Type}

/-- What `f` gives for the last event of the trace that it gives anything for. -/
def latest (f : ε → Option α) (trace : List (ε × ω)) : Option α :=
  (trace.filterMap fun entry => f entry.1).getLast?

theorem latest_concat (f : ε → Option α) (trace : List (ε × ω)) (event : ε) (seen : ω) :
    latest f (trace ++ [(event, seen)]) = (f event).or (latest f trace) := by
  unfold latest
  rw [List.filterMap_append]
  cases h : f event with
  | none => simp [h]
  | some value => simp [h]

/-- A field that every step overwrites or keeps holds what was written last. -/
theorem Runs.field_eq_latest {step : σ → ε → Option (σ × ω)} {allowed : σ → ε → Prop}
    {start state : σ} {trace : List (ε × ω)} (field : σ → Option α) {f : ε → Option α}
    (hstart : field start = none)
    (hnext : ∀ state event state' seen, step state event = some (state', seen) →
      field state' = (f event).or (field state))
    (run : Runs step allowed start trace state) : field state = latest f trace := by
  induction run with
  | refl => exact hstart
  | next _ _ hstep ih => rw [hnext _ _ _ _ hstep, ih, latest_concat]

end Latest

/-! ## Parties that join -/

section Joining

variable {α : Type} {parties : List α} {joined party : α} {n : Nat}

theorem getElem?_concat_of_some (h : parties[n]? = some party) :
    (parties ++ [joined])[n]? = some party := by
  rw [List.getElem?_append_left (List.getElem?_eq_some_iff.mp h).1, h]

theorem getElem?_concat_cases (h : (parties ++ [joined])[n]? = some party) :
    parties[n]? = some party ∨ n = parties.length ∧ party = joined := by
  rw [List.getElem?_append] at h
  split at h
  · exact Or.inl h
  · next hge =>
      rw [List.getElem?_singleton] at h
      split at h
      · exact Or.inr ⟨by omega, (Option.some.inj h).symm⟩
      · cases h

end Joining

/-! ## Machines that come to rest -/

def Endless (step : σ → ε → Option (σ × ω)) (allowed : σ → ε → Prop) (start : σ) : Prop :=
  ∃ states : Nat → σ, states 0 = start ∧ ∀ n, ∃ event seen,
    allowed (states n) event ∧ step (states n) event = some (states (n + 1), seen)

section Descent

variable {α : Type} [Preorder α] {step : σ → ε → Option (σ × ω)} {allowed : σ → ε → Prop}
  {start state : σ} {trace : List (ε × ω)} (inv : σ → Prop) (measure : σ → α)

theorem Runs.descent (hstart : inv start)
    (hnext : ∀ state event state' seen, inv state → allowed state event →
      step state event = some (state', seen) → inv state' ∧ measure state' < measure state)
    (run : Runs step allowed start trace state) :
    inv state ∧ (trace = [] ∨ measure state < measure start) := by
  induction run with
  | refl => exact ⟨hstart, Or.inl rfl⟩
  | next run hallowed hstep ih =>
      obtain ⟨hinv, hmeasure⟩ := ih
      obtain ⟨hinv', hlt⟩ := hnext _ _ _ _ hinv hallowed hstep
      refine ⟨hinv', Or.inr ?_⟩
      cases run with
      | refl => exact hlt
      | next => exact hlt.trans (hmeasure.resolve_left (by simp))

theorem not_endless [WellFoundedLT α] (hstart : inv start)
    (hnext : ∀ state event state' seen, inv state → allowed state event →
      step state event = some (state', seen) → inv state' ∧ measure state' < measure state) :
    ¬ Endless step allowed start := by
  rintro ⟨states, rfl, hstep⟩
  have hinv : ∀ n, inv (states n) := by
    intro n
    induction n with
    | zero => exact hstart
    | succ n ih =>
        obtain ⟨event, seen, hallowed, h⟩ := hstep n
        exact (hnext _ _ _ _ ih hallowed h).1
  refine not_strictAnti_of_wellFoundedLT (fun n => measure (states n))
    (strictAnti_nat_of_succ_lt fun n => ?_)
  obtain ⟨event, seen, hallowed, h⟩ := hstep n
  exact (hnext _ _ _ _ (hinv n) hallowed h).2

end Descent

section Progress

variable {step : σ → ε → Option (σ × ω)} {allowed : σ → ε → Prop}

/-- Where a step towards the goal is always possible, the goal can be reached. -/
theorem exists_run_of_progress (inv goal : σ → Prop) (measure : σ → Nat)
    (hnext : ∀ state, inv state → ¬ goal state → ∃ event state' seen,
      allowed state event ∧ step state event = some (state', seen) ∧ inv state' ∧
      measure state' < measure state)
    {start : σ} (hstart : inv start) :
    ∃ trace state, Runs step allowed start trace state ∧ trace.length ≤ measure start ∧
      inv state ∧ goal state := by
  induction hn : measure start using Nat.strong_induction_on generalizing start with
  | _ n ih =>
      by_cases hgoal : goal start
      · exact ⟨[], start, .refl, Nat.zero_le _, hstart, hgoal⟩
      · obtain ⟨event, next, seen, hallowed, hstep, hinv, hlt⟩ := hnext start hstart hgoal
        obtain ⟨trace, state, run, hlength, hend⟩ := ih (measure next) (by omega) hinv rfl
        refine ⟨(event, seen) :: trace, state, (Runs.single hallowed hstep).trans run, ?_, hend⟩
        rw [List.length_cons]
        omega

end Progress

/-! ## Replaying -/

/-- Run a list of events, when every one of them is allowed and accepted. -/
def replay (step : σ → ε → Option (σ × ω)) (allowed : σ → ε → Prop)
    [∀ state event, Decidable (allowed state event)] :
    σ → List ε → Option (σ × List (ε × ω))
  | state, [] => some (state, [])
  | state, event :: events =>
      if allowed state event then do
        let (state, seen) ← step state event
        let (state, trace) ← replay step allowed state events
        some (state, (event, seen) :: trace)
      else none

theorem runs_of_replay {step : σ → ε → Option (σ × ω)} {allowed : σ → ε → Prop}
    [∀ state event, Decidable (allowed state event)] {start state : σ}
    {events : List ε} {trace : List (ε × ω)}
    (h : replay step allowed start events = some (state, trace)) :
    Runs step allowed start trace state ∧ trace.map Prod.fst = events := by
  induction events generalizing start trace with
  | nil =>
      cases h
      exact ⟨.refl, rfl⟩
  | cons event events ih =>
      rw [replay] at h
      split at h
      · next hallowed =>
          simp only [Option.bind_eq_bind, Option.bind_eq_some_iff,
            Option.some.injEq, Prod.exists, Prod.mk.injEq] at h
          obtain ⟨middle, seen, hstep, last, rest, hrest, rfl, rfl⟩ := h
          obtain ⟨run, hevents⟩ := ih hrest
          refine ⟨(Runs.single hallowed hstep).trans run, ?_⟩
          rw [List.map_cons, hevents]
      · cases h

/-- A run of the events, in whose last state and trace `f` was evaluated. -/
theorem exists_run_of_map {step : σ → ε → Option (σ × ω)} {allowed : σ → ε → Prop}
    [∀ state event, Decidable (allowed state event)] {start : σ} {events : List ε} {α : Type*}
    {f : σ × List (ε × ω) → α} {value : α}
    (h : (replay step allowed start events).map f = some value) :
    ∃ trace state, trace.map Prod.fst = events ∧ Runs step allowed start trace state ∧
      f (state, trace) = value := by
  obtain ⟨⟨state, trace⟩, hreplay, hvalue⟩ := Option.map_eq_some_iff.mp h
  obtain ⟨run, hevents⟩ := runs_of_replay hreplay
  exact ⟨trace, state, hevents, run, hvalue⟩

theorem exists_run_of_isSome {step : σ → ε → Option (σ × ω)} {allowed : σ → ε → Prop}
    [∀ state event, Decidable (allowed state event)] {start : σ} {events : List ε}
    (h : (replay step allowed start events).isSome = true) :
    ∃ trace state, trace.map Prod.fst = events ∧ Runs step allowed start trace state := by
  obtain ⟨⟨state, trace⟩, hreplay⟩ := Option.isSome_iff_exists.mp h
  obtain ⟨run, hevents⟩ := runs_of_replay hreplay
  exact ⟨trace, state, hevents, run⟩

end Inet256.Foundation
