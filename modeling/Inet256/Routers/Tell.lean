import Inet256.Beaconnet.Router

/-!
# Telling through a router

`Tell` hands a message to the router and tries again while that fails.  The
router sends through a function that keeps the error of the swarm in a variable;
what is returned after the router has taken the message does not depend on it.
-/

namespace Inet256.Routers

open Inet256.Foundation
open Inet256.Crypto
open Inet256.Beaconnet (Router Effect sampleNeighbour sampleRouter sampleID)

/-! ## Retrying -/

section Retry

variable {τ ε : Type}

/--
The attempts that the context leaves time for, up to the first that does not
fail; when there is none, the context has ended and its error is returned.
-/
def retry (attempt : τ → Option ε) (ended : ε) : List τ → Option ε
  | [] => some ended
  | turn :: turns =>
      match attempt turn with
      | none => none
      | some _ => retry attempt ended turns

/-- The attempts that are made. -/
def attempted (attempt : τ → Option ε) : List τ → List τ
  | [] => []
  | turn :: turns =>
      match attempt turn with
      | none => [turn]
      | some _ => turn :: attempted attempt turns

theorem retry_eq_none_iff {attempt : τ → Option ε} {ended : ε} {turns : List τ} :
    retry attempt ended turns = none ↔
      ∃ turn, (attempted attempt turns).getLast? = some turn ∧ attempt turn = none := by
  induction turns with
  | nil => simp [retry, attempted]
  | cons turn turns ih =>
      cases hturn : attempt turn with
      | none => simp [retry, attempted, hturn]
      | some err =>
          simp only [retry, attempted, hturn, ih]
          cases hmade : attempted attempt turns with
          | nil => simp [hturn]
          | cons first rest => rw [List.getLast?_cons_cons]

/-- An attempt that does not fail is the last. -/
theorem getLast?_attempted {attempt : τ → Option ε} {turns : List τ} {turn : τ}
    (hmem : turn ∈ attempted attempt turns) (h : attempt turn = none) :
    (attempted attempt turns).getLast? = some turn := by
  induction turns with
  | nil => cases hmem
  | cons first turns ih =>
      cases hfirst : attempt first with
      | none =>
          simp only [attempted, hfirst, List.mem_singleton] at hmem ⊢
          rw [hmem, List.getLast?_singleton]
      | some err =>
          simp only [attempted, hfirst, List.mem_cons] at hmem ⊢
          have hrest : turn ∈ attempted attempt turns := by
            refine hmem.resolve_left ?_
            rintro rfl
            rw [h] at hfirst
            cases hfirst
          have hlast := ih hrest
          rw [List.getLast?_cons, hlast, Option.getD_some]

end Retry

/-! ## Tell -/

inductive TellError where
  | swarm (text : String)
  | addrUnreachable (addr : Addr)
  | contextEnded
  deriving DecidableEq

/-- A router as `Tell` sees it: what it sends, and whether it took the message. -/
abbrev HandleAbove (σ : Type) := σ → Addr → Bytes → List (Addr × Bytes) × Bool

/-- The router at an attempt, and what `Swarm.Tell` returns to the calls that are made in it. -/
structure Turn (σ : Type) where
  router : σ
  told : Nat → Option String

/-- The named result of the function that is retried, after the calls that are left. -/
def sendAll (told : Nat → Option String) : Nat → List (Addr × Bytes) → Option String →
    Option String
  | _, [], retErr => retErr
  | n, _ :: sends, retErr =>
      match told n with
      | some err => sendAll told (n + 1) sends (some err)
      | none => sendAll told (n + 1) sends retErr

variable {σ : Type} (handleAbove : HandleAbove σ) (dst : Addr) (data : Bytes)

def tellOnce (turn : Turn σ) : Option TellError :=
  let (sends, ok) := handleAbove turn.router dst data
  let retErr := sendAll turn.told 0 sends none
  if ok then none
  else
    match retErr with
    | some err => some (.swarm err)
    | none => some (.addrUnreachable dst)

def tell (turns : List (Turn σ)) : Option TellError :=
  retry (tellOnce handleAbove dst data) .contextEnded turns

/-! ## What is reported -/

def Taken (turn : Turn σ) : Prop := (handleAbove turn.router dst data).2 = true

/-- One of the calls that the router makes on the swarm fails. -/
def Fails (turn : Turn σ) : Prop :=
  ∃ n, n < (handleAbove turn.router dst data).1.length ∧ (turn.told n).isSome

/-- No error only after an attempt in which the message was taken and no call failed. -/
def Reports (turns : List (Turn σ)) : Prop :=
  tell handleAbove dst data turns = none →
    ∃ turn, (attempted (tellOnce handleAbove dst data) turns).getLast? = some turn ∧
      Taken handleAbove dst data turn ∧ ¬ Fails handleAbove dst data turn

variable {handleAbove dst data}

/-- What the swarm returned is looked at only when the message was not taken. -/
theorem tellOnce_eq_none_iff {turn : Turn σ} :
    tellOnce handleAbove dst data turn = none ↔ Taken handleAbove dst data turn := by
  unfold tellOnce Taken
  dsimp only
  split
  · next hok => simp [hok]
  · next hok =>
      split <;> simp [hok]

theorem tell_eq_none_iff {turns : List (Turn σ)} :
    tell handleAbove dst data turns = none ↔
      ∃ turn, (attempted (tellOnce handleAbove dst data) turns).getLast? = some turn ∧
        Taken handleAbove dst data turn := by
  simp only [tell, retry_eq_none_iff, tellOnce_eq_none_iff]

/-- Failures are reported exactly if none happens in an attempt in which the message is taken. -/
theorem tell_reports_iff (turns : List (Turn σ)) :
    Reports handleAbove dst data turns ↔
      ∀ turn ∈ attempted (tellOnce handleAbove dst data) turns,
        Taken handleAbove dst data turn → ¬ Fails handleAbove dst data turn := by
  constructor
  · intro h turn hmem htaken
    have hlast := getLast?_attempted hmem (tellOnce_eq_none_iff.mpr htaken)
    obtain ⟨last, hlast', -, hfails⟩ := h (tell_eq_none_iff.mpr ⟨turn, hlast, htaken⟩)
    rw [hlast, Option.some.injEq] at hlast'
    rwa [hlast']
  · intro h hnil
    obtain ⟨turn, hlast, htaken⟩ := tell_eq_none_iff.mp hnil
    exact ⟨turn, hlast, htaken, h turn (List.mem_of_getLast? hlast) htaken⟩

/-! ### A beaconnet router -/

section Beaconnet

variable {P : Primitives}

def Effect.sent : Effect P → Option (Addr × Bytes)
  | .send dst payload => some (dst, payload)
  | _ => none

def beaconnet : HandleAbove (Router P) := fun r dst data =>
  ((r.handleAbove dst data).2.filterMap Effect.sent, (r.handleAbove dst data).1)

/-- With a next hop, the only call that is made on the swarm may fail or not. -/
theorem beaconnet_fails_iff {turn : Turn (Router P)} {dst next : Addr} {data : Bytes}
    (hnext : turn.router.nextHop dst = some next) :
    Taken beaconnet dst data turn ∧ (Fails beaconnet dst data turn ↔ (turn.told 0).isSome) := by
  simp [Taken, Fails, beaconnet, Router.handleAbove, hnext, Router.send, Effect.sent]

def sampleTurn : Turn (Router samplePrimitives) where
  router := sampleRouter 1 sampleNeighbour
  told _ := some "no route to host"

/-- The message is not sent, and no error is returned. -/
theorem not_tell_reports :
    tell beaconnet (sampleID 2) [7] [sampleTurn] = none ∧
      Fails beaconnet (sampleID 2) [7] sampleTurn ∧
      ¬ Reports beaconnet (sampleID 2) [7] [sampleTurn] := by
  have hnext : sampleTurn.router.nextHop (sampleID 2) = some (sampleID 2) := by decide
  have htaken : Taken beaconnet (sampleID 2) [7] sampleTurn := (beaconnet_fails_iff hnext).1
  have hfails : Fails beaconnet (sampleID 2) [7] sampleTurn :=
    (beaconnet_fails_iff hnext).2.mpr rfl
  have hnil := tellOnce_eq_none_iff.mpr htaken
  have htell : tell beaconnet (sampleID 2) [7] [sampleTurn] = none := by
    simp only [tell, retry, hnil]
  refine ⟨htell, hfails, fun h => ?_⟩
  obtain ⟨last, hlast, -, hnot⟩ := h htell
  simp only [attempted, hnil, List.getLast?_singleton, Option.some.injEq] at hlast
  rw [← hlast] at hnot
  exact hnot hfails

end Beaconnet

end Inet256.Routers
