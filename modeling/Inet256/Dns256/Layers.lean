import Inet256.Dns256.Message

/-!
# Layered handlers

A layered handler is meant to give a request to the handler of the first layer
that the name is under.  Its method tests whether the name is a prefix of the
layer's, and calls itself where the test succeeds.
-/

namespace Inet256.Dns256

open Inet256.Foundation.Json (stringBytes)

/-- A handler gives the response after the call, and whether it is to be sent. -/
structure Layer where
  pre : Path
  handler : Response → Request → Response × Bool

abbrev LayeredHandler := List Layer

namespace LayeredHandler

/-- The call with a bound on the depth of the recursion; `none` if it is reached. -/
def handle (h : LayeredHandler) : Nat → Response → Request → Option (Response × Bool)
  | 0, _, _ => none
  | depth + 1, res, req =>
      if h.any fun l => hasPrefix l.pre req.query.path then handle h depth res req
      else some (res, false)

/-- What layers are for. -/
def dispatch : LayeredHandler → Response → Request → Response × Bool
  | [], res, _ => (res, false)
  | l :: layers, res, req =>
      if l.pre <+: req.query.path then l.handler res req else dispatch layers res req

def Finishes (h : LayeredHandler) (res : Response) (req : Request) (result : Response × Bool) :
    Prop :=
  ∃ depth, h.handle depth res req = some result

variable {h : LayeredHandler} {res : Response} {req : Request}

theorem any_hasPrefix_iff :
    (h.any fun l => hasPrefix l.pre req.query.path) = true ↔
      ∃ l ∈ h, req.query.path <+: l.pre := by
  simp only [List.any_eq_true, hasPrefix_iff]

/-- Every call is the same call again. -/
theorem handle_of_mem {l : Layer} (hl : l ∈ h) (hpre : req.query.path <+: l.pre) (depth : Nat) :
    h.handle depth res req = none := by
  have hany := any_hasPrefix_iff.2 ⟨l, hl, hpre⟩
  induction depth with
  | zero => rfl
  | succ depth ih => rw [handle, if_pos hany, ih]

/-- No handler of a layer is ever called. -/
theorem finishes_iff {result : Response × Bool} :
    h.Finishes res req result ↔
      (∀ l ∈ h, ¬ req.query.path <+: l.pre) ∧ result = (res, false) := by
  constructor
  · rintro ⟨depth, hdepth⟩
    have hnone : ∀ l ∈ h, ¬ req.query.path <+: l.pre := by
      intro l hl hpre
      rw [handle_of_mem hl hpre] at hdepth
      cases hdepth
    have hany : ¬ (h.any fun l => hasPrefix l.pre req.query.path) = true := by
      rw [any_hasPrefix_iff]
      rintro ⟨l, hl, hpre⟩
      exact hnone l hl hpre
    refine ⟨hnone, ?_⟩
    cases depth with
    | zero => cases hdepth
    | succ depth =>
        rw [handle, if_neg hany] at hdepth
        exact (Option.some.inj hdepth).symm
  · rintro ⟨hnone, rfl⟩
    refine ⟨1, ?_⟩
    rw [handle, if_neg]
    rw [any_hasPrefix_iff]
    rintro ⟨l, hl, hpre⟩
    exact hnone l hl hpre

/-- The first layer above the name decides. -/
theorem dispatch_eq (h : LayeredHandler) (res : Response) (req : Request) :
    h.dispatch res req =
      (h.find? fun l => decide (l.pre <+: req.query.path)).elim (res, false)
        fun l => l.handler res req := by
  induction h with
  | nil => rfl
  | cons l layers ih =>
      by_cases hpre : l.pre <+: req.query.path
      · simp [dispatch, hpre]
      · simp [dispatch, hpre, ih]

/--
A request is dispatched as meant exactly if its name is a prefix of no layer's, where the call
would not finish, and the layer to be called, if there is one, would leave the response alone
and not have it sent.
-/
theorem finishes_dispatch_iff (h : LayeredHandler) (res : Response) (req : Request) :
    h.Finishes res req (h.dispatch res req) ↔
      (∀ l ∈ h, ¬ req.query.path <+: l.pre) ∧
        ∀ l, h.find? (fun l => decide (l.pre <+: req.query.path)) = some l →
          l.handler res req = (res, false) := by
  rw [finishes_iff, dispatch_eq]
  refine and_congr_right fun _ => ?_
  cases h.find? fun l => decide (l.pre <+: req.query.path) with
  | none => simp
  | some l => simp

/-! ### One layer for the name -/

def sampleLayers : LayeredHandler :=
  [⟨[stringBytes "com"], fun res _ => ({ res with isRedirect := true }, true)⟩]

def requestFor (path : Path) : Request := ⟨RequestID.zero, ⟨path, .mk none none none none⟩⟩

def sampleName : Path := [stringBytes "com", stringBytes "inet256"]

/-- A name under the layer is not handled, and the layer's own name is handled for ever. -/
theorem layer_not_called :
    sampleLayers.dispatch Response.zero (requestFor sampleName) =
        (⟨RequestID.zero, true, []⟩, true) ∧
      sampleLayers.handle 1 Response.zero (requestFor sampleName) =
        some (Response.zero, false) ∧
      ¬ sampleLayers.Finishes Response.zero (requestFor sampleName)
        (sampleLayers.dispatch Response.zero (requestFor sampleName)) ∧
      ∀ depth, sampleLayers.handle depth Response.zero (requestFor [stringBytes "com"]) = none := by
  have hdispatch : sampleLayers.dispatch Response.zero (requestFor sampleName) =
      (⟨RequestID.zero, true, []⟩, true) := by
    rw [sampleLayers, dispatch, if_pos (by decide +kernel)]
    rfl
  refine ⟨hdispatch, rfl, ?_, handle_of_mem (List.mem_singleton_self _) List.prefix_rfl⟩
  rw [hdispatch, finishes_iff]
  rintro ⟨_, hresult⟩
  exact absurd (congrArg Prod.snd hresult) (by decide)

end LayeredHandler

end Inet256.Dns256
