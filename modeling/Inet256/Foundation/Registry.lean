import Inet256.Foundation.Runs
import Inet256.Foundation.Runtime

/-!
# Registries of instances

A service hands out instances, at most one at a time under an address, and
retires whatever is registered under an address when it is told to.  Closing an
instance retires whatever is registered under its address.  A service is given
by what its calls do to its table; the results are about every sequence of calls.
-/

namespace Inet256.Foundation

/-- The service, the instance that was torn down, and the error that is returned. -/
structure Retired (σ ν : Type) where
  state : σ
  torn : Option ν
  err : Option String

/-- The calls of a service; `issue` is given a number that no earlier instance has. -/
structure Registry (σ κ α ν : Type) where
  addrOf : κ → Go α
  home : ν → α
  serial : ν → Nat
  table : σ → α → Option ν
  issue : σ → κ → Nat → Go (σ × ν)
  drop : σ → κ → Option String → Go (Retired σ ν)
  close : σ → ν → Option String → Go (Retired σ ν)

/--
The service with a record of the calls so far: the instances in the order in which they were
issued, those that were torn down, those that were closed, and those whose key was dropped.
-/
structure Instances (σ ν : Type) where
  state : σ
  issued : List ν
  torn : List ν
  closed : List ν
  dropped : List ν

inductive Call (κ : Type) where
  | issue (key : κ)
  | drop (key : κ) (err : Option String)
  | close (handle : Nat) (err : Option String)

namespace Registry

variable {σ κ α ν : Type} [DecidableEq α]

structure Lawful (r : Registry σ κ α ν) : Prop where
  issue : ∀ {s key n s' x}, r.issue s key n = .ok (s', x) →
    r.serial x = n ∧ r.table s (r.home x) = none ∧
      r.table s' = Function.update (r.table s) (r.home x) (some x)
  drop : ∀ {s key err retired}, r.drop s key err = .ok retired →
    ∃ addr, r.addrOf key = .ok addr ∧ retired.torn = r.table s addr ∧
      r.table retired.state = Function.update (r.table s) addr none
  close : ∀ s x err, ∃ retired, r.close s x err = .ok retired ∧
    retired.torn = r.table s (r.home x) ∧
      r.table retired.state = Function.update (r.table s) (r.home x) none

def start (s : σ) : Instances σ ν := ⟨s, [], [], [], []⟩

/-- Each step returns the error of the call. -/
def step (r : Registry σ κ α ν) (s : Instances σ ν) :
    Call κ → Option (Instances σ ν × Option String)
  | .issue key =>
      match r.issue s.state key s.issued.length with
      | .ok (state, x) => some ({ s with state, issued := s.issued ++ [x] }, none)
      | .error (.error err) => some (s, some err)
      | .error (.panic _) => none
  | .drop key err => do
      let addr ← (r.addrOf key).toOption
      let retired ← (r.drop s.state key err).toOption
      some ({ s with
        state := retired.state
        torn := s.torn ++ retired.torn.toList
        dropped := s.dropped ++ s.issued.filter fun x => r.home x = addr }, retired.err)
  | .close handle err => do
      let x ← s.issued[handle]?
      let retired ← (r.close s.state x err).toOption
      some ({ s with
        state := retired.state
        torn := s.torn ++ retired.torn.toList
        closed := s.closed ++ [x] }, retired.err)

/-- An instance that is closed has no other instance under its address. -/
def current (r : Registry σ κ α ν) (s : Instances σ ν) : Call κ → Prop
  | .close handle _ => ∀ x ∈ s.issued[handle]?, ∀ y ∈ r.table s.state (r.home x), y = x
  | _ => True

/-! ## What is registered -/

structure Valid (r : Registry σ κ α ν) (s : Instances σ ν) : Prop where
  serials : ∀ x ∈ s.issued, r.serial x < s.issued.length
  registered : ∀ addr x, r.table s.state addr = some x →
    x ∈ s.issued ∧ r.home x = addr ∧ x ∉ s.torn
  kept : ∀ x ∈ s.issued, x ∉ s.torn → r.table s.state (r.home x) = some x
  issued : ∀ x ∈ s.torn, x ∈ s.issued

/-- An instance is torn down when it is closed, or its key dropped, and not otherwise. -/
structure Intact (r : Registry σ κ α ν) (s : Instances σ ν) : Prop where
  torn_iff : ∀ x ∈ s.issued, x ∈ s.torn ↔ x ∈ s.closed ∨ x ∈ s.dropped
  registered_iff : ∀ x ∈ s.issued, r.table s.state (r.home x) = some x ↔ x ∉ s.torn

variable {r : Registry σ κ α ν} {s s' : Instances σ ν}

omit [DecidableEq α] in
theorem valid_start {state : σ} (hempty : ∀ addr, r.table state addr = none) :
    r.Valid (start state) where
  serials := by simp [start]
  registered := by simp [start, hempty]
  kept := by simp [start]
  issued := by simp [start]

/-- The instance under the address is torn down, if there is one. -/
theorem Valid.retire (valid : r.Valid s) {addr : α}
    (htable : r.table s'.state = Function.update (r.table s.state) addr none)
    (htorn : s'.torn = s.torn ++ (r.table s.state addr).toList) (hissued : s'.issued = s.issued) :
    r.Valid s' := by
  have hmem : ∀ x, x ∈ s'.torn ↔ x ∈ s.torn ∨ r.table s.state addr = some x := by
    simp [htorn]
  constructor
  · simpa [hissued] using valid.serials
  · intro other x hx
    by_cases hother : other = addr
    · simp [htable, hother] at hx
    · simp only [htable, Function.update_of_ne hother] at hx
      obtain ⟨hold, hhome, hkept⟩ := valid.registered other x hx
      refine ⟨by simpa [hissued] using hold, hhome, fun htorn' => ?_⟩
      rcases (hmem x).mp htorn' with h | h
      · exact hkept h
      · have haddr := (valid.registered addr x h).2.1
        exact hother (hhome.symm.trans haddr)
  · intro x hx hnot
    rw [hissued] at hx
    simp only [hmem, not_or] at hnot
    have hkept := valid.kept x hx hnot.1
    have hother : r.home x ≠ addr := by
      rintro rfl
      exact hnot.2 hkept
    simp [htable, hother, hkept]
  · intro x hx
    rw [hissued]
    rcases (hmem x).mp hx with h | h
    · exact valid.issued x h
    · exact (valid.registered addr x h).1

omit [DecidableEq α] in
/-- Every instance of the address is torn down by then. -/
theorem Valid.torn_of_home (valid : r.Valid s) {x : ν} (hx : x ∈ s.issued) :
    x ∈ s.torn ++ (r.table s.state (r.home x)).toList := by
  by_cases htorn : x ∈ s.torn
  · exact List.mem_append_left _ htorn
  · simp [valid.kept x hx htorn]

omit [DecidableEq α] in
theorem Valid.fresh (valid : r.Valid s) {x : ν} (hserial : r.serial x = s.issued.length) :
    x ∉ s.issued := by
  intro hx
  have hlt := valid.serials x hx
  omega

theorem Valid.issue (valid : r.Valid s) {x : ν} {state : σ}
    (hserial : r.serial x = s.issued.length) (hfree : r.table s.state (r.home x) = none)
    (htable : r.table state = Function.update (r.table s.state) (r.home x) (some x)) :
    r.Valid { s with state, issued := s.issued ++ [x] } := by
  have hfresh := valid.fresh hserial
  constructor
  · intro y hy
    simp only [List.length_append, List.length_singleton]
    rcases List.mem_append.mp hy with hy | hy
    · have hlt := valid.serials y hy
      omega
    · obtain rfl := List.mem_singleton.mp hy
      omega
  · intro addr y hy
    by_cases haddr : addr = r.home x
    · simp only [htable, haddr, Function.update_self, Option.some.injEq] at hy
      subst hy
      exact ⟨by simp, haddr.symm, fun htorn => hfresh (valid.issued x htorn)⟩
    · simp only [htable, Function.update_of_ne haddr] at hy
      obtain ⟨hissued, hhome, htorn⟩ := valid.registered addr y hy
      exact ⟨by simp [hissued], hhome, htorn⟩
  · intro y hy hnot
    rcases List.mem_append.mp hy with hy | hy
    · have hkept := valid.kept y hy hnot
      have hother : r.home y ≠ r.home x := by
        intro hsame
        rw [hsame, hfree] at hkept
        cases hkept
      simp [htable, hother, hkept]
    · obtain rfl := List.mem_singleton.mp hy
      simp [htable]
  · intro y hy
    exact List.mem_append_left _ (valid.issued y hy)

/-! ## Sequences of calls -/

/-- Everything a call can do. -/
inductive Effect (r : Registry σ κ α ν) (s : Instances σ ν) : Call κ → Instances σ ν → Prop
  | issue {key : κ} {x : ν} {state : σ} (hserial : r.serial x = s.issued.length)
      (hfree : r.table s.state (r.home x) = none)
      (htable : r.table state = Function.update (r.table s.state) (r.home x) (some x)) :
      Effect r s (.issue key) { s with state, issued := s.issued ++ [x] }
  | refuse {key : κ} : Effect r s (.issue key) s
  | drop {key : κ} {err : Option String} {addr : α} {state : σ}
      (htable : r.table state = Function.update (r.table s.state) addr none) :
      Effect r s (.drop key err) { s with
        state
        torn := s.torn ++ (r.table s.state addr).toList
        dropped := s.dropped ++ s.issued.filter fun x => r.home x = addr }
  | close {handle : Nat} {err : Option String} {x : ν} {state : σ}
      (hx : s.issued[handle]? = some x)
      (htable : r.table state = Function.update (r.table s.state) (r.home x) none) :
      Effect r s (.close handle err) { s with
        state
        torn := s.torn ++ (r.table s.state (r.home x)).toList
        closed := s.closed ++ [x] }

theorem effect_of_step (lawful : r.Lawful) {call : Call κ} {seen : Option String}
    (h : r.step s call = some (s', seen)) : r.Effect s call s' := by
  cases call with
  | issue key =>
      simp only [step] at h
      split at h
      · next state x hissue =>
          obtain ⟨hserial, hfree, htable⟩ := lawful.issue hissue
          cases h
          exact .issue hserial hfree htable
      · cases h
        exact .refuse
      · cases h
  | drop key err =>
      simp only [step, Option.bind_eq_bind, Option.bind_eq_some_iff, toOption_eq_some] at h
      obtain ⟨addr, haddr, retired, hdrop, h⟩ := h
      obtain ⟨other, hother, htorn, htable⟩ := lawful.drop hdrop
      rw [haddr] at hother
      cases hother
      cases h
      rw [htorn]
      exact .drop htable
  | close handle err =>
      simp only [step, Option.bind_eq_bind, Option.bind_eq_some_iff, toOption_eq_some] at h
      obtain ⟨x, hx, retired, hclose, h⟩ := h
      obtain ⟨_, hclose', htorn, htable⟩ := lawful.close s.state x err
      rw [hclose] at hclose'
      cases hclose'
      cases h
      rw [htorn]
      exact .close hx htable

theorem Valid.effect (valid : r.Valid s) {call : Call κ} (h : r.Effect s call s') :
    r.Valid s' := by
  cases h with
  | issue hserial hfree htable => exact valid.issue hserial hfree htable
  | refuse => exact valid
  | drop htable => exact valid.retire htable rfl rfl
  | close hx htable => exact valid.retire htable rfl rfl

structure Accounted (s : Instances σ ν) : Prop where
  torn_iff : ∀ x ∈ s.issued, x ∈ s.torn ↔ x ∈ s.closed ∨ x ∈ s.dropped
  closed : ∀ x ∈ s.closed, x ∈ s.issued
  dropped : ∀ x ∈ s.dropped, x ∈ s.issued

omit [DecidableEq α] in
theorem Accounted.issue (accounted : Accounted s) (valid : r.Valid s) {x : ν} {state : σ}
    (hserial : r.serial x = s.issued.length) :
    Accounted { s with state, issued := s.issued ++ [x] } := by
  have hfresh := valid.fresh hserial
  constructor
  · intro y hy
    rcases List.mem_append.mp hy with hy | hy
    · exact accounted.torn_iff y hy
    · obtain rfl := List.mem_singleton.mp hy
      constructor
      · intro htorn
        exact absurd (valid.issued y htorn) hfresh
      · rintro (hclosed | hdropped)
        · exact absurd (accounted.closed y hclosed) hfresh
        · exact absurd (accounted.dropped y hdropped) hfresh
  · intro y hy
    exact List.mem_append_left _ (accounted.closed y hy)
  · intro y hy
    exact List.mem_append_left _ (accounted.dropped y hy)

theorem Accounted.drop (accounted : Accounted s) (valid : r.Valid s) (addr : α) (state : σ) :
    Accounted { s with
      state
      torn := s.torn ++ (r.table s.state addr).toList
      dropped := s.dropped ++ s.issued.filter fun x => r.home x = addr } := by
  refine ⟨?_, accounted.closed, ?_⟩
  · intro y hy
    have hold := accounted.torn_iff y hy
    by_cases hhome : r.home y = addr
    · subst hhome
      have hdropped : y ∈ s.issued.filter fun x => r.home x = r.home y := by simp [hy]
      constructor
      · intro _
        exact Or.inr (List.mem_append_right _ hdropped)
      · intro _
        exact valid.torn_of_home hy
    · have hother : r.table s.state addr ≠ some y := by
        intro h
        exact hhome (valid.registered addr y h).2.1
      simp [hother, hhome, hold]
  · intro y hy
    rcases List.mem_append.mp hy with hy | hy
    · exact accounted.dropped y hy
    · exact List.mem_of_mem_filter hy

omit [DecidableEq α] in
theorem Accounted.close (accounted : Accounted s) (valid : r.Valid s) {x : ν}
    (hissued : x ∈ s.issued) (hcurrent : ∀ y ∈ r.table s.state (r.home x), y = x) (state : σ) :
    Accounted { s with
      state
      torn := s.torn ++ (r.table s.state (r.home x)).toList
      closed := s.closed ++ [x] } := by
  refine ⟨?_, ?_, accounted.dropped⟩
  · intro y hy
    have hold := accounted.torn_iff y hy
    by_cases hsame : y = x
    · subst hsame
      constructor
      · intro _
        exact Or.inl (List.mem_append_right _ (List.mem_singleton_self y))
      · intro _
        exact valid.torn_of_home hy
    · have hother : r.table s.state (r.home x) ≠ some y := by
        intro h
        exact hsame (hcurrent y h)
      simp [hother, hsame, hold]
  · intro y hy
    rcases List.mem_append.mp hy with hy | hy
    · exact accounted.closed y hy
    · obtain rfl := List.mem_singleton.mp hy
      exact hissued

theorem Accounted.effect (accounted : Accounted s) (valid : r.Valid s) {call : Call κ}
    (hcurrent : r.current s call) (h : r.Effect s call s') : Accounted s' := by
  cases h with
  | issue hserial hfree htable => exact accounted.issue valid hserial
  | refuse => exact accounted
  | drop htable => exact accounted.drop valid _ _
  | close hx htable =>
      exact accounted.close valid (List.mem_of_getElem? hx) (hcurrent _ hx) _

variable {state : σ} {trace : List (Call κ × Option String)}

/-- Where only current instances are closed, every instance is left to its own calls. -/
theorem intact_of_runs (lawful : r.Lawful) (hempty : ∀ addr, r.table state addr = none)
    (run : Runs r.step r.current (start state) trace s) : r.Intact s := by
  have hboth : r.Valid s ∧ Accounted s := by
    refine run.invariant (motive := fun s => r.Valid s ∧ Accounted s)
      ⟨valid_start hempty, ⟨by simp [start], by simp [start], by simp [start]⟩⟩ ?_
    intro s call s' seen ih hcurrent hstep
    have heffect := effect_of_step lawful hstep
    exact ⟨ih.1.effect heffect, ih.2.effect ih.1 hcurrent heffect⟩
  obtain ⟨valid, accounted⟩ := hboth
  refine ⟨accounted.torn_iff, fun x hx => ⟨fun h => (valid.registered _ x h).2.2, valid.kept x hx⟩⟩

/-! ## One call of close -/

/-- Whatever closing the instance tears down, or removes from the table, is the instance. -/
def TearsOnly (r : Registry σ κ α ν) (s : σ) (x : ν) : Prop :=
  ∀ err retired, r.close s x err = .ok retired → ∀ y,
    (retired.torn = some y ∨
      ∃ addr, r.table s addr = some y ∧ r.table retired.state addr ≠ some y) → y = x

theorem tearsOnly_iff (lawful : r.Lawful) (s : σ) (x : ν) :
    r.TearsOnly s x ↔ ∀ y ∈ r.table s (r.home x), y = x := by
  constructor
  · intro h y hy
    obtain ⟨retired, hclose, htorn, -⟩ := lawful.close s x none
    exact h none retired hclose y (Or.inl (htorn.trans hy))
  · intro h err retired hclose y hy
    obtain ⟨_, hclose', htorn, htable⟩ := lawful.close s x err
    rw [hclose] at hclose'
    cases hclose'
    rcases hy with hy | ⟨addr, hold, hnew⟩
    · exact h y (htorn.symm.trans hy)
    · by_cases haddr : addr = r.home x
      · subst haddr
        exact h y hold
      · simp only [htable, Function.update_of_ne haddr] at hnew
        exact absurd hold hnew

end Registry

end Inet256.Foundation
