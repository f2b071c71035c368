import Mathlib.Data.Vector.Basic

/-!
# Byte strings and fallible calls

The library layer shared by every part of the development.  A call either
returns a value, returns an error, or panics; `Go` keeps the three outcomes
apart, so that "never panics" and "never fails" are different statements.
A call whose rounds are counted may also not finish within them.
Byte strings are lists, fixed-size arrays are vectors, and integers travel as
fixed-width big-endian or little-endian words.
-/

namespace Inet256.Foundation

universe u

abbrev Bytes := List UInt8

inductive Fault where
  | error (text : String)
  | panic (text : String)
  deriving DecidableEq, Repr

abbrev Go := Except Fault

def fail {α : Type*} (text : String) : Go α := .error (.error text)

def crash {α : Type*} (text : String) : Go α := .error (.panic text)

def showBytes (text : Bytes) : String :=
  String.ofList (text.map fun byte => Char.ofNat byte.toNat)

theorem bind_eq_ok {ε : Type*} {α β : Type u} {call : Except ε α} {next : α → Except ε β}
    {result : β} :
    call >>= next = .ok result ↔
      ∃ value, call = .ok value ∧ next value = .ok result := by
  cases call with
  | error fault => simp [bind, Except.bind]
  | ok value => simp [bind, Except.bind]

theorem Go.bind_eq_ok {α β : Type u} {call : Go α} {next : α → Go β} {result : β} :
    call >>= next = .ok result ↔
      ∃ value, call = .ok value ∧ next value = .ok result :=
  Foundation.bind_eq_ok

@[simp] theorem Go.ok_bind {α β : Type u} (value : α) (next : α → Go β) :
    (Except.ok value : Go α) >>= next = next value := rfl

@[simp] theorem Go.pure_eq_ok {α : Type*} (value : α) :
    (pure value : Go α) = .ok value := rfl

/-- The call returns a value or an error. -/
def Returns {α : Type*} (call : Go α) : Prop := ∀ text, call ≠ crash text

@[simp] theorem returns_ok {α : Type*} (value : α) : Returns (.ok value : Go α) := by
  intro text h
  cases h

@[simp] theorem returns_fail {α : Type*} (text : String) : Returns (fail text : Go α) := by
  intro text' h
  cases h

@[simp] theorem not_returns_crash {α : Type*} (text : String) :
    ¬ Returns (crash text : Go α) := fun h => h text rfl

theorem returns_bind_iff {α β : Type u} {call : Go α} {next : α → Go β} :
    Returns (call >>= next) ↔ Returns call ∧ ∀ value, call = .ok value → Returns (next value) := by
  cases call with
  | ok value => simp
  | error fault =>
      cases fault with
      | error text => simp [Returns, bind, Except.bind, crash]
      | panic text => simp [Returns, bind, Except.bind, crash]

theorem toOption_eq_some {α : Type} {call : Go α} {value : α} :
    call.toOption = some value ↔ call = .ok value := by
  cases call <;> simp [Except.toOption]

/-- A loop none of whose rounds fails. -/
theorem foldlM_eq_ok {α σ : Type} {round : σ → α → Go σ} {next : σ → α → σ} {items : List α}
    (h : ∀ item ∈ items, ∀ state, round state item = .ok (next state item)) (state : σ) :
    items.foldlM round state = .ok (items.foldl next state) := by
  induction items generalizing state with
  | nil => rfl
  | cons item items ih =>
      rw [List.foldlM_cons, h item (by simp), Go.ok_bind, List.foldl_cons]
      apply ih
      intro other hother
      exact h other (by simp [hother])

/-- In a loop that does not fail, no round does. -/
theorem exists_round_of_foldlM {α σ : Type} {round : σ → α → Go σ} {items : List α}
    {state state' : σ} (h : items.foldlM round state = .ok state') {item : α}
    (hitem : item ∈ items) : ∃ before after, round before item = .ok after := by
  induction items generalizing state with
  | nil => simp at hitem
  | cons first items ih =>
      rw [List.foldlM_cons] at h
      obtain ⟨next, hround, hrest⟩ := Go.bind_eq_ok.mp h
      cases List.mem_cons.mp hitem with
      | inl hfirst =>
          subst hfirst
          exact ⟨state, next, hround⟩
      | inr hlater => exact ih hrest hlater

/-- A loop returns if every round does that it comes to. -/
theorem returns_foldlM_iff {α σ : Type} {round : σ → α → Go σ} {items : List α} {state : σ} :
    Returns (items.foldlM round state) ↔
      ∀ before item after state', items = before ++ item :: after →
        before.foldlM round state = .ok state' → Returns (round state' item) := by
  induction items generalizing state with
  | nil => simp
  | cons first items ih =>
      rw [List.foldlM_cons, returns_bind_iff]
      simp only [ih]
      constructor
      · rintro ⟨hfirst, hrest⟩ before item after state' hsplit hbefore
        cases before with
        | nil =>
            cases hsplit
            cases hbefore
            exact hfirst
        | cons other before =>
            cases hsplit
            rw [List.foldlM_cons] at hbefore
            obtain ⟨next, hround, hbefore⟩ := Go.bind_eq_ok.mp hbefore
            exact hrest next hround before item after state' rfl hbefore
      · intro h
        refine ⟨h [] first items state rfl rfl, ?_⟩
        rintro next hround before item after state' rfl hbefore
        refine h (first :: before) item after state' rfl ?_
        rw [List.foldlM_cons, hround]
        exact hbefore

/-! ## Slices and arrays -/

/-- The slice expression `xs[lo:hi]` on a slice whose capacity is its length. -/
def slice {α : Type*} (xs : List α) (lo hi : Nat) : Go (List α) :=
  if lo ≤ hi ∧ hi ≤ xs.length then .ok ((xs.drop lo).take (hi - lo))
  else crash "slice bounds out of range"

theorem slice_eq_ok {α : Type*} {xs : List α} {lo hi : Nat}
    (horder : lo ≤ hi) (hbound : hi ≤ xs.length) :
    slice xs lo hi = .ok ((xs.drop lo).take (hi - lo)) := by
  rw [slice, if_pos ⟨horder, hbound⟩]

/-- A slice of the front. -/
theorem slice_zero {α : Type*} {xs : List α} {hi : Nat} (h : hi ≤ xs.length) :
    slice xs 0 hi = .ok (xs.take hi) := by
  rw [slice_eq_ok (Nat.zero_le hi) h, List.drop_zero, Nat.sub_zero]

theorem slice_of_length_lt {α : Type*} {xs : List α} {hi : Nat} (lo : Nat) (h : xs.length < hi) :
    slice xs lo hi = crash "slice bounds out of range" := by
  rw [slice, if_neg fun hbounds => Nat.not_le.mpr h hbounds.2]

theorem slice_take {α : Type*} (xs : List α) {lo hi n : Nat} (h : hi ≤ n) :
    slice (xs.take n) lo hi = slice xs lo hi := by
  have hbound : hi ≤ (xs.take n).length ↔ hi ≤ xs.length := by
    rw [List.length_take]
    omega
  simp only [slice, hbound]
  split
  · rw [List.drop_take, List.take_take, Nat.min_eq_left (by omega)]
  · rfl

theorem slice_append {α : Type*} (front middle rest : List α) {lo hi : Nat}
    (hlo : front.length = lo) (hhi : lo + middle.length = hi) :
    slice (front ++ (middle ++ rest)) lo hi = .ok middle := by
  subst hlo hhi
  rw [slice_eq_ok (by omega) (by simp)]
  simp

/-- `copy` into a zeroed `n`-byte array. -/
def copyTo (n : Nat) (source : Bytes) : List.Vector UInt8 n :=
  ⟨source.take n ++ List.replicate (n - source.length) 0, by
    simp only [List.length_append, List.length_take, List.length_replicate]
    omega⟩

@[simp] theorem copyTo_toList {n : Nat} (array : List.Vector UInt8 n) :
    copyTo n array.toList = array := by
  apply List.Vector.eq
  simp [copyTo, List.Vector.toList_mk]

/-! ## Fixed-width words -/

def leBytes : Nat → Nat → Bytes
  | 0, _ => []
  | width + 1, value => UInt8.ofNat value :: leBytes width (value / 256)

def leValue : Bytes → Nat
  | [] => 0
  | byte :: word => byte.toNat + 256 * leValue word

def beBytes (width value : Nat) : Bytes := (leBytes width value).reverse

def beValue (word : Bytes) : Nat := leValue word.reverse

@[simp] theorem leBytes_length (width value : Nat) :
    (leBytes width value).length = width := by
  induction width generalizing value with
  | zero => rfl
  | succ width ih => simp [leBytes, ih]

@[simp] theorem beBytes_length (width value : Nat) :
    (beBytes width value).length = width := by
  simp [beBytes]

theorem leValue_leBytes {width value : Nat} (h : value < 256 ^ width) :
    leValue (leBytes width value) = value := by
  induction width generalizing value with
  | zero =>
      have hzero : value = 0 := by simpa using h
      simp [leBytes, leValue, hzero]
  | succ width ih =>
      have htail : value / 256 < 256 ^ width := by
        apply Nat.div_lt_of_lt_mul
        rwa [pow_succ, Nat.mul_comm] at h
      rw [leBytes, leValue, ih htail, UInt8.toNat_ofNat']
      omega

theorem leBytes_leValue (word : Bytes) :
    leBytes word.length (leValue word) = word := by
  induction word with
  | nil => rfl
  | cons byte word ih =>
      have hbyte := byte.toNat_lt
      have htail : (byte.toNat + 256 * leValue word) / 256 = leValue word := by
        omega
      have hhead : UInt8.ofNat (byte.toNat + 256 * leValue word) = byte := by
        apply UInt8.toNat_inj.mp
        rw [UInt8.toNat_ofNat']
        omega
      rw [List.length_cons, leValue, leBytes, hhead, htail, ih]

theorem beValue_beBytes {width value : Nat} (h : value < 256 ^ width) :
    beValue (beBytes width value) = value := by
  rw [beValue, beBytes, List.reverse_reverse, leValue_leBytes h]

theorem beBytes_beValue (word : Bytes) :
    beBytes word.length (beValue word) = word := by
  have h := congrArg List.reverse (leBytes_leValue word.reverse)
  rwa [List.length_reverse, List.reverse_reverse] at h

/-! ## Calls in lockstep -/

abbrev Bounded := ExceptT Fault Option

namespace Bounded

variable {α β γ δ : Type}

def unfinished : Bounded α := ExceptT.mk none

def ofGo (call : Go α) : Bounded α := ExceptT.mk (some call)

@[simp] theorem ofGo_ok (value : α) : ofGo (.ok value : Go α) = pure value := rfl

/--
Two calls are in lockstep if neither finishes, if both end with the same fault, or if both return
and their values are related.
-/
inductive Lockstep (R : α → β → Prop) : Bounded α → Bounded β → Prop where
  | unfinished : Lockstep R unfinished unfinished
  | fault (fault : Fault) : Lockstep R (ofGo (.error fault)) (ofGo (.error fault))
  | value {a : α} {b : β} (h : R a b) : Lockstep R (pure a) (pure b)

namespace Lockstep

variable {R : α → β → Prop} {S : γ → δ → Prop}

/-- The calls go on where both have returned. -/
theorem bind {first : Bounded α} {second : Bounded β} (h : Lockstep R first second)
    {next : α → Bounded γ} {next' : β → Bounded δ}
    (hnext : ∀ a b, R a b → second = pure b → Lockstep S (next a) (next' b)) :
    Lockstep S (first >>= next) (second >>= next') := by
  cases h with
  | unfinished => exact .unfinished
  | fault fault => exact .fault fault
  | value hab => exact hnext _ _ hab rfl

theorem mono {R' : α → β → Prop} {first : Bounded α} {second : Bounded β}
    (h : Lockstep R first second) (hsub : ∀ a b, R a b → R' a b) : Lockstep R' first second := by
  cases h with
  | unfinished => exact .unfinished
  | fault fault => exact .fault fault
  | value hab => exact .value (hsub _ _ hab)

theorem of_returns {first : Bounded α} {second : Bounded β} (h : Lockstep R first second) {b : β}
    (hreturn : second = pure b) : ∃ a, first = pure a ∧ R a b := by
  cases h with
  | unfinished => cases hreturn
  | fault fault => cases hreturn
  | value hab =>
      cases hreturn
      exact ⟨_, rfl, hab⟩

theorem same (call : Go α) : Lockstep Eq (ofGo call) (ofGo call) := by
  cases call with
  | error fault => exact .fault fault
  | ok value => exact .value rfl

end Lockstep

end Bounded

end Inet256.Foundation
