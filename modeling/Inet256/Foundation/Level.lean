import Mathlib.Data.List.Basic
import Mathlib.Logic.Function.Basic

/-!
# Choosing the least of some counters

Several choosers read counters one after the other, each keeps the least it has
read, and in the end counts itself there.  What it read may be old by then.  If
no counter ever falls and at most `limit` choosers have a reading at a time,
then no counter is ever ahead of another by more than `limit`: all that bring a
counter from `v` beyond `v + limit` would have read it before it passed `v`.
-/

namespace Inet256.Foundation

variable {ι : Type} [DecidableEq ι] {among : List ι} {count : ι → Int}
  {choices : List (Option (ι × Int))} {limit c : Nat}

/-- The reading is of this counter, when it was at most `v`. -/
def readsAt (e : ι) (v : Int) (choice : Option (ι × Int)) : Bool :=
  choice.any fun reading => decide (reading.1 = e) && decide (reading.2 ≤ v)

/-- Where a counter is ahead of `v`, and another is not, few have read it before. -/
def Level (limit : Nat) (among : List ι) (count : ι → Int)
    (choices : List (Option (ι × Int))) : Prop :=
  ∀ e, ∀ f ∈ among, ∀ v, count f ≤ v → v < count e →
    count e + choices.countP (readsAt e v) ≤ v + limit

theorem countP_set_le {α : Type} {p : α → Bool} {x : α} (h : p x = false) (l : List α) :
    (l.set c x).countP p ≤ l.countP p := by
  by_cases hc : c < l.length
  · rw [List.countP_set hc, h]
    simp
  · have hsame : l.set c x = l := List.set_eq_of_length_le (Nat.le_of_not_lt hc)
    exact Nat.le_of_eq (congrArg (List.countP p) hsame)

theorem countP_set_le_succ {α : Type} (p : α → Bool) (l : List α) (c : Nat) (x : α) :
    (l.set c x).countP p ≤ l.countP p + 1 := by
  cases hx : p x with
  | false => exact Nat.le_succ_of_le (countP_set_le hx l)
  | true =>
      by_cases hc : c < l.length
      · rw [List.countP_set hc, if_pos hx]
        omega
      · rw [List.set_eq_of_length_le (Nat.le_of_not_lt hc)]
        exact Nat.le_succ _

theorem countP_set_le_of_imp {α : Type} {p : α → Bool} {l : List α} {x y : α}
    (hy : l[c]? = some y) (himp : p x = true → p y = true) :
    (l.set c x).countP p ≤ l.countP p := by
  cases hx : p x with
  | false => exact countP_set_le hx l
  | true =>
      obtain ⟨hc, rfl⟩ := List.getElem?_eq_some_iff.mp hy
      have hpos : 0 < l.countP p := List.countP_pos_iff.mpr ⟨_, List.getElem_mem hc, himp hx⟩
      rw [List.countP_set hc, if_pos (himp hx), if_pos hx]
      omega

namespace Level

theorem le (level : Level limit among count choices) (e : ι) {f : ι} (hf : f ∈ among) :
    count e ≤ count f + limit := by
  by_cases hahead : count f < count e
  · have h := level e f hf (count f) (Int.le_refl _) hahead
    omega
  · omega

theorem of_eq_zero (h : ∀ e, count e = 0) : Level limit among count choices := by
  intro e f _ v hf he
  rw [h] at hf he
  omega

theorem accept (level : Level limit among count choices) :
    Level limit among count (choices ++ [none]) := by
  intro e f hf v hv he
  have h := level e f hf v hv he
  have hnone : [(none : Option (ι × Int))].countP (readsAt e v) = 0 := by simp [readsAt]
  rw [List.countP_append, hnone]
  exact h

/-- A counter that is read now counts for no bound that it has passed. -/
theorem read (level : Level limit among count choices) (ent : ι) :
    Level limit among count (choices.set c (some (ent, count ent))) := by
  intro e f hf v hv he
  have h := level e f hf v hv he
  have hfresh : readsAt e v (some (ent, count ent)) = false := by
    simp only [readsAt, Option.any_some, Bool.and_eq_false_iff, decide_eq_false_iff_not]
    by_cases hent : ent = e
    · rw [hent]
      exact Or.inr (Int.not_le.mpr he)
    · exact Or.inl hent
  have hle := countP_set_le (c := c) hfresh choices
  omega

/-- A chooser that read no more than every counter shows now counts itself. -/
theorem enter (level : Level limit among count choices) {ent : ι} {n : Int}
    (hchoice : choices[c]? = some (some (ent, n))) (hleast : ∀ f ∈ among, n ≤ count f)
    (hcrowd : choices.countP Option.isSome ≤ limit) :
    Level limit among (Function.update count ent (count ent + 1)) (choices.set c none) := by
  intro e f hf v hv he
  have hmono : count f ≤ Function.update count ent (count ent + 1) f := by
    by_cases hent : f = ent
    · rw [hent, Function.update_self]
      omega
    · exact Int.le_of_eq (Function.update_of_ne hent _ _).symm
  obtain ⟨hc, hget⟩ := List.getElem?_eq_some_iff.mp hchoice
  by_cases hent : e = ent
  · subst hent
    rw [Function.update_self] at he ⊢
    have hn := hleast f hf
    have hreads : readsAt e v choices[c] = true := by
      rw [hget]
      simp only [readsAt, Option.any_some, decide_true, Bool.true_and, decide_eq_true_eq]
      omega
    have hpos : 0 < choices.countP (readsAt e v) :=
      List.countP_pos_iff.mpr ⟨_, List.getElem_mem hc, hreads⟩
    have hone : (choices.set c none).countP (readsAt e v) + 1 = choices.countP (readsAt e v) := by
      have hnone : ¬ readsAt e v none = true := Bool.false_ne_true
      rw [List.countP_set hc, if_pos hreads, if_neg hnone]
      omega
    by_cases hpassed : v < count e
    · have h := level e f hf v (Int.le_trans hmono hv) hpassed
      omega
    · -- The counter passes `v` now, and everyone who has read anything may follow.
      have hall : choices.countP (readsAt e v) ≤ choices.countP Option.isSome := by
        refine List.countP_mono_left fun choice _ hreads => ?_
        cases choice with
        | none => cases hreads
        | some reading => rfl
      omega
  · rw [Function.update_of_ne hent] at he ⊢
    have h := level e f hf v (Int.le_trans hmono hv) he
    have hnone : readsAt e v none = false := rfl
    have hle := countP_set_le (c := c) hnone choices
    omega

end Level

end Inet256.Foundation
