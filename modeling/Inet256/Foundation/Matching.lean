import Mathlib.Data.Finset.Card
import Mathlib.Data.Finset.Range
import Mathlib.Data.List.Induction
import Mathlib.Logic.Function.Basic

/-!
# Matching uses with earlier makings

In a history some entries make an item and some use one.  When no part of the
history from its beginning uses an item more often than it has made it, every
use can be given a making of its own that comes before it.
-/

namespace Inet256.Foundation

variable {ε κ : Type}

def itemAt (item : ε → Option κ) (history : List ε) (position : Nat) : Option κ :=
  history[position]?.bind item

theorem itemAt_of_lt (item : ε → Option κ) (history : List ε) (last : ε) {position : Nat}
    (h : position < history.length) :
    itemAt item (history ++ [last]) position = itemAt item history position := by
  rw [itemAt, itemAt, List.getElem?_append_left h]

theorem itemAt_last (item : ε → Option κ) (history : List ε) (last : ε) :
    itemAt item (history ++ [last]) history.length = item last := by
  simp [itemAt]

theorem itemAt_of_le (item : ε → Option κ) {history : List ε} {position : Nat}
    (h : history.length ≤ position) : itemAt item history position = none := by
  rw [itemAt, List.getElem?_eq_none h, Option.bind_none]

theorem lt_of_itemAt {item : ε → Option κ} {history : List ε} {position : Nat} {key : κ}
    (h : itemAt item history position = some key) : position < history.length := by
  by_contra hge
  rw [itemAt_of_le item (not_lt.mp hge)] at h
  cases h

/-- Every use has a making of its own, before it and of the same item. -/
structure Matching (made used : ε → Option κ) (history : List ε) (source : Nat → Nat) :
    Prop where
  earlier : ∀ position key, itemAt used history position = some key →
    source position < position
  same : ∀ position key, itemAt used history position = some key →
    itemAt made history (source position) = some key
  distinct : ∀ position other key key', itemAt used history position = some key →
    itemAt used history other = some key' → source position = source other →
    position = other

variable [DecidableEq κ]

def positions (item : ε → Option κ) (history : List ε) (key : κ) : Finset Nat :=
  (Finset.range history.length).filter fun position =>
    itemAt item history position = some key

theorem mem_positions {item : ε → Option κ} {history : List ε} {key : κ} {position : Nat} :
    position ∈ positions item history key ↔ itemAt item history position = some key := by
  rw [positions, Finset.mem_filter, Finset.mem_range]
  exact ⟨fun h => h.2, fun h => ⟨lt_of_itemAt h, h⟩⟩

theorem positions_concat (item : ε → Option κ) (history : List ε) (last : ε) (key : κ) :
    positions item (history ++ [last]) key =
      if item last = some key then insert history.length (positions item history key)
      else positions item history key := by
  ext position
  have hinside : itemAt item (history ++ [last]) position = some key ↔
      (position = history.length ∧ item last = some key) ∨
        itemAt item history position = some key := by
    rcases lt_trichotomy position history.length with hlt | rfl | hgt
    · rw [itemAt_of_lt item history last hlt]
      simp [hlt.ne]
    · rw [itemAt_last]
      simp [itemAt]
    · have hlength : (history ++ [last]).length ≤ position := by
        rw [List.length_append, List.length_singleton]
        omega
      rw [itemAt_of_le item hlength, itemAt_of_le item hgt.le]
      simp [hgt.ne']
  split
  · next hlast =>
      rw [Finset.mem_insert, mem_positions, mem_positions, hinside]
      simp [hlast]
  · next hlast =>
      rw [mem_positions, mem_positions, hinside]
      simp [hlast]

theorem card_positions (item : ε → Option κ) (history : List ε) (key : κ) :
    (positions item history key).card = (history.filterMap item).count key := by
  induction history using List.reverseRecOn with
  | nil => rfl
  | append_singleton history last ih =>
      rw [positions_concat, List.filterMap_append, List.count_append, ← ih]
      have hfresh : history.length ∉ positions item history key := by
        intro h
        exact absurd (lt_of_itemAt (mem_positions.mp h)) (lt_irrefl _)
      cases hlast : item last with
      | none => simp [hlast]
      | some key' =>
          by_cases hkey : key' = key
          · simp [hlast, hkey, Finset.card_insert_of_notMem hfresh]
          · simp [hlast, hkey]

/-- A use that is not more frequent than its makings has one that is still free. -/
theorem exists_free_making {made used : ε → Option κ} {history : List ε}
    (source : Nat → Nat) {key : κ}
    (h : (history.filterMap used).count key < (history.filterMap made).count key) :
    ∃ free ∈ positions made history key,
      ∀ position ∈ positions used history key, source position ≠ free := by
  have hcard : ((positions used history key).image source).card <
      (positions made history key).card := by
    calc ((positions used history key).image source).card
        ≤ (positions used history key).card := Finset.card_image_le
      _ = (history.filterMap used).count key := card_positions used history key
      _ < (history.filterMap made).count key := h
      _ = (positions made history key).card := (card_positions made history key).symm
  obtain ⟨free, hmem, hfree⟩ := Finset.exists_mem_notMem_of_card_lt_card hcard
  refine ⟨free, hmem, fun position hposition heq => hfree ?_⟩
  exact Finset.mem_image.mpr ⟨position, hposition, heq⟩

theorem Matching.concat_of_unused {made used : ε → Option κ} {history : List ε} {last : ε}
    {source : Nat → Nat} (matching : Matching made used history source)
    (hunused : used last = none) : Matching made used (history ++ [last]) source := by
  have hold : ∀ position key, itemAt used (history ++ [last]) position = some key →
      itemAt used history position = some key := by
    intro position key h
    have hmem := mem_positions.mpr h
    rw [positions_concat, if_neg (by simp [hunused])] at hmem
    exact mem_positions.mp hmem
  refine ⟨?_, ?_, ?_⟩
  · intro position key h
    exact matching.earlier position key (hold position key h)
  · intro position key h
    have hmade := matching.same position key (hold position key h)
    rw [itemAt_of_lt made history last (lt_of_itemAt hmade)]
    exact hmade
  · intro position other key key' h h' heq
    exact matching.distinct position other key key' (hold _ _ h) (hold _ _ h') heq

theorem Matching.concat_of_used {made used : ε → Option κ} {history : List ε} {last : ε}
    {source : Nat → Nat} (matching : Matching made used history source) {key : κ}
    (hused : used last = some key) {free : Nat} (hfree : free ∈ positions made history key)
    (hunmatched : ∀ position ∈ positions used history key, source position ≠ free) :
    Matching made used (history ++ [last])
      (Function.update source history.length free) := by
  have hmade := mem_positions.mp hfree
  have hlt := lt_of_itemAt hmade
  -- an old use is never matched with the free making
  have hold : ∀ position key', position < history.length →
      itemAt used (history ++ [last]) position = some key' →
      itemAt used history position = some key' ∧ source position ≠ free := by
    intro position key' hposition h
    rw [itemAt_of_lt used history last hposition] at h
    refine ⟨h, fun heq => ?_⟩
    have hsame := matching.same position key' h
    rw [heq, hmade] at hsame
    cases hsame
    exact hunmatched position (mem_positions.mpr h) heq
  have hcases : ∀ position key', itemAt used (history ++ [last]) position = some key' →
      position < history.length ∨ position = history.length := by
    intro position key' h
    have hbound := lt_of_itemAt h
    simp only [List.length_append, List.length_singleton] at hbound
    omega
  refine ⟨?_, ?_, ?_⟩
  · intro position key' h
    rcases hcases position key' h with hposition | rfl
    · rw [Function.update_of_ne hposition.ne]
      exact matching.earlier position key' (hold position key' hposition h).1
    · rw [Function.update_self]
      exact hlt
  · intro position key' h
    rcases hcases position key' h with hposition | rfl
    · rw [Function.update_of_ne hposition.ne]
      have hsame := matching.same position key' (hold position key' hposition h).1
      rw [itemAt_of_lt made history last (lt_of_itemAt hsame)]
      exact hsame
    · rw [itemAt_last, hused] at h
      cases h
      rw [Function.update_self, itemAt_of_lt made history last hlt]
      exact hmade
  · intro position other key₁ key₂ h₁ h₂ heq
    rcases hcases position key₁ h₁ with hposition | rfl <;>
      rcases hcases other key₂ h₂ with hother | rfl
    · rw [Function.update_of_ne hposition.ne, Function.update_of_ne hother.ne] at heq
      exact matching.distinct position other key₁ key₂ (hold _ _ hposition h₁).1
        (hold _ _ hother h₂).1 heq
    · rw [Function.update_of_ne hposition.ne, Function.update_self] at heq
      exact absurd heq (hold _ _ hposition h₁).2
    · rw [Function.update_self, Function.update_of_ne hother.ne] at heq
      exact absurd heq.symm (hold _ _ hother h₂).2
    · rfl

theorem exists_matching (made used : ε → Option κ)
    (hone : ∀ entry, made entry = none ∨ used entry = none) {history : List ε}
    (h : ∀ before after, history = before ++ after → ∀ key,
      (before.filterMap used).count key ≤ (before.filterMap made).count key) :
    ∃ source, Matching made used history source := by
  induction history using List.reverseRecOn with
  | nil => exact ⟨id, by simp [itemAt], by simp [itemAt], by simp [itemAt]⟩
  | append_singleton history last ih =>
      obtain ⟨source, matching⟩ := ih fun before after heq =>
        h before (after ++ [last]) (by rw [heq, List.append_assoc])
      cases hlast : used last with
      | none => exact ⟨source, matching.concat_of_unused hlast⟩
      | some key =>
          have hunmade : made last = none :=
            (hone last).resolve_right (by simp [hlast])
          have hcount := h (history ++ [last]) [] (by simp) key
          simp only [List.filterMap_append, List.filterMap_cons, List.filterMap_nil, hlast,
            hunmade, List.append_nil, List.count_append, List.count_singleton_self] at hcount
          obtain ⟨free, hfree, hunmatched⟩ := exists_free_making source hcount
          exact ⟨_, matching.concat_of_used hlast hfree hunmatched⟩

end Inet256.Foundation
