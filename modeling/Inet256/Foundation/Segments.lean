import Inet256.Foundation.Bytes
import Mathlib.Data.List.Flatten
import Mathlib.Data.List.Forall2
import Mathlib.Data.List.Nodup

/-!
# Segments of a concatenation

The segments of a concatenation are all found at its front when at most one of
them is not empty; otherwise there are a first one that is not, and a later one.

Several writers that append to one log take turns if the log is the entries of
one writer after those of another, in the order in which the writers came, and no
writer comes back.
-/

namespace Inet256.Foundation

variable {α β : Type*}

/-! ## Fronts of a concatenation -/

def AtMostOneNonzero (sizes : List Nat) : Prop := sizes.countP (· ≠ 0) ≤ 1

instance (sizes : List Nat) : Decidable (AtMostOneNonzero sizes) :=
  inferInstanceAs (Decidable (_ ≤ _))

theorem atMostOneNonzero_cons {n : Nat} {sizes : List Nat} :
    AtMostOneNonzero (n :: sizes) ↔
      (n = 0 ∧ AtMostOneNonzero sizes) ∨ (n ≠ 0 ∧ ∀ m ∈ sizes, m = 0) := by
  unfold AtMostOneNonzero
  rw [List.countP_cons]
  by_cases hn : n = 0
  · simp [hn]
  · simp [hn, List.countP_eq_zero]

theorem take_flatten_of_mem {segments : List (List α)}
    (h : AtMostOneNonzero (segments.map List.length)) :
    ∀ segment ∈ segments, segments.flatten.take segment.length = segment := by
  induction segments with
  | nil => simp
  | cons first segments ih =>
      intro segment hsegment
      rw [List.map_cons, atMostOneNonzero_cons] at h
      rw [List.flatten_cons]
      rcases h with ⟨hzero, hrest⟩ | ⟨-, hrest⟩
      · have hfirst := List.eq_nil_of_length_eq_zero hzero
        rw [hfirst, List.nil_append]
        rcases List.mem_cons.mp hsegment with rfl | hlater
        · simp [hfirst]
        · exact ih hrest segment hlater
      · have hempty : ∀ other ∈ segments, other = [] := fun other hother =>
          List.eq_nil_of_length_eq_zero (hrest _ (List.mem_map_of_mem hother))
        rw [List.flatten_eq_nil_iff.mpr hempty, List.append_nil]
        rcases List.mem_cons.mp hsegment with rfl | hlater
        · exact List.take_length
        · simp [hempty segment hlater]

/-- Items of which two have a size, at the first of them. -/
theorem exists_two_nonzero {size : α → Nat} {items : List α}
    (h : ¬ AtMostOneNonzero (items.map size)) :
    ∃ before first rest second, items = before ++ first :: rest ∧
      (∀ item ∈ before, size item = 0) ∧ size first ≠ 0 ∧ second ∈ rest ∧ size second ≠ 0 := by
  induction items with
  | nil => simp [AtMostOneNonzero] at h
  | cons item items ih =>
      rw [List.map_cons, atMostOneNonzero_cons] at h
      by_cases hitem : size item = 0
      · have hitems : ¬ AtMostOneNonzero (items.map size) := fun hone =>
          h (Or.inl ⟨hitem, hone⟩)
        obtain ⟨before, first, rest, second, rfl, hbefore, hfound⟩ := ih hitems
        exact ⟨item :: before, first, rest, second, rfl,
          List.forall_mem_cons.mpr ⟨hitem, hbefore⟩, hfound⟩
      · have hsome : ¬ ∀ other ∈ items, size other = 0 := fun hall =>
          h (Or.inr ⟨hitem, by simpa using hall⟩)
        push Not at hsome
        obtain ⟨second, hmem, hsecond⟩ := hsome
        exact ⟨[], item, items, second, rfl, by simp, hitem, hmem, hsecond⟩

/-- A call for every item, each of which succeeds, makes up a concatenation. -/
theorem exists_segments {κ : Type*} {call : κ → Go Bytes} (all : List κ → Go Bytes)
    (hnil : all [] = .ok [])
    (hcons : ∀ item items segment rest, call item = .ok segment → all items = .ok rest →
      all (item :: items) = .ok (segment ++ rest))
    {r : κ → Bytes → Prop} {items : List κ}
    (h : ∀ item ∈ items, ∃ segment, call item = .ok segment ∧ r item segment) :
    ∃ segments, all items = .ok segments.flatten ∧ List.Forall₂ r items segments := by
  induction items with
  | nil => exact ⟨[], hnil, .nil⟩
  | cons item items ih =>
      obtain ⟨⟨segment, hcall, hr⟩, hrest⟩ := List.forall_mem_cons.mp h
      obtain ⟨segments, hall, hrs⟩ := ih hrest
      exact ⟨segment :: segments, hcons item items segment _ hcall hall, .cons hr hrs⟩

/-! ## Lists in parallel -/

theorem forall₂_map_map {γ : Type*} {r : β → γ → Prop} {f : α → β} {g : α → γ} (xs : List α)
    (h : ∀ x ∈ xs, r (f x) (g x)) : List.Forall₂ r (xs.map f) (xs.map g) := by
  rw [List.forall₂_map_left_iff, List.forall₂_map_right_iff, List.forall₂_same]
  exact h

theorem forall₂_of_forall_mem {r : α → β → Prop} {q : β → Prop} {xs : List α} {ys : List β}
    (h : List.Forall₂ r xs ys) (hq : ∀ y ∈ ys, q y) :
    List.Forall₂ (fun x y => r x y ∧ q y) xs ys := by
  induction h with
  | nil => exact .nil
  | cons hhead _ ih =>
      exact .cons ⟨hhead, hq _ (by simp)⟩ (ih fun y hy => hq y (by simp [hy]))

/-- A condition on pairs whose second component is a function of the first. -/
theorem forall₂_iff_forall_mem {r p : α → β → Prop} {f : α → β} {xs : List α} {ys : List β}
    (h : List.Forall₂ r xs ys) (hf : ∀ x y, r x y → f x = y) :
    List.Forall₂ p xs ys ↔ ∀ x ∈ xs, p x (f x) := by
  induction h with
  | nil => simp
  | cons hhead _ ih => simp [List.forall₂_cons, ih, hf _ _ hhead]

/-! ## Logs that are written in turns -/

section Logs

variable {κ α : Type} [DecidableEq κ]

/-- The entries of one writer. -/
def entriesOf (log : List (κ × α)) (k : κ) : List (κ × α) := log.filter fun entry => entry.1 == k

structure Turns (writers : List κ) (log : List (κ × α)) : Prop where
  nodup : writers.Nodup
  log : log = writers.flatMap (entriesOf log)

theorem entriesOf_append (log more : List (κ × α)) (k : κ) :
    entriesOf (log ++ more) k = entriesOf log k ++ entriesOf more k :=
  List.filter_append ..

theorem entriesOf_self (k : κ) (x : α) : entriesOf [(k, x)] k = [(k, x)] := by
  simp [entriesOf]

theorem entriesOf_of_ne {k k' : κ} (h : k' ≠ k) (x : α) : entriesOf [(k, x)] k' = [] := by
  simp [entriesOf, h.symm]

namespace Turns

variable {writers : List κ} {log : List (κ × α)} {k : κ}

theorem nil : Turns ([] : List κ) ([] : List (κ × α)) := ⟨List.nodup_nil, rfl⟩

theorem mem_writers (h : Turns writers log) {entry : κ × α} (hentry : entry ∈ log) :
    entry.1 ∈ writers := by
  rw [h.log] at hentry
  obtain ⟨k, hk, hof⟩ := List.mem_flatMap.mp hentry
  rw [entriesOf, List.mem_filter, beq_iff_eq] at hof
  rw [hof.2]
  exact hk

theorem entriesOf_eq_nil (h : Turns writers log) (hk : k ∉ writers) : entriesOf log k = [] := by
  rw [entriesOf, List.filter_eq_nil_iff]
  intro entry hentry hsame
  rw [beq_iff_eq] at hsame
  exact hk (hsame ▸ h.mem_writers hentry)

/-- The next writer comes. -/
theorem pass (h : Turns writers log) (hk : k ∉ writers) : Turns (writers ++ [k]) log where
  nodup := by
    rw [List.nodup_append]
    exact ⟨h.nodup, List.nodup_singleton k, by simpa using fun w hw => ne_of_mem_of_not_mem hw hk⟩
  log := by
    rw [List.flatMap_append, List.flatMap_singleton, h.entriesOf_eq_nil hk, List.append_nil]
    exact h.log

/-- The last writer writes. -/
theorem write (h : Turns (writers ++ [k]) log) (x : α) :
    Turns (writers ++ [k]) (log ++ [(k, x)]) where
  nodup := h.nodup
  log := by
    have hothers : writers.flatMap (entriesOf (log ++ [(k, x)])) =
        writers.flatMap (entriesOf log) := by
      refine List.flatMap_congr fun w hw => ?_
      have hne : w ≠ k := (List.nodup_append.mp h.nodup).2.2 w hw k (by simp)
      rw [entriesOf_append, entriesOf_of_ne hne, List.append_nil]
    have hlog := h.log
    rw [List.flatMap_append, List.flatMap_singleton] at hlog ⊢
    rw [hothers, entriesOf_append, entriesOf_self, ← List.append_assoc, ← hlog]

end Turns

end Logs

end Inet256.Foundation
