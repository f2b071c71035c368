import Inet256.Dns256.Message

/-!
# Names with dots

A name is parsed by splitting it at its dots, testing every element and turning
the order round in place.  Elements are strings of the language, which need not
be text until they are tested.  The test for suffixes runs over the end of its
second argument.
-/

namespace Inet256.Dns256

open Inet256.Foundation

/-! ## Reversing in place -/

section Reverse

variable {α : Type}

/-- `xs[i], xs[j] = xs[j], xs[i]`. -/
def swap (xs : List α) (i j : Nat) : Go (List α) :=
  match xs[i]?, xs[j]? with
  | some first, some second => .ok ((xs.set i second).set j first)
  | _, _ => crash "index out of range"

def reverseInPlace (xs : List α) : Go (List α) :=
  (List.range (xs.length / 2)).foldlM (fun ys i => swap ys i (xs.length - 1 - i)) xs

/-- The ends are exchanged as far as the rounds have come. -/
def EndsReversed (n : Nat) (xs ys : List α) : Prop :=
  ys.length = xs.length ∧ ∀ k < xs.length, ys[k]? =
    if k < n ∨ xs.length - n ≤ k then xs[xs.length - 1 - k]? else xs[k]?

theorem EndsReversed.swap {n : Nat} {xs ys : List α} (h : EndsReversed n xs ys)
    (hn : n < xs.length / 2) :
    ∃ zs, swap ys n (xs.length - 1 - n) = .ok zs ∧ EndsReversed (n + 1) xs zs := by
  obtain ⟨hlength, hget⟩ := h
  have hfirst : ys[n]? = xs[n]? := by
    rw [hget n (by omega), if_neg (by omega)]
  have hsecond : ys[xs.length - 1 - n]? = xs[xs.length - 1 - n]? := by
    rw [hget _ (by omega), if_neg (by omega)]
  have hn' : n < xs.length := by omega
  have hlast : xs.length - 1 - n < xs.length := by omega
  rw [List.getElem?_eq_getElem hn'] at hfirst
  rw [List.getElem?_eq_getElem hlast] at hsecond
  refine ⟨(ys.set n xs[xs.length - 1 - n]).set (xs.length - 1 - n) xs[n],
    by rw [Dns256.swap, hfirst, hsecond],
    by rw [List.length_set, List.length_set, hlength], fun k hk => ?_⟩
  rw [List.getElem?_set, List.getElem?_set]
  by_cases hkn : n = k
  · subst hkn
    rw [if_neg (by omega), if_pos rfl, if_pos (by omega), if_pos (by omega),
      List.getElem?_eq_getElem hlast]
  · by_cases hkl : xs.length - 1 - n = k
    · subst hkl
      have hback : xs.length - 1 - (xs.length - 1 - n) = n := by omega
      rw [if_pos rfl, if_pos (by simp; omega), if_pos (by omega), hback,
        List.getElem?_eq_getElem hn']
    · have hrange : k < n + 1 ∨ xs.length - (n + 1) ≤ k ↔ k < n ∨ xs.length - n ≤ k := by omega
      rw [if_neg hkl, if_neg hkn, hget k hk]
      simp only [hrange]

theorem reverseInPlace_eq (xs : List α) : reverseInPlace xs = .ok xs.reverse := by
  have hrounds : ∀ n ≤ xs.length / 2, ∃ ys,
      (List.range n).foldlM (fun ys i => swap ys i (xs.length - 1 - i)) xs = .ok ys ∧
        EndsReversed n xs ys := by
    intro n
    induction n with
    | zero =>
        intro _
        refine ⟨xs, rfl, rfl, fun k hk => ?_⟩
        rw [if_neg (by omega)]
    | succ n ih =>
        intro hn
        obtain ⟨ys, hys, hreversed⟩ := ih (by omega)
        obtain ⟨zs, hzs, hreversed'⟩ := hreversed.swap hn
        refine ⟨zs, ?_, hreversed'⟩
        rw [List.range_succ, List.foldlM_append, hys, Go.ok_bind, List.foldlM_cons, hzs]
        rfl
  obtain ⟨ys, hys, hlength, hget⟩ := hrounds _ le_rfl
  rw [reverseInPlace, hys]
  congr 1
  -- the ends meet in the middle, where an element may be its own counterpart
  apply List.ext_getElem?
  intro k
  by_cases hk : k < xs.length
  · rw [hget k hk, List.getElem?_reverse hk]
    split
    · rfl
    · congr 1
      omega
  · have hreverse : xs.reverse.length ≤ k := by
      rw [List.length_reverse]
      omega
    rw [List.getElem?_eq_none (by omega), List.getElem?_eq_none hreverse]

end Reverse

/-! ## Parsing -/

/-- The full stop. -/
def dot : UInt8 := 46

def isElemByte (byte : UInt8) : Bool :=
  (97 ≤ byte && byte ≤ 122) || (65 ≤ byte && byte ≤ 90) || (48 ≤ byte && byte ≤ 57) ||
    byte == 45 || byte == 95

/-- The pattern `^[a-zA-Z0-9\-_]+$`, whose `$` matches at the end of the text only. -/
def validElem (elem : GoString) : Bool :=
  !elem.isEmpty && elem.all isElemByte

def joinDots (elems : List GoString) : GoString := [dot].intercalate elems

section Parse

-- the rendering of a string by the verb `%q`
variable (quote : GoString → String)

def parseDots (x : GoString) : Go Path :=
  if x = [] then
    .ok []
  else
    let parts := x.splitOn dot
    match parts.find? fun elem => !validElem elem with
    | some elem => fail (quote elem ++ " is not a valid path element")
    | none => reverseInPlace parts

/-- The `n` characters from `first` on. -/
def charRange (first n : Nat) : Bytes := (List.range n).map fun k => UInt8.ofNat (first + k)

/-- The lower and upper case letters, the digits, the underscore and the dash. -/
def elemAlphabet : Bytes :=
  charRange 97 26 ++ charRange 65 26 ++ charRange 48 10 ++ [95, 45]

def IsElem (elem : GoString) : Prop := elem ≠ [] ∧ ∀ byte ∈ elem, byte ∈ elemAlphabet

instance (elem : GoString) : Decidable (IsElem elem) := inferInstanceAs (Decidable (_ ∧ _))

/-- Empty, or one or more elements with a dot between each two. -/
def DotGrammar (x : GoString) : Prop :=
  x = [] ∨ ∃ elems : List GoString, elems ≠ [] ∧ (∀ elem ∈ elems, IsElem elem) ∧
    x = joinDots elems

theorem mem_charRange {byte : UInt8} {first n : Nat} (h : first + n ≤ 256) :
    byte ∈ charRange first n ↔ first ≤ byte.toNat ∧ byte.toNat < first + n := by
  simp only [charRange, List.mem_map, List.mem_range]
  constructor
  · rintro ⟨k, hk, rfl⟩
    rw [UInt8.toNat_ofNat']
    omega
  · intro hbyte
    refine ⟨byte.toNat - first, by omega, ?_⟩
    rw [Nat.add_sub_cancel' hbyte.1, UInt8.ofNat_toNat]

theorem isElemByte_iff (byte : UInt8) : isElemByte byte = true ↔ byte ∈ elemAlphabet := by
  have hlower : 97 + 26 ≤ 256 := by decide
  have hupper : 65 + 26 ≤ 256 := by decide
  have hdigits : 48 + 10 ≤ 256 := by decide
  simp only [elemAlphabet, List.mem_append, mem_charRange hlower, mem_charRange hupper,
    mem_charRange hdigits, List.mem_cons, List.not_mem_nil, or_false]
  simp only [isElemByte, Bool.or_eq_true, Bool.and_eq_true, decide_eq_true_eq, beq_iff_eq,
    UInt8.le_iff_toNat_le, ← UInt8.toNat_inj, UInt8.reduceToNat]
  omega

theorem validElem_iff (elem : GoString) : validElem elem = true ↔ IsElem elem := by
  rw [validElem, IsElem, Bool.and_eq_true, List.all_eq_true]
  refine and_congr ?_ (forall₂_congr fun byte _ => isElemByte_iff byte)
  cases elem <;> simp

theorem IsElem.dot_notMem {elem : GoString} (h : IsElem elem) : dot ∉ elem := by
  intro hdot
  exact absurd (h.2 dot hdot) (by decide)

theorem joinDots_ne_nil {elems : List GoString} (hne : elems ≠ [])
    (h : ∀ elem ∈ elems, IsElem elem) : joinDots elems ≠ [] := by
  obtain ⟨elem, rest, rfl⟩ := List.exists_cons_of_ne_nil hne
  have helem := (h elem List.mem_cons_self).1
  cases rest with
  | nil => simpa [joinDots, List.intercalate] using helem
  | cons next rest => simp [joinDots, List.intercalate, helem]

theorem splitOn_joinDots {elems : List GoString} (hne : elems ≠ [])
    (h : ∀ elem ∈ elems, IsElem elem) : (joinDots elems).splitOn dot = elems :=
  List.splitOn_intercalate dot (fun elem helem => (h elem helem).dot_notMem) hne

/-- What is parsed is read off the string between its dots. -/
theorem parseDots_eq_ok_iff {x : GoString} {p : Path} :
    parseDots quote x = .ok p ↔
      x = [] ∧ p = [] ∨
        x ≠ [] ∧ (∀ elem ∈ x.splitOn dot, IsElem elem) ∧ p = (x.splitOn dot).reverse := by
  by_cases hx : x = []
  · simp [parseDots, hx, eq_comm]
  · have hfind : (∀ elem ∈ x.splitOn dot, IsElem elem) ↔
        (x.splitOn dot).find? (fun elem => !validElem elem) = none := by
      simp [List.find?_eq_none, validElem_iff]
    rw [parseDots, if_neg hx, hfind]
    dsimp only
    cases hparts : (x.splitOn dot).find? fun elem => !validElem elem with
    | none => simp [hx, reverseInPlace_eq, eq_comm]
    | some elem => simp [hx, fail]

theorem returns_parseDots (x : GoString) : Returns (parseDots quote x) := by
  rw [parseDots]
  split
  · exact returns_ok _
  · dsimp only
    split
    · exact returns_fail _
    · rw [reverseInPlace_eq]
      exact returns_ok _

theorem joinDots_of_parseDots {x : GoString} {p : Path}
    (h : parseDots quote x = .ok p) : joinDots p.reverse = x := by
  rcases (parseDots_eq_ok_iff quote).1 h with ⟨rfl, rfl⟩ | ⟨_, _, rfl⟩
  · rfl
  · rw [List.reverse_reverse, joinDots, List.intercalate_splitOn]

theorem parseDots_joinDots {p : Path} (h : ∀ elem ∈ p, IsElem elem) :
    parseDots quote (joinDots p.reverse) = .ok p := by
  rw [parseDots_eq_ok_iff]
  by_cases hp : p = []
  · exact Or.inl ⟨by rw [hp]; rfl, hp⟩
  · have hne : p.reverse ≠ [] := by simpa using hp
    have hall : ∀ elem ∈ p.reverse, IsElem elem := fun elem helem =>
      h elem (List.mem_reverse.1 helem)
    refine Or.inr ⟨joinDots_ne_nil hne hall, ?_, ?_⟩
    · rwa [splitOn_joinDots hne hall]
    · rw [splitOn_joinDots hne hall, List.reverse_reverse]

/-- A name is parsed exactly when it is in the grammar, and parsing and joining
with dots are each other's inverse. -/
theorem parseDots_grammar :
    (∀ x, Returns (parseDots quote x)) ∧
      (∀ x, (∃ p, parseDots quote x = .ok p) ↔ DotGrammar x) ∧
      (∀ x p, parseDots quote x = .ok p → joinDots p.reverse = x) ∧
      ∀ p : List GoString, (∀ elem ∈ p, IsElem elem) →
        parseDots quote (joinDots p.reverse) = .ok p := by
  refine ⟨returns_parseDots quote, fun x => ⟨?_, ?_⟩, fun x p => joinDots_of_parseDots quote,
    fun p => parseDots_joinDots quote⟩
  · rintro ⟨p, hp⟩
    have hjoin := joinDots_of_parseDots quote hp
    rcases (parseDots_eq_ok_iff quote).1 hp with ⟨hx, _⟩ | ⟨hx, hall, rfl⟩
    · exact Or.inl hx
    · rw [List.reverse_reverse] at hjoin
      refine Or.inr ⟨x.splitOn dot, ?_, hall, hjoin.symm⟩
      -- an empty list of elements would be joined to the empty string
      intro hnil
      rw [hnil] at hjoin
      exact hx hjoin.symm
  · rintro (rfl | ⟨elems, _, hall, rfl⟩)
    · exact ⟨[], rfl⟩
    · refine ⟨elems.reverse, ?_⟩
      have h := parseDots_joinDots quote (p := elems.reverse) fun elem helem =>
        hall elem (List.mem_reverse.1 helem)
      rwa [List.reverse_reverse] at h

end Parse

/-! ## Suffixes -/

section Suffix

variable {E : Type} [DecidableEq E]

/-- The loop counts upwards from the last index of `s`. -/
def hasSuffixFrom (x s : List E) (i : Nat) : Go Bool :=
  if hx : x.length ≤ i then
    .ok false
  else
    match s[i]? with
    | none => crash "index out of range"
    | some elem =>
        if elem ≠ x.get ⟨i, not_le.1 hx⟩ then .ok false else hasSuffixFrom x s (i + 1)
termination_by x.length - i
decreasing_by exact Nat.sub_lt_sub_left (not_le.1 hx) i.lt_succ_self

def hasSuffix (x s : List E) : Go Bool :=
  -- with `s` empty the index starts below zero and no round is made
  if s.length = 0 then .ok true else hasSuffixFrom x s (s.length - 1)

def DecidesSuffix (x s : List E) : Prop :=
  ∃ answer, hasSuffix x s = .ok answer ∧ (answer = true ↔ ∃ y, x = y ++ s)

/-- One round past the end of `s`. -/
theorem hasSuffixFrom_length (x s : List E) :
    hasSuffixFrom x s s.length =
      if x.length ≤ s.length then .ok false else crash "index out of range" := by
  rw [hasSuffixFrom]
  split
  · rfl
  · rw [List.getElem?_eq_none le_rfl]

theorem hasSuffix_nil (x : List E) : hasSuffix x [] = .ok true := rfl

theorem hasSuffix_append_singleton (x s : List E) (last : E) :
    hasSuffix x (s ++ [last]) =
      if x[s.length]? = some last ∧ s.length + 1 < x.length then crash "index out of range"
      else .ok false := by
  have hlength : (s ++ [last]).length = s.length + 1 := by simp
  rw [hasSuffix, if_neg (by omega), hlength, Nat.add_sub_cancel, hasSuffixFrom]
  by_cases hx : x.length ≤ s.length
  · rw [dif_pos hx, if_neg (by omega)]
  · rw [dif_neg hx, List.getElem?_append_right le_rfl, Nat.sub_self]
    simp only [List.getElem?_cons_zero, List.getElem?_eq_getElem (not_le.1 hx), Option.some_inj,
      List.get_eq_getElem]
    by_cases hlast : last = x[s.length]
    · rw [if_neg (not_not.2 hlast), ← hlength, hasSuffixFrom_length]
      by_cases hle : x.length ≤ (s ++ [last]).length
      · rw [if_pos hle, if_neg (by omega)]
      · rw [if_neg hle, if_pos ⟨hlast.symm, by omega⟩]
    · rw [if_pos hlast, if_neg fun h => hlast h.1.symm]

/-- Only suffixes that are empty are found; others are missed, and the elements
at the index of the last element of `s` must differ or end `x`. -/
theorem hasSuffix_decides_iff (x s : List E) :
    DecidesSuffix x s ↔
      s = [] ∨ ¬ s <:+ x ∧ ¬ (x[s.length - 1]? = s.getLast? ∧ s.length < x.length) := by
  rcases List.eq_nil_or_concat s with rfl | ⟨init, last, rfl⟩
  · simp [DecidesSuffix, hasSuffix_nil]
  · rw [List.concat_eq_append, DecidesSuffix, hasSuffix_append_singleton]
    have hsuffix : (∃ y, x = y ++ (init ++ [last])) ↔ init ++ [last] <:+ x :=
      exists_congr fun y => eq_comm
    rw [hsuffix]
    by_cases hcrash : x[init.length]? = some last ∧ init.length + 1 < x.length
    · simp [hcrash, crash]
    · simp [hcrash]

/-- A slice is a suffix of itself. -/
theorem hasSuffix_misses_itself :
    hasSuffix [7] [7] = .ok false ∧ hasSuffix [7, 8] [7] = crash "index out of range" ∧
      ¬ DecidesSuffix [7] [7] ∧ ¬ DecidesSuffix [7, 8] [7] := by
  refine ⟨hasSuffix_append_singleton [7] [] 7, hasSuffix_append_singleton [7, 8] [] 7, ?_, ?_⟩
  · rintro ⟨answer, hanswer, hiff⟩
    have hfalse : hasSuffix [7] [7] = .ok false := hasSuffix_append_singleton [7] [] 7
    rw [hfalse] at hanswer
    cases hanswer
    exact absurd (hiff.2 ⟨[], rfl⟩) (by decide)
  · rintro ⟨answer, hanswer, _⟩
    have hcrash : hasSuffix [7, 8] [7] = crash "index out of range" :=
      hasSuffix_append_singleton [7, 8] [] 7
    rw [hcrash] at hanswer
    cases hanswer

end Suffix

end Inet256.Dns256
