import Inet256.Foundation.Bytes
import Mathlib.Data.List.Basic

/-!
# Bits packed in words

A bit order says where a word keeps its bits.  Under one order a list of words
is a sequence of bits, word after word; changing one bit changes no other, so
a loop that sets bits one at a time leaves exactly the bits it was given.
-/

namespace Inet256.Foundation

structure BitOrder (ω : Type) where
  width : Nat
  width_pos : 0 < width
  blank : ω
  test : ω → Nat → Bool
  put : Nat → Bool → ω → ω
  test_blank : ∀ i < width, test blank i = false
  test_put : ∀ (word : ω) (bit : Bool) {i j : Nat}, i < width → j < width →
    test (put i bit word) j = if j = i then bit else test word j

namespace BitOrder

variable {ω : Type} (o : BitOrder ω)

def get (words : List ω) (i : Nat) : Bool :=
  o.test (words.getD (i / o.width) o.blank) (i % o.width)

/-- The first `len` bits. -/
def bits (words : List ω) (len : Nat) : List Bool :=
  (List.range len).map (o.get words)

@[simp] theorem length_bits (words : List ω) (len : Nat) : (o.bits words len).length = len := by
  simp [bits]

@[simp] theorem getElem_bits (words : List ω) {len i : Nat} (h : i < (o.bits words len).length) :
    (o.bits words len)[i] = o.get words i := by
  simp [bits]

theorem bits_ext {words : List ω} {len : Nat} {found : List Bool} (hlength : found.length = len)
    (h : ∀ i (hi : i < found.length), o.get words i = found[i]) : o.bits words len = found := by
  apply List.ext_getElem
  · simp [hlength]
  · intro i _ hi
    simpa using h i hi

theorem take_bits (words : List ω) {n len : Nat} (h : n ≤ len) :
    (o.bits words len).take n = o.bits words n := by
  simp [bits, ← List.map_take, List.take_range, h]

/-- The bits of one word in front of those of the others. -/
theorem bits_cons (word : ω) (words : List ω) (len : Nat) :
    o.bits (word :: words) (o.width + len) =
      (List.range o.width).map (o.test word) ++ o.bits words len := by
  have hpos := o.width_pos
  unfold bits
  rw [List.range_add, List.map_append, List.map_map]
  congr 1
  · apply List.map_congr_left
    intro i hi
    have hi := List.mem_range.mp hi
    simp [get, Nat.div_eq_of_lt hi, Nat.mod_eq_of_lt hi]
  · apply List.map_congr_left
    intro i _
    simp [get, Nat.add_div_left i hpos]

theorem bits_append_left {words : List ω} {len : Nat} (h : len ≤ words.length * o.width)
    (more : List ω) : o.bits (words ++ more) len = o.bits words len := by
  apply List.map_congr_left
  intro i hi
  have hi := List.mem_range.mp hi
  have hword : i / o.width < words.length :=
    (Nat.div_lt_iff_lt_mul o.width_pos).mpr (by omega)
  rw [get, get, List.getD_eq_getElem?_getD, List.getD_eq_getElem?_getD,
    List.getElem?_append_left hword]

/-- Words are determined by their bits if each of them is. -/
theorem words_ext
    (hword : ∀ word word', (∀ i < o.width, o.test word i = o.test word' i) → word = word')
    {xs ys : List ω} (hlength : xs.length = ys.length)
    (h : ∀ i < xs.length * o.width, o.get xs i = o.get ys i) : xs = ys := by
  apply List.ext_getElem hlength
  intro k hx hy
  apply hword
  intro i hi
  have hlt : k * o.width + i < xs.length * o.width :=
    calc
      k * o.width + i < (k + 1) * o.width := by
        rw [Nat.succ_mul]
        omega
      _ ≤ xs.length * o.width := Nat.mul_le_mul_right _ hx
  have hbit := h (k * o.width + i) hlt
  have hdiv : (k * o.width + i) / o.width = k := by
    rw [Nat.mul_comm, Nat.mul_add_div o.width_pos, Nat.div_eq_of_lt hi, Nat.add_zero]
  have hmod : (k * o.width + i) % o.width = i := by
    rw [Nat.mul_comm, Nat.mul_add_mod, Nat.mod_eq_of_lt hi]
  simpa [get, hdiv, hmod, hx, hy] using hbit

theorem get_replicate (n i : Nat) : o.get (List.replicate n o.blank) i = false := by
  have hblank := o.test_blank (i % o.width) (Nat.mod_lt i o.width_pos)
  unfold get
  by_cases h : i / o.width < n
  · simp [h, hblank]
  · simp [h, hblank]

theorem get_append_blank (words : List ω) (i : Nat) :
    o.get (words ++ [o.blank]) i = o.get words i := by
  unfold get
  rw [List.getD_eq_getElem?_getD, List.getD_eq_getElem?_getD, List.getElem?_append]
  split
  · rfl
  · next h =>
      rw [List.getElem?_eq_none (Nat.le_of_not_lt h)]
      cases i / o.width - words.length <;> rfl

theorem get_modify {words : List ω} {i : Nat} (h : i < words.length * o.width) (bit : Bool)
    (j : Nat) :
    o.get (words.modify (i / o.width) (o.put (i % o.width) bit)) j =
      if j = i then bit else o.get words j := by
  have hword : i / o.width < words.length := Nat.div_lt_of_lt_mul (by rwa [Nat.mul_comm])
  have hi := Nat.mod_lt i o.width_pos
  have hj := Nat.mod_lt j o.width_pos
  unfold get
  rw [List.getD_eq_getElem?_getD, List.getD_eq_getElem?_getD]
  by_cases hsame : i / o.width = j / o.width
  · rw [← hsame, List.getElem?_modify_eq, List.getElem?_eq_getElem hword]
    change o.test (o.put (i % o.width) bit words[i / o.width]) (j % o.width) = _
    rw [o.test_put _ _ hi hj]
    by_cases hij : j = i
    · rw [hij, if_pos rfl, if_pos rfl]
    · have hne : j % o.width ≠ i % o.width := by
        intro hmod
        have hdivI := Nat.div_add_mod i o.width
        have hdivJ := Nat.div_add_mod j o.width
        rw [hsame, ← hmod] at hdivI
        omega
      rw [if_neg hne, if_neg hij]
      rfl
  · have hij : j ≠ i := by
      rintro rfl
      exact hsame rfl
    rw [List.getElem?_modify_ne _ _ hsame, if_neg hij]

/-- Setting the bits of a sequence in a blank list of words, one after the other. -/
theorem get_setAll (len room : Nat) (bitAt : Nat → Bool) (hroom : len ≤ room * o.width) (j : Nat) :
    o.get ((List.range len).foldl (fun words i =>
        if bitAt i then words.modify (i / o.width) (o.put (i % o.width) true) else words)
      (List.replicate room o.blank)) j = (decide (j < len) && bitAt j) := by
  -- the words keep their number, and below the index reached they hold the sequence
  suffices h : ∀ n ≤ len, ∃ words : List ω, words.length = room ∧
      (List.range n).foldl (fun words i =>
        if bitAt i then words.modify (i / o.width) (o.put (i % o.width) true) else words)
        (List.replicate room o.blank) = words ∧
      ∀ j, o.get words j = (decide (j < n) && bitAt j) by
    obtain ⟨words, -, hwords, hget⟩ := h len le_rfl
    rw [hwords, hget]
  intro n
  induction n with
  | zero =>
      intro _
      refine ⟨List.replicate room o.blank, List.length_replicate, rfl, fun j => ?_⟩
      rw [o.get_replicate]
      simp
  | succ n ih =>
      intro hn
      obtain ⟨words, hlength, hwords, hget⟩ := ih (by omega)
      rw [List.range_succ, List.foldl_append, hwords, List.foldl_cons, List.foldl_nil]
      by_cases hbit : bitAt n
      · rw [if_pos hbit]
        refine ⟨_, by rw [List.length_modify, hlength], rfl, fun j => ?_⟩
        rw [o.get_modify (by rw [hlength]; omega), hget]
        by_cases hj : j = n
        · simp [hj, hbit]
        · have hlt : j < n + 1 ↔ j < n := by omega
          simp [hj, hlt]
      · rw [if_neg hbit]
        refine ⟨words, hlength, rfl, fun j => ?_⟩
        rw [hget]
        by_cases hj : j = n
        · simp [hj, hbit]
        · have hlt : j < n + 1 ↔ j < n := by omega
          simp [hlt]

end BitOrder

theorem length_foldl_modify {α : Type} (chosen : Nat → Bool) (index : Nat → Nat)
    (change : Nat → α → α) (rounds : List Nat) (words : List α) :
    (rounds.foldl (fun words i =>
      if chosen i then words.modify (index i) (change i) else words) words).length =
      words.length := by
  induction rounds generalizing words with
  | nil => rfl
  | cons i rounds ih =>
      rw [List.foldl_cons, ih]
      split
      · exact List.length_modify ..
      · rfl

/-! ## Leading zeros -/

def leadingZeros : List Bool → Nat
  | [] => 0
  | true :: _ => 0
  | false :: bits => leadingZeros bits + 1

theorem leadingZeros_le_length (bits : List Bool) : leadingZeros bits ≤ bits.length := by
  induction bits with
  | nil => simp [leadingZeros]
  | cons bit bits ih => cases bit <;> simp [leadingZeros, ih]

@[simp] theorem leadingZeros_replicate (n : Nat) (bits : List Bool) :
    leadingZeros (List.replicate n false ++ bits) = n + leadingZeros bits := by
  induction n with
  | zero => simp
  | succ n ih =>
      simp [List.replicate_succ, leadingZeros, ih]
      omega

theorem eq_of_leadingZeros_lt {bits : List Bool} (h : leadingZeros bits < bits.length) :
    bits = List.replicate (leadingZeros bits) false ++
      true :: bits.drop (leadingZeros bits + 1) := by
  induction bits with
  | nil => simp [leadingZeros] at h
  | cons bit bits ih =>
      cases bit with
      | true => simp [leadingZeros]
      | false =>
          simp only [leadingZeros, List.length_cons, Nat.add_lt_add_iff_right] at h
          simp only [leadingZeros, List.replicate_succ, List.cons_append, List.drop_succ_cons]
          exact congrArg (false :: ·) (ih h)

/-- Two sequences agree as far as their difference has leading zeros. -/
theorem leadingZeros_le_of_getElem? {bits : List Bool} {i : Nat} (h : bits[i]? = some true) :
    leadingZeros bits ≤ i := by
  induction bits generalizing i with
  | nil => simp at h
  | cons bit bits ih =>
      cases bit with
      | true => simp [leadingZeros]
      | false =>
          cases i with
          | zero => simp at h
          | succ i =>
              rw [leadingZeros]
              exact Nat.succ_le_succ (ih (by simpa using h))

theorem le_leadingZeros_zipWith {n : Nat} {xs ys : List Bool} (hx : n ≤ xs.length)
    (hy : n ≤ ys.length) :
    n ≤ leadingZeros (List.zipWith (· != ·) xs ys) ↔ xs.take n = ys.take n := by
  induction n generalizing xs ys with
  | zero => simp
  | succ n ih =>
      cases xs with
      | nil => simp at hx
      | cons x xs =>
          cases ys with
          | nil => simp at hy
          | cons y ys =>
              simp only [List.length_cons, Nat.add_le_add_iff_right] at hx hy
              have hrest := ih hx hy
              cases x <;> cases y <;> simp [leadingZeros, hrest]

theorem leadingZeros_append (xs ys : List Bool) :
    leadingZeros (xs ++ ys) =
      if leadingZeros xs < xs.length then leadingZeros xs else xs.length + leadingZeros ys := by
  induction xs with
  | nil => simp
  | cons x xs ih =>
      cases x with
      | true => simp [leadingZeros]
      | false =>
          simp only [List.cons_append, leadingZeros, ih, List.length_cons,
            Nat.add_lt_add_iff_right]
          split <;> omega

/-! ## Words of a machine -/

theorem zero_lt_and_twoPow {w : Nat} (x : BitVec w) {i : Nat} (h : i < w) :
    0#w < x &&& BitVec.twoPow w i ↔ x.getLsbD i = true := by
  rw [BitVec.and_twoPow]
  by_cases hbit : x.getLsbD i
  · have hpos : (0#w).toNat < 2 ^ i := Nat.two_pow_pos i
    rw [if_pos hbit, BitVec.lt_def, BitVec.toNat_twoPow_of_lt h]
    exact iff_of_true hpos hbit
  · rw [if_neg hbit]
    simp [hbit]

/-- The order of a machine word whose bit `i` is read and written through a mask. -/
def BitOrder.ofMask {ω : Type} {w : Nat} (hw : 0 < w) (view : ω → BitVec w) (blank : ω)
    (hblank : view blank = 0#w) (position : Nat → Nat)
    (position_lt : ∀ i < w, position i < w)
    (position_inj : ∀ i < w, ∀ j < w, position i = position j → i = j)
    (test : ω → Nat → Bool) (put : Nat → Bool → ω → ω)
    (htest : ∀ word, ∀ i < w, test word i = true ↔
      0#w < view word &&& BitVec.twoPow w (position i))
    (hput : ∀ word bit, ∀ i < w, view (put i bit word) =
      if bit then view word ||| BitVec.twoPow w (position i)
      else view word &&& ~~~BitVec.twoPow w (position i)) : BitOrder ω where
  width := w
  width_pos := hw
  blank := blank
  test := test
  put := put
  test_blank := by
    intro i hi
    rw [Bool.eq_false_iff, Ne, htest blank i hi, zero_lt_and_twoPow _ (position_lt i hi), hblank]
    simp
  test_put := by
    intro word bit i j hi hj
    have hread : ∀ word, test word j = (view word).getLsbD (position j) := by
      intro word
      rw [Bool.eq_iff_iff, htest word j hj, zero_lt_and_twoPow _ (position_lt j hj)]
    have hsame : position i = position j ↔ j = i :=
      ⟨fun h => (position_inj i hi j hj h).symm, fun h => by rw [h]⟩
    rw [hread, hread, hput word bit i hi]
    have hbound := position_lt j hj
    cases bit with
    | true =>
        rw [if_pos rfl, BitVec.getLsbD_or, BitVec.getLsbD_twoPow]
        by_cases hij : j = i
        · simp [hij, position_lt i hi]
        · simp [hsame, hij]
    | false =>
        rw [if_neg Bool.false_ne_true, BitVec.getLsbD_and, BitVec.getLsbD_not,
          BitVec.getLsbD_twoPow]
        by_cases hij : j = i
        · simp [hij, position_lt i hi]
        · simp [hsame, hij, hbound]

end Inet256.Foundation
