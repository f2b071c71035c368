import Inet256.Foundation.Base64
import Mathlib.Data.Nat.Digits.Defs
import Mathlib.Tactic.Ring

/-!
# The order of base64 texts

The digits of a text are a numeral for the number that the bytes are a numeral
for, with zeros behind it where the last group is not full.  In an alphabet
whose letters increase, texts of data of one length are ordered as the data.
-/

namespace Inet256.Foundation

/-! ## Numerals and their order -/

/-- Lexicographic order under a map that keeps the order of the elements. -/
theorem map_lt_map_iff {α β : Type*} [LT α] [LT β] {f : α → β} {xs ys : List α}
    (hlt : ∀ x ∈ xs, ∀ y ∈ ys, f x < f y ↔ x < y)
    (heq : ∀ x ∈ xs, ∀ y ∈ ys, f x = f y ↔ x = y) : xs.map f < ys.map f ↔ xs < ys := by
  induction xs generalizing ys with
  | nil => cases ys <;> simp
  | cons x xs ih =>
      cases ys with
      | nil => simp
      | cons y ys =>
          have hrest : xs.map f < ys.map f ↔ xs < ys := by
            apply ih
            · intro x hx y hy
              exact hlt x (List.mem_cons_of_mem _ hx) y (List.mem_cons_of_mem _ hy)
            · intro x hx y hy
              exact heq x (List.mem_cons_of_mem _ hx) y (List.mem_cons_of_mem _ hy)
          rw [List.map_cons, List.map_cons, List.cons_lt_cons_iff, List.cons_lt_cons_iff,
            hlt x (by simp) y (by simp), heq x (by simp) y (by simp), hrest]

/-- The number of a list of digits, the first one the most significant. -/
def numeral (base : Nat) (digits : List Nat) : Nat := Nat.ofDigits base digits.reverse

@[simp] theorem numeral_nil (base : Nat) : numeral base [] = 0 := rfl

@[simp] theorem numeral_cons (base digit : Nat) (digits : List Nat) :
    numeral base (digit :: digits) = base ^ digits.length * digit + numeral base digits := by
  rw [numeral, List.reverse_cons, Nat.ofDigits_append, List.length_reverse, Nat.ofDigits_singleton,
    Nat.add_comm, numeral]

theorem numeral_lt {base : Nat} (hbase : 1 < base) {digits : List Nat}
    (h : ∀ digit ∈ digits, digit < base) : numeral base digits < base ^ digits.length := by
  rw [← List.length_reverse]
  exact Nat.ofDigits_lt_base_pow_length hbase fun digit hdigit => h digit (by simpa using hdigit)

/-- The first digit decides, unless it is the same. -/
theorem mul_add_lt_mul_add_iff {scale x y v w : Nat} (hv : v < scale) (hw : w < scale) :
    scale * x + v < scale * y + w ↔ x < y ∨ x = y ∧ v < w := by
  rcases Nat.lt_trichotomy x y with hlt | rfl | hgt
  · have hle : scale * (x + 1) ≤ scale * y := Nat.mul_le_mul_left scale hlt
    rw [Nat.mul_succ] at hle
    exact iff_of_true (by omega) (Or.inl hlt)
  · simp
  · have hle : scale * (y + 1) ≤ scale * x := Nat.mul_le_mul_left scale hgt
    rw [Nat.mul_succ] at hle
    exact iff_of_false (by omega) (by omega)

theorem numeral_lt_numeral_iff {base : Nat} (hbase : 1 < base) {xs ys : List Nat}
    (hlength : xs.length = ys.length) (hx : ∀ digit ∈ xs, digit < base)
    (hy : ∀ digit ∈ ys, digit < base) : numeral base xs < numeral base ys ↔ xs < ys := by
  induction xs generalizing ys with
  | nil =>
      obtain rfl : ys = [] := List.eq_nil_of_length_eq_zero hlength.symm
      simp
  | cons x xs ih =>
      cases ys with
      | nil => simp at hlength
      | cons y ys =>
          obtain ⟨-, hxs⟩ := List.forall_mem_cons.mp hx
          obtain ⟨-, hys⟩ := List.forall_mem_cons.mp hy
          have hsame : xs.length = ys.length := Nat.succ.inj hlength
          have hxs' := numeral_lt hbase hxs
          have hys' := numeral_lt hbase hys
          rw [hsame] at hxs'
          rw [numeral_cons, numeral_cons, hsame, mul_add_lt_mul_add_iff hxs' hys',
            List.cons_lt_cons_iff, ih hsame hxs hys]

end Inet256.Foundation

namespace Inet256.Foundation.Base64

/-! ## Texts and their order -/

/-- The bits of the last digit that stand for nothing, in pairs. -/
def unused (data : Bytes) : Nat := (3 - data.length % 3) % 3

theorem pow_length_digits (data : Bytes) :
    64 ^ (digits data).length = 256 ^ data.length * 4 ^ unused data := by
  have hdigits : 64 ^ (digits data).length = 2 ^ (6 * (digits data).length) := by
    rw [Nat.pow_mul]
  have hbytes : 256 ^ data.length = 2 ^ (8 * data.length) := by
    rw [Nat.pow_mul]
  have hunused : 4 ^ unused data = 2 ^ (2 * unused data) := by
    rw [Nat.pow_mul]
  rw [hdigits, hbytes, hunused, ← Nat.pow_add, length_digits, unused]
  congr 1
  omega

/-- Three bytes and their four digits are the same number. -/
theorem regroup (a b c : UInt8) :
    64 ^ 3 * (a.toNat / 4) + 64 ^ 2 * (a.toNat % 4 * 16 + b.toNat / 16) +
        64 * (b.toNat % 16 * 4 + c.toNat / 64) + c.toNat % 64 =
      256 ^ 2 * a.toNat + 256 * b.toNat + c.toNat := by
  omega

theorem numeral_digits (data : Bytes) :
    numeral 64 (digits data) = numeral 256 (data.map UInt8.toNat) * 4 ^ unused data := by
  induction data using digits.induct with
  | case1 a b c rest ih =>
      have hunused : unused (a :: b :: c :: rest) = unused rest := by
        simp only [unused, List.length_cons]
        omega
      have hscale := pow_length_digits rest
      have hregroup := regroup a b c
      simp only [digits, List.map_cons, numeral_cons, List.length_cons, List.length_map, hunused,
        ih, Nat.pow_succ, hscale]
      calc
        _ = 256 ^ rest.length * 4 ^ unused rest *
              (64 ^ 3 * (a.toNat / 4) + 64 ^ 2 * (a.toNat % 4 * 16 + b.toNat / 16) +
                64 * (b.toNat % 16 * 4 + c.toNat / 64) + c.toNat % 64) +
            numeral 256 (rest.map UInt8.toNat) * 4 ^ unused rest := by ring
        _ = _ := by
          rw [hregroup]
          ring
  | case2 a b =>
      simp [digits, unused]
      omega
  | case3 a =>
      simp [digits, unused]
      omega
  | case4 => rfl

theorem digits_lt_digits_iff {data data' : Bytes} (h : data.length = data'.length) :
    digits data < digits data' ↔ data < data' := by
  have hlength : (digits data).length = (digits data').length := by
    rw [length_digits, length_digits, h]
  have hunused : unused data = unused data' := by rw [unused, unused, h]
  have hbytes : ∀ (data : Bytes), ∀ byte ∈ data.map UInt8.toNat, byte < 256 := by
    intro data byte hbyte
    obtain ⟨letter, -, rfl⟩ := List.mem_map.mp hbyte
    exact letter.toNat_lt
  rw [← numeral_lt_numeral_iff (by decide) hlength (digits_lt data) (digits_lt data'),
    numeral_digits, numeral_digits, hunused,
    Nat.mul_lt_mul_right (Nat.pow_pos (show 0 < 4 by decide)),
    numeral_lt_numeral_iff (by decide) (by simpa using h) (hbytes data) (hbytes data')]
  exact map_lt_map_iff (fun x _ y _ => UInt8.lt_iff_toNat_lt.symm)
    fun x _ y _ => UInt8.toNat_inj

/-- The letters of the alphabet are in increasing order. -/
def Alphabet.Increasing (alphabet : Alphabet) : Prop := alphabet.letters.Pairwise (· < ·)

theorem Alphabet.Increasing.letter_lt_iff {alphabet : Alphabet} (h : alphabet.Increasing)
    {i j : Nat} (hi : i < 64) (hj : j < 64) :
    alphabet.letter i < alphabet.letter j ↔ i < j := by
  have hletter : ∀ {k : Nat} (hk : k < alphabet.letters.length),
      alphabet.letter k = alphabet.letters[k] := by
    intro k hk
    rw [Alphabet.letter, List.getElem?_eq_getElem hk, Option.getD_some]
  have hbelow : ∀ {i j : Nat}, i < j → j < 64 → alphabet.letter i < alphabet.letter j := by
    intro i j hij hj
    have hlength := alphabet.length_eq
    rw [hletter (by omega), hletter (by omega)]
    exact List.pairwise_iff_getElem.mp h i j (by omega) (by omega) hij
  constructor
  · intro hlt
    by_contra hle
    rcases Nat.lt_or_eq_of_le (Nat.not_lt.mp hle) with hgt | rfl
    · exact UInt8.lt_asymm hlt (hbelow hgt hi)
    · exact UInt8.lt_irrefl _ hlt
  · intro hij
    exact hbelow hij hj

theorem letter_inj {alphabet : Alphabet} {i j : Nat} (hi : i < 64) (hj : j < 64) :
    alphabet.letter i = alphabet.letter j ↔ i = j := by
  constructor
  · intro h
    have hdigit := congrArg alphabet.digit h
    rw [digit_letter alphabet hi, digit_letter alphabet hj, Option.some.injEq] at hdigit
    exact hdigit
  · exact congrArg alphabet.letter

/-- Texts are ordered as the data. -/
theorem encode_lt_encode_iff {alphabet : Alphabet} (hincreasing : alphabet.Increasing)
    {data data' : Bytes} (h : data.length = data'.length) :
    encode alphabet data < encode alphabet data' ↔ data < data' := by
  rw [← digits_lt_digits_iff h]
  apply map_lt_map_iff
  · intro i hi j hj
    exact hincreasing.letter_lt_iff (digits_lt data i hi) (digits_lt data' j hj)
  · intro i hi j hj
    exact letter_inj (digits_lt data i hi) (digits_lt data' j hj)

end Inet256.Foundation.Base64
