import Inet256.Foundation.Base64
import Inet256.Internal.Bitstr
import Inet256.Pki.Codec

/-!
# Prefixes and the text of addresses

Addresses are looked for by their first bits.  The test goes through the bytes
of both sides and counts the leading zeros of their difference.  They are
printed in base64, in an alphabet that is safe in paths.
-/

namespace Inet256.Addr

open Inet256.Foundation
open Inet256.Bitstr

/-- `bits.LeadingZeros8`. -/
def leadingZeros8 (x : UInt8) : Nat := leadingZeros (msbOrder.bits [x] 8)

def hasPrefix (x pre : Bytes) (nbits : Int) : Bool := loop x pre 0
where
  loop : Bytes → Bytes → Nat → Bool
  | _, [], _ => false
  | [], _ :: _, _ => false
  | x :: xs, p :: ps, total =>
      let lz := leadingZeros8 (x ^^^ p)
      let total := total + lz
      if nbits ≤ total then true
      else if lz < 8 then false
      else loop xs ps total

/-! ## What the prefix test decides -/

theorem bits_xor (x p : UInt8) :
    msbOrder.bits [x ^^^ p] 8 =
      List.zipWith (· != ·) (msbOrder.bits [x] 8) (msbOrder.bits [p] 8) := by
  have hget : ∀ (byte : UInt8) {i : Nat}, i < 8 →
      msbOrder.get [byte] i = byte.toBitVec.getLsbD (7 - i % 8) := by
    intro byte i hi
    rw [← msbOrder_test]
    change msbOrder.test ([byte].getD (i / 8) 0) (i % 8) = _
    simp [Nat.div_eq_of_lt hi, Nat.mod_eq_of_lt hi]
  apply msbOrder.bits_ext
  · simp
  · intro i hi
    have hi : i < 8 := by simpa using hi
    simp [hget _ hi]

theorem loop_iff {nbits : Int} (xs ps : Bytes) {total : Nat} (h : total < nbits) :
    hasPrefix.loop nbits xs ps total = true ↔
      nbits ≤ total + leadingZeros (List.zipWith (· != ·)
        (msbOrder.bits xs (xs.length * 8)) (msbOrder.bits ps (ps.length * 8))) := by
  have hsplit : ∀ (x : UInt8) (xs : Bytes), msbOrder.bits (x :: xs) ((x :: xs).length * 8) =
      msbOrder.bits [x] 8 ++ msbOrder.bits xs (xs.length * 8) := by
    intro x xs
    have hone : msbOrder.bits [x] 8 = (List.range 8).map (msbOrder.test x) ++ [] :=
      msbOrder.bits_cons x [] 0
    have hlength : (x :: xs).length * 8 = msbOrder.width + xs.length * 8 := by
      change (xs.length + 1) * 8 = 8 + xs.length * 8
      omega
    rw [hlength, BitOrder.bits_cons, hone, List.append_nil]
    rfl
  induction xs generalizing ps total with
  | nil =>
      cases ps with
      | nil => simp [hasPrefix.loop, leadingZeros, BitOrder.bits, h]
      | cons p ps => simp [hasPrefix.loop, leadingZeros, BitOrder.bits, h]
  | cons x xs ih =>
      cases ps with
      | nil => simp [hasPrefix.loop, leadingZeros, BitOrder.bits, h]
      | cons p ps =>
          have hlz : leadingZeros (msbOrder.bits [x ^^^ p] 8) = leadingZeros8 (x ^^^ p) := rfl
          have hle := leadingZeros_le_length (msbOrder.bits [x ^^^ p] 8)
          rw [hsplit, hsplit, List.zipWith_append (by simp), ← bits_xor, leadingZeros_append]
          rw [hlz] at hle ⊢
          simp only [BitOrder.length_bits] at hle ⊢
          rw [hasPrefix.loop]
          by_cases henough : nbits ≤ ((total + leadingZeros8 (x ^^^ p) : Nat) : Int)
          · rw [if_pos henough]
            split <;> simp <;> omega
          · rw [if_neg henough]
            by_cases hless : leadingZeros8 (x ^^^ p) < 8
            · rw [if_pos hless, if_pos hless]
              simp
              omega
            · have hmore : ((total + leadingZeros8 (x ^^^ p) : Nat) : Int) < nbits := by omega
              rw [if_neg hless, if_neg hless]
              refine (ih ps hmore).trans ?_
              push_cast
              omega

/-- The test compares the first bits, if there are as many on both sides. -/
theorem hasPrefix_iff {x pre : Bytes} {n : Nat} (hpos : 0 < n) (hx : n ≤ x.length * 8)
    (hpre : n ≤ pre.length * 8) :
    hasPrefix x pre n = true ↔ msbOrder.bits x n = msbOrder.bits pre n := by
  rw [hasPrefix, loop_iff x pre (by simpa using hpos)]
  have hcount : (n : Int) ≤ ((0 : Nat) : Int) + leadingZeros (List.zipWith (· != ·)
      (msbOrder.bits x (x.length * 8)) (msbOrder.bits pre (pre.length * 8))) ↔
      n ≤ leadingZeros (List.zipWith (· != ·)
        (msbOrder.bits x (x.length * 8)) (msbOrder.bits pre (pre.length * 8))) := by
    omega
  rw [hcount, le_leadingZeros_zipWith (by simpa using hx) (by simpa using hpre),
    msbOrder.take_bits x hx, msbOrder.take_bits pre hpre]

/-- Bits that one of the sides does not have are never found. -/
theorem le_of_hasPrefix {x pre : Bytes} {n : Nat} (hpos : 0 < n)
    (h : hasPrefix x pre n = true) : n ≤ x.length * 8 ∧ n ≤ pre.length * 8 := by
  rw [hasPrefix, loop_iff x pre (by simpa using hpos)] at h
  have hle := leadingZeros_le_length (List.zipWith (· != ·)
    (msbOrder.bits x (x.length * 8)) (msbOrder.bits pre (pre.length * 8)))
  rw [List.length_zipWith, BitOrder.length_bits, BitOrder.length_bits] at hle
  omega

/-- The same for any number of bits of the prefix: an address has no more than its own. -/
theorem hasPrefix_iff_prefix {x pre : Bytes} {n : Nat} (hpos : 0 < n)
    (hpre : n ≤ pre.length * 8) :
    hasPrefix x pre n = true ↔ msbOrder.bits pre n <+: msbOrder.bits x (x.length * 8) := by
  by_cases hx : n ≤ x.length * 8
  · rw [hasPrefix_iff hpos hx hpre, List.prefix_iff_eq_take, BitOrder.length_bits,
      msbOrder.take_bits x hx]
    exact eq_comm
  · have hshort : ¬ msbOrder.bits pre n <+: msbOrder.bits x (x.length * 8) := by
      intro h
      have hlength := h.length_le
      simp only [BitOrder.length_bits] at hlength
      omega
    exact iff_of_false (fun h => hx (le_of_hasPrefix hpos h).1) hshort

/-- The test for any number of bits: both sides have them, and they are the same. -/
theorem hasPrefix_decides (x pre : Bytes) {nbits : Int} (h : 1 ≤ nbits) :
    hasPrefix x pre nbits = true ↔
      nbits ≤ 8 * min x.length pre.length ∧
        msbOrder.bits x nbits.toNat = msbOrder.bits pre nbits.toNat := by
  obtain ⟨n, rfl⟩ := Int.eq_ofNat_of_zero_le (show 0 ≤ nbits by omega)
  have hpos : 0 < n := by omega
  rw [Int.toNat_natCast]
  constructor
  · intro hfound
    obtain ⟨hx, hpre⟩ := le_of_hasPrefix hpos hfound
    exact ⟨by omega, (hasPrefix_iff hpos hx hpre).mp hfound⟩
  · rintro ⟨hle, hsame⟩
    exact (hasPrefix_iff hpos (by omega) (by omega)).mpr hsame

/-- Eleven bits, the last three of them in the second byte. -/
theorem hasPrefix_decides_eleven :
    hasPrefix [171, 205, 239] [171, 192] 11 = true ∧
      hasPrefix [171, 205, 239] [171, 192] 13 = false := by
  have hbits : msbOrder.bits [171, 205, 239] 11 = msbOrder.bits [171, 192] 11 := by decide
  have hdiffer : msbOrder.bits [171, 205, 239] 13 ≠ msbOrder.bits [171, 192] 13 := by decide
  refine ⟨(hasPrefix_decides _ _ (by decide)).mpr ⟨by decide, hbits⟩, ?_⟩
  rw [Bool.eq_false_iff, Ne, hasPrefix_decides _ _ (by decide)]
  exact fun h => hdiffer h.2

/-- No bits are found at the first byte, if both sides have one. -/
theorem hasPrefix_zero (x : UInt8) (xs pre : Bytes) :
    hasPrefix (x :: xs) pre 0 = true ↔ pre ≠ [] := by
  cases pre with
  | nil => simp [hasPrefix, hasPrefix.loop]
  | cons p ps =>
      have hcount : (0 : Int) ≤ ((0 + leadingZeros8 (x ^^^ p) : Nat) : Int) := by omega
      simp only [hasPrefix, hasPrefix.loop, if_pos hcount, ne_eq, reduceCtorEq, not_false_eq_true]

/-! ## Text -/

def base64Alphabet : Base64.Alphabet where
  letters := ascii ("-0123456789" ++ "ABCDEFGHIJKLMNOPQRSTUVWXYZ" ++ "_" ++
    "abcdefghijklmnopqrstuvwxyz")
  length_eq := by decide +kernel
  nodup := by decide +kernel
  not_newline := by decide +kernel

def marshalText (a : ID) : Bytes := Base64.encode base64Alphabet a.toList

/-- `ID.String`. -/
def string (a : ID) : String := showBytes (marshalText a)

def parseAddrBase64 (data : Bytes) : Go Addr := do
  let bytes ← Base64.decode base64Alphabet 32 data
  if bytes.length ≠ 32 then
    fail "too short to be INET256 address"
  else
    return idFromBytes bytes

theorem parseAddrBase64_marshalText (a : ID) : parseAddrBase64 (marshalText a) = .ok a := by
  have hlength : a.toList.length = 32 := a.toList_length
  simp [parseAddrBase64, marshalText, Base64.decode_encode base64Alphabet hlength.le, idFromBytes]

theorem marshalText_ne_nil (a : ID) : marshalText a ≠ [] := by
  have hlength := Base64.length_le_encode base64Alphabet a.toList
  intro hnil
  rw [← marshalText, hnil, a.toList_length] at hlength
  simp at hlength

end Inet256.Addr
