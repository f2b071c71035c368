import Inet256.Internal.Strings
import Inet256.Ipv6.AddrMap

/-!
# Compression and its inverse

Compression replaces the leading zeros of a bit string and its first one by the
number of the zeros in seven bits.  Seven bits hold exactly the numbers below
128, so the strings with a one among their first 128 bits and the strings of at
least seven bits correspond to each other.
-/

namespace Inet256.Ipv6

open Inet256.Foundation
open Inet256.Bitstr

/-! ## The code on lists of bits -/

/-- The count of zeros in front of what follows the first one. -/
def zeroCode (bits : List Bool) : List Bool :=
  uint7Bits (UInt8.ofNat (leadingZeros bits)) ++ bits.drop (leadingZeros bits + 1)

def zeroDecode (code : List Bool) : List Bool :=
  List.replicate (uint7Value code).toNat false ++ true :: code.drop 7

theorem leadingZeros_zeroDecode (code : List Bool) :
    leadingZeros (zeroDecode code) = (uint7Value code).toNat := by
  simp [zeroDecode, leadingZeros]

theorem drop_zeroDecode (code : List Bool) :
    (zeroDecode code).drop ((uint7Value code).toNat + 1) = code.drop 7 := by
  simp [zeroDecode, List.drop_append]

theorem uint7Value_take {code : List Bool} (h : 7 ≤ code.length) :
    uint7Value code = uint7Value (code.take 7) := by
  conv_lhs => rw [← List.take_append_drop 7 code]
  exact uint7Value_append (by simpa using h) _

theorem uint7Value_lt {code : List Bool} (h : 7 ≤ code.length) :
    (uint7Value code).toNat < 128 := by
  rw [uint7Value_take h]
  exact (uint7_cases (by simpa using h)).1

theorem zeroDecode_zeroCode {bits : List Bool} (hsmall : leadingZeros bits < 128)
    (hone : leadingZeros bits < bits.length) : zeroDecode (zeroCode bits) = bits := by
  have hvalue : (uint7Value (zeroCode bits)).toNat = leadingZeros bits := by
    rw [zeroCode, uint7Value_append (length_uint7Bits _), uint7Value_uint7Bits hsmall,
      UInt8.toNat_ofNat']
    omega
  have hrest : (zeroCode bits).drop 7 = bits.drop (leadingZeros bits + 1) :=
    List.drop_left' (length_uint7Bits _)
  rw [zeroDecode, hvalue, hrest]
  exact (eq_of_leadingZeros_lt hone).symm

theorem zeroCode_zeroDecode {code : List Bool} (h : 7 ≤ code.length) :
    zeroCode (zeroDecode code) = code := by
  have hlength : (code.take 7).length = 7 := by simpa using h
  have hcount := (uint7_cases hlength).2
  rw [zeroCode, leadingZeros_zeroDecode, drop_zeroDecode, UInt8.ofNat_toNat, uint7Value_take h,
    hcount]
  exact List.take_append_drop 7 code

/-! ## The functions of the source -/

/-- Compressing the string appends these bits to whatever the buffer holds. -/
def CompressesTo (x : BitString) (written : List Bool) : Prop :=
  ∀ buf : Buffer, ∃ buf', compress buf x = .ok buf' ∧ buf'.bits = buf.bits ++ written

theorem compressesTo_zeroCode {x : BitString} (h : leadingZeros x.bits < 128) :
    CompressesTo x (zeroCode x.bits) := by
  intro buf
  obtain ⟨buf', hcompress, hbits⟩ := compress_eq_ok buf h
  exact ⟨buf', hcompress, by rw [hbits, zeroCode, List.append_assoc]⟩

theorem uncompress_zeroDecode {c : BitString} (h : 7 ≤ c.bits.length) :
    ∃ s, uncompress c = .ok s ∧ s.bits = zeroDecode c.bits :=
  uncompress_eq_ok h

theorem built_of_uncompress {x s : BitString} (h : uncompress x = .ok s) : Built s := by
  simp only [uncompress, Go.bind_eq_ok] at h
  obtain ⟨_, -, buf, -, h⟩ := h
  cases h
  exact .bitString buf

/--
A string with a one among its first 128 bits is read back from what its compression writes, as
the same bits and, if it was built by the package, as the same value.
-/
theorem compression_invertible :
    (∀ x : BitString, (∃ i < 128, x.bits[i]? = some true) →
      ∃ written, CompressesTo x written ∧
        ∀ c : BitString, c.bits = written →
          ∃ s, uncompress c = .ok s ∧ s.bits = x.bits ∧ (Built x → s = x)) ∧
    (∀ c : BitString, 7 ≤ c.len → ∃ x, uncompress c = .ok x ∧ CompressesTo x c.bits) := by
  constructor
  · rintro x ⟨i, hi, hone⟩
    have hle : leadingZeros x.bits ≤ i := leadingZeros_le_of_getElem? hone
    have hlength : i < x.bits.length := (List.getElem?_eq_some_iff.mp hone).1
    refine ⟨zeroCode x.bits, compressesTo_zeroCode (by omega), ?_⟩
    intro c hc
    have hlong : 7 ≤ c.bits.length := by simp [hc, zeroCode]
    obtain ⟨s, huncompress, hs⟩ := uncompress_zeroDecode hlong
    have hbits : s.bits = x.bits := by
      rw [hs, hc]
      exact zeroDecode_zeroCode (by omega) (by omega)
    exact ⟨s, huncompress, hbits,
      fun hx => ((built_of_uncompress huncompress).eq_iff hx).mpr hbits⟩
  · intro c hlen
    have hlong : 7 ≤ c.bits.length := by simpa using hlen
    obtain ⟨x, huncompress, hx⟩ := uncompress_zeroDecode hlong
    have hsmall : leadingZeros x.bits < 128 := by
      rw [hx, leadingZeros_zeroDecode]
      exact uint7Value_lt hlong
    refine ⟨x, huncompress, ?_⟩
    have hwrites := compressesTo_zeroCode hsmall
    rwa [hx, zeroCode_zeroDecode hlong] at hwrites

end Inet256.Ipv6
