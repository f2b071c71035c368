import Inet256.Internal.Bitstr
import Mathlib.Data.List.GetD

/-!
# Bit strings as values

Every way to build a bit string goes through a buffer, which writes it to bytes
without stray bits behind its end.  So two strings are the same value exactly if
they have the same bits, whichever way they were built.
-/

namespace Inet256.Bitstr

open Inet256.Foundation

/-! ## Further sources and operations -/

/-- Bytes with the lowest bit of each byte first. -/
structure BytesLSB where
  bytes : Bytes
  beginBit : Int
  endBit : Int

def BytesLSB.bitAt (x : BytesLSB) (i : Nat) : Go Bool :=
  byteAt mask8LSB x.bytes ((i : Int) + x.beginBit)

def BytesLSB.len (x : BytesLSB) : Int :=
  (if x.endBit = 0 then (x.bytes.length : Int) * 8 else x.endBit) - x.beginBit

def BytesLSB.source (x : BytesLSB) : Source where
  len := x.len
  bitAt := x.bitAt

def concat (a b : BitString) : Go BitString := do
  let buf ← Buffer.empty.appendAll a.source
  let buf ← buf.appendAll b.source
  return buf.bitString

namespace BitString

def slice (s : BitString) (lo hi : Nat) : Go BitString := do
  let buf ← (List.range' lo (hi - lo)).foldlM
    (fun (buf : Buffer) i => do return buf.append (← s.source.bitAt i)) Buffer.empty
  return buf.bitString

def asBytesLSB (s : BitString) : Bytes × Nat :=
  (Bitstr.asBytesLSB s.len s.bitAt, s.len)

end BitString

inductive Built : BitString → Prop where
  | fromSource {x : Source} {s : BitString} (h : fromSource x = .ok s) : Built s
  | concat {a b s : BitString} (ha : Built a) (hb : Built b) (h : concat a b = .ok s) : Built s
  | slice {s t : BitString} {lo hi : Nat} (hs : Built s) (hlo : lo ≤ hi) (hhi : hi ≤ s.len)
      (h : s.slice lo hi = .ok t) : Built t
  | bitString (b : Buffer) : Built b.bitString

/-! ## Equality -/

theorem Built.exists_buffer {s : BitString} (h : Built s) : ∃ b : Buffer, b.bitString = s := by
  cases h with
  | fromSource h =>
      obtain ⟨b, _, hb⟩ := Go.bind_eq_ok.1 h
      exact ⟨b, Except.ok.inj hb⟩
  | concat _ _ h =>
      obtain ⟨_, _, h⟩ := Go.bind_eq_ok.1 h
      obtain ⟨b, _, hb⟩ := Go.bind_eq_ok.1 h
      exact ⟨b, Except.ok.inj hb⟩
  | slice _ _ _ h =>
      obtain ⟨b, _, hb⟩ := Go.bind_eq_ok.1 h
      exact ⟨b, Except.ok.inj hb⟩
  | bitString b => exact ⟨b, rfl⟩

/-- Behind the end of a string that was built all bits are zero. -/
theorem Built.get_bytes {s : BitString} (h : Built s) (i : Nat) :
    lsbOrder.get s.bytes i = s.bits.getD i false := by
  obtain ⟨b, rfl⟩ := h.exists_buffer
  rw [b.bits_bitString]
  change lsbOrder.get (Bitstr.asBytesLSB b.len b.bitAt) i = _
  rw [get_asBytesLSB]
  by_cases hi : i < b.len
  · have hi' : i < b.bits.length := by rwa [b.length_bits]
    rw [List.getD_eq_getElem _ _ hi']
    simp [hi, Buffer.bits, b.bitAt_eq_get]
  · simp [hi]

theorem Built.eq_iff {s t : BitString} (hs : Built s) (ht : Built t) :
    s = t ↔ s.bits = t.bits := by
  constructor
  · rintro rfl
    rfl
  · intro hbits
    have hlen : s.len = t.len := by rw [← s.length_bits, hbits, t.length_bits]
    have hbytes : s.bytes = t.bytes := by
      apply lsbOrder.words_ext (fun _ _ => lsbOrder_ext)
      · rw [s.wide, t.wide, hlen]
      · intro i _
        rw [hs.get_bytes, ht.get_bytes, hbits]
    cases s
    cases t
    cases hlen
    cases hbytes
    rfl

/-! ## What the operations do to the bits -/

theorem bits_concat (a b : BitString) :
    ∃ s, concat a b = .ok s ∧ s.bits = a.bits ++ b.bits := by
  obtain ⟨first, hfirst, hbits⟩ := appendAll_of_reads a.reads Buffer.empty
  obtain ⟨second, hsecond, hbits'⟩ := appendAll_of_reads b.reads first
  refine ⟨second.bitString, by simp [concat, hfirst, hsecond], ?_⟩
  rw [Buffer.bits_bitString, hbits', hbits, Buffer.bits_empty, List.nil_append]

theorem slice_eq_fromSource (s : BitString) (lo hi : Nat) :
    s.slice lo hi = fromSource (Slice.toSource ⟨s.source, lo, hi⟩) := by
  have hlen : (Slice.toSource ⟨s.source, lo, hi⟩).len.toNat = hi - lo := by
    simp [Slice.toSource]
  have hbitAt : ∀ i, (Slice.toSource ⟨s.source, lo, hi⟩).bitAt i = s.source.bitAt (lo + i) := by
    intro i
    have hpos : ¬ ((i : Int) + lo < 0) := by omega
    have hnat : ((i : Int) + lo).toNat = lo + i := by omega
    simp only [Slice.toSource, Slice.bitAt, if_neg hpos, hnat]
  rw [BitString.slice, fromSource, Buffer.appendAll, hlen, List.range'_eq_map_range,
    List.foldlM_map]
  simp only [hbitAt]

theorem bits_slice (s : BitString) {lo hi : Nat} (h : hi ≤ s.len) :
    ∃ t, s.slice lo hi = .ok t ∧ t.bits = (s.bits.take hi).drop lo := by
  rw [slice_eq_fromSource]
  exact fromSource_of_reads (Slice.reads s.reads lo hi (by rwa [s.length_bits]))

/-! ## Bytes in and out -/

/-- The first `n` bits of a byte, counted from the highest. -/
def keepMSB (n : Nat) : UInt8 := if 8 ≤ n then 255 else ~~~(255 >>> UInt8.ofNat n)

/-- The first `n` bits of a byte, counted from the lowest. -/
def keepLSB (n : Nat) : UInt8 := if 8 ≤ n then 255 else ~~~(255 <<< UInt8.ofNat n)

/-- The bytes that hold the first `n` bits, the bits past them cleared. -/
def firstBits (keep : Nat → UInt8) (n : Nat) (x : Bytes) : Bytes :=
  (x.take (divCeil n 8)).mapIdx fun k byte => byte &&& keep (n - 8 * k)

theorem getLsbD_keepMSB (n : Nat) {i : Nat} (hi : i < 8) :
    (keepMSB n).toBitVec.getLsbD (7 - i) = decide (i < n) := by
  by_cases hn : 8 ≤ n
  · have hall : ∀ j < 8, (255 : UInt8).toBitVec.getLsbD (7 - j) = true := by decide
    rw [keepMSB, if_pos hn, hall i hi, eq_comm, decide_eq_true_iff]
    omega
  · have hall : ∀ m < 8, ∀ j < 8, (~~~((255 : UInt8) >>> UInt8.ofNat m)).toBitVec.getLsbD (7 - j) =
        decide (j < m) := by decide
    rw [keepMSB, if_neg hn, hall n (by omega) i hi]

theorem getLsbD_keepLSB (n : Nat) {i : Nat} (hi : i < 8) :
    (keepLSB n).toBitVec.getLsbD i = decide (i < n) := by
  by_cases hn : 8 ≤ n
  · have hall : ∀ j < 8, (255 : UInt8).toBitVec.getLsbD j = true := by decide
    rw [keepLSB, if_pos hn, hall i hi, eq_comm, decide_eq_true_iff]
    omega
  · have hall : ∀ m < 8, ∀ j < 8, (~~~((255 : UInt8) <<< UInt8.ofNat m)).toBitVec.getLsbD j =
        decide (j < m) := by decide
    rw [keepLSB, if_neg hn, hall n (by omega) i hi]

theorem msbOrder_test_keepMSB (byte : UInt8) (n : Nat) {i : Nat} (hi : i < 8) :
    msbOrder.test (byte &&& keepMSB n) i = (decide (i < n) && msbOrder.test byte i) := by
  rw [msbOrder_test, msbOrder_test, UInt8.toBitVec_and, BitVec.getLsbD_and, Nat.mod_eq_of_lt hi,
    getLsbD_keepMSB n hi, Bool.and_comm]

theorem lsbOrder_test_keepLSB (byte : UInt8) (n : Nat) {i : Nat} (hi : i < 8) :
    lsbOrder.test (byte &&& keepLSB n) i = (decide (i < n) && lsbOrder.test byte i) := by
  rw [lsbOrder_test, lsbOrder_test, UInt8.toBitVec_and, BitVec.getLsbD_and, Nat.mod_eq_of_lt hi,
    getLsbD_keepLSB n hi, Bool.and_comm]

section Order

variable {o : BitOrder UInt8} {keep : Nat → UInt8}

theorem length_firstBits {n : Nat} {x : Bytes} (h : n ≤ x.length * 8) :
    (firstBits keep n x).length = divCeil n 8 := by
  have hle : divCeil n 8 ≤ x.length := by
    unfold divCeil
    split <;> omega
  simp [firstBits, hle]

theorem get_firstBits (hwidth : o.width = 8)
    (hkeep : ∀ byte n i, i < 8 → o.test (byte &&& keep n) i = (decide (i < n) && o.test byte i))
    {n : Nat} {x : Bytes} (hn : n ≤ x.length * 8) {i : Nat} (hi : i < divCeil n 8 * 8) :
    o.get (firstBits keep n x) i = (decide (i < n) && o.get x i) := by
  have hlength : (firstBits keep n x).length = divCeil n 8 := length_firstBits hn
  have hword : i / 8 < (firstBits keep n x).length := by omega
  have hx : i / 8 < x.length := by
    unfold divCeil at hi
    split at hi <;> omega
  have hget : (firstBits keep n x)[i / 8] = x[i / 8] &&& keep (n - 8 * (i / 8)) := by
    simp [firstBits]
  have hsame : i % 8 < n - 8 * (i / 8) ↔ i < n := by omega
  rw [BitOrder.get, BitOrder.get, hwidth, List.getD_eq_getElem _ _ hword,
    List.getD_eq_getElem _ _ hx, hget, hkeep _ _ _ (Nat.mod_lt i (by decide))]
  simp only [hsame]

/-- Bytes that hold the bits of a string and zeros behind them. -/
theorem eq_firstBits (hwidth : o.width = 8)
    (hext : ∀ byte byte', (∀ i < o.width, o.test byte i = o.test byte' i) → byte = byte')
    (hkeep : ∀ byte n i, i < 8 → o.test (byte &&& keep n) i = (decide (i < n) && o.test byte i))
    {n : Nat} {x found : Bytes} (hn : n ≤ x.length * 8) {s : BitString}
    (hbits : s.bits = o.bits x n) (hlength : found.length = divCeil n 8)
    (hget : ∀ i, o.get found i = (decide (i < n) && s.bitAt i)) :
    found = firstBits keep n x := by
  apply o.words_ext hext
  · rw [length_firstBits hn, hlength]
  · intro i hi
    rw [hlength, hwidth] at hi
    rw [hget, get_firstBits hwidth hkeep hn hi]
    by_cases hlt : i < n
    · have hlt' : i < s.bits.length := by rwa [hbits, BitOrder.length_bits]
      rw [← s.getElem_bits hlt']
      simp [hbits]
    · simp [hlt]

end Order

theorem BytesLSB.reads (bytes : Bytes) {n : Nat} (hpos : 0 < n) (hbound : n ≤ bytes.length * 8) :
    (BytesLSB.source ⟨bytes, 0, n⟩).Reads (lsbOrder.bits bytes n) := by
  constructor
  · have hn : n ≠ 0 := by omega
    simp [BytesLSB.source, BytesLSB.len, hn]
  · intro i hi
    rw [BitOrder.length_bits] at hi
    rw [BitOrder.getElem_bits, ← byteAt_lsb (by omega)]
    change byteAt mask8LSB bytes ((i : Int) + 0) = _
    rw [Int.add_zero]

/-- Bytes read from the highest bits on and written again. -/
theorem fromSource_asBytesMSB {x : Bytes} {n : Nat} (hpos : 1 ≤ n) (hn : n ≤ 8 * x.length) :
    ∃ s, fromSource (BytesMSB.source ⟨x, 0, n⟩) = .ok s ∧
      s.asBytesMSB = (firstBits keepMSB n x, n) := by
  have hbound : n ≤ x.length * 8 := by omega
  obtain ⟨s, hs, hbits⟩ := fromSource_of_reads (BytesMSB.reads x 0 n hpos hbound)
  rw [List.drop_zero] at hbits
  have hlen : s.len = n := by rw [← s.length_bits, hbits, BitOrder.length_bits]
  refine ⟨s, hs, Prod.ext ?_ hlen⟩
  apply eq_firstBits rfl (fun _ _ => msbOrder_ext) (fun byte n _ => msbOrder_test_keepMSB byte n)
    hbound hbits
  · rw [BitString.asBytesMSB, length_asBytesMSB, hlen]
  · intro i
    rw [BitString.asBytesMSB, get_asBytesMSB, hlen]

theorem fromSource_asBytesLSB {x : Bytes} {n : Nat} (hpos : 1 ≤ n) (hn : n ≤ 8 * x.length) :
    ∃ s, fromSource (BytesLSB.source ⟨x, 0, n⟩) = .ok s ∧
      s.asBytesLSB = (firstBits keepLSB n x, n) := by
  have hbound : n ≤ x.length * 8 := by omega
  obtain ⟨s, hs, hbits⟩ := fromSource_of_reads (BytesLSB.reads x hpos hbound)
  have hlen : s.len = n := by rw [← s.length_bits, hbits, BitOrder.length_bits]
  refine ⟨s, hs, Prod.ext ?_ hlen⟩
  apply eq_firstBits rfl (fun _ _ => lsbOrder_ext) (fun byte n _ => lsbOrder_test_keepLSB byte n)
    hbound hbits
  · rw [BitString.asBytesLSB, length_asBytesLSB, hlen]
  · intro i
    rw [BitString.asBytesLSB, get_asBytesLSB, hlen]

/--
Strings that were built are equal exactly if their bits are, which are what `At` reads; joining,
slicing and comparing work on the bits, and bytes that are read in come out again.
-/
theorem strings_canonical :
    (∀ s : BitString, s.source.Reads s.bits) ∧
    (∀ s t, Built s → Built t → (s = t ↔ s.bits = t.bits)) ∧
    (∀ a b, Built a → Built b → ∃ s, concat a b = .ok s ∧ s.bits = a.bits ++ b.bits) ∧
    (∀ s lo hi, Built s → lo ≤ hi → hi ≤ s.len →
      ∃ t, s.slice lo hi = .ok t ∧ t.bits = (s.bits.take hi).drop lo) ∧
    (∀ a b, Built a → Built b → (hasPrefix a b = true ↔ b.bits <+: a.bits)) ∧
    (∀ (x : Bytes) (n : Nat), 1 ≤ n → n ≤ 8 * x.length →
      (∃ s, fromSource (BytesMSB.source ⟨x, 0, n⟩) = .ok s ∧
        s.asBytesMSB = (firstBits keepMSB n x, n)) ∧
      ∃ s, fromSource (BytesLSB.source ⟨x, 0, n⟩) = .ok s ∧
        s.asBytesLSB = (firstBits keepLSB n x, n)) := by
  exact ⟨BitString.reads, fun s t hs ht => hs.eq_iff ht, fun a b _ _ => bits_concat a b,
    fun s lo hi _ _ hhi => bits_slice s hhi, fun a b _ _ => hasPrefix_iff a b,
    fun x n hpos hn => ⟨fromSource_asBytesMSB hpos hn, fromSource_asBytesLSB hpos hn⟩⟩

end Inet256.Bitstr
