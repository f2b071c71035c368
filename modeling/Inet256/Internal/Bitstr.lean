import Inet256.Foundation.Bits

/-!
# Bit strings

Bits are collected in a buffer of 64-bit words and kept in bytes, the first bit
in the lowest position.  A buffer has room for its bits and a bit string has
exactly the bytes its bits need, so reading below the length never leaves them.
-/

namespace Inet256.Bitstr

open Inet256.Foundation

def mask8LSB (i : Nat) : UInt8 := 1 <<< UInt8.ofNat (i % 8)

def mask8MSB (i : Nat) : UInt8 := 128 >>> UInt8.ofNat (i % 8)

def wordBits : Nat := 64

def mask64 (i : Nat) : UInt64 := 1 <<< UInt64.ofNat (i % wordBits)

def divCeil (x z : Nat) : Nat := x / z + if 0 < x % z then 1 else 0

structure Source where
  len : Int
  bitAt : Nat → Go Bool

/-- One bit of some bytes; `mask` says where a byte keeps it. -/
def byteAt (mask : Nat → UInt8) (bytes : Bytes) (i : Int) : Go Bool :=
  if i < 0 then crash "index out of range"
  else
    match bytes[i.toNat / 8]? with
    | none => crash "index out of range"
    | some byte => .ok (decide (0 < byte &&& mask i.toNat))

/-- Bytes with the highest bit of each byte first; an end of zero stands for all of them. -/
structure BytesMSB where
  bytes : Bytes
  beginBit : Int
  endBit : Int

def BytesMSB.bitAt (x : BytesMSB) (i : Nat) : Go Bool :=
  byteAt mask8MSB x.bytes ((i : Int) + x.beginBit)

def BytesMSB.len (x : BytesMSB) : Int :=
  (if x.endBit = 0 then (x.bytes.length : Int) * 8 else x.endBit) - x.beginBit

def BytesMSB.source (x : BytesMSB) : Source where
  len := x.len
  bitAt := x.bitAt

structure Slice where
  source : Source
  beginBit : Int
  endBit : Int

def Slice.bitAt (x : Slice) (i : Nat) : Go Bool :=
  let i := (i : Int) + x.beginBit
  if i < 0 then crash "index out of range" else x.source.bitAt i.toNat

def Slice.toSource (x : Slice) : Source where
  len := x.endBit - x.beginBit
  bitAt := x.bitAt

/-! ## Buffers -/

structure Buffer where
  words : List UInt64
  len : Nat
  room : len ≤ words.length * wordBits

namespace Buffer

def empty : Buffer := ⟨[], 0, by simp⟩

def setBit (i : Nat) (x : Bool) (word : UInt64) : UInt64 :=
  if x then word ||| mask64 i else word &&& ~~~mask64 i

def append (b : Buffer) (x : Bool) : Buffer where
  words :=
    (if b.words.length * wordBits ≤ b.len then b.words ++ [0] else b.words).modify
      (b.len / wordBits) (setBit b.len x)
  len := b.len + 1
  room := by
    have hroom := b.room
    unfold wordBits at hroom ⊢
    rw [List.length_modify]
    split
    · rw [List.length_append, List.length_singleton]
      omega
    · omega

def appendAll (b : Buffer) (x : Source) : Go Buffer :=
  (List.range x.len.toNat).foldlM (fun b i => do return b.append (← x.bitAt i)) b

/-- Only read below the length. -/
def bitAt (b : Buffer) (i : Nat) : Bool :=
  decide (0 < b.words.getD (i / wordBits) 0 &&& mask64 i)

/-- A length beyond the words makes every later reading panic. -/
def truncate (b : Buffer) (n : Nat) : Go Buffer :=
  if h : n ≤ b.words.length * wordBits then .ok ⟨b.words, n, h⟩
  else crash "index out of range"

end Buffer

/-! ## Bit strings -/

def asBytesLSB (len : Nat) (bitAt : Nat → Bool) : Bytes :=
  (List.range len).foldl
    (fun buf i => if bitAt i then buf.modify (i / 8) (· ||| mask8LSB i) else buf)
    (List.replicate (divCeil len 8) 0)

theorem length_asBytesLSB (len : Nat) (bitAt : Nat → Bool) :
    (asBytesLSB len bitAt).length = divCeil len 8 := by
  simp [asBytesLSB, length_foldl_modify]

def asBytesMSB (len : Nat) (bitAt : Nat → Bool) : Bytes :=
  (List.range len).foldl
    (fun buf i => if bitAt i then buf.modify (i / 8) (· ||| mask8MSB i) else buf)
    (List.replicate (divCeil len 8) 0)

structure BitString where
  bytes : Bytes
  len : Nat
  wide : bytes.length = divCeil len 8
  deriving DecidableEq

def BitString.bitAt (s : BitString) (i : Nat) : Bool :=
  decide (0 < s.bytes.getD (i / 8) 0 &&& mask8LSB i)

def BitString.source (s : BitString) : Source where
  len := s.len
  bitAt i :=
    match s.bytes[i / 8]? with
    | none => crash "index out of range"
    | some byte => .ok (decide (0 < byte &&& mask8LSB i))

def BitString.asBytesMSB (s : BitString) : Bytes × Nat :=
  (Bitstr.asBytesMSB s.len s.bitAt, s.len)

def Buffer.bitString (b : Buffer) : BitString where
  bytes := asBytesLSB b.len b.bitAt
  len := b.len
  wide := length_asBytesLSB b.len b.bitAt

def fromSource (s : Source) : Go BitString := do
  let buf ← Buffer.empty.appendAll s
  return buf.bitString

def hasPrefix (x p : BitString) : Bool :=
  if x.len < p.len then false
  else (List.range p.len).all fun i => x.bitAt i == p.bitAt i

/-! ## Bits in words and bytes -/

@[simp] theorem mask8LSB_mod (i : Nat) : mask8LSB (i % 8) = mask8LSB i := by
  rw [mask8LSB, Nat.mod_mod, mask8LSB]

@[simp] theorem mask8MSB_mod (i : Nat) : mask8MSB (i % 8) = mask8MSB i := by
  rw [mask8MSB, Nat.mod_mod, mask8MSB]

@[simp] theorem mask64_mod (i : Nat) : mask64 (i % 64) = mask64 i := by
  rw [mask64, wordBits, Nat.mod_mod, mask64, wordBits]

theorem toBitVec_mask8LSB (i : Nat) : (mask8LSB i).toBitVec = BitVec.twoPow 8 (i % 8) := by
  have h : ∀ k < 8, ((1 : UInt8) <<< UInt8.ofNat k).toBitVec = BitVec.twoPow 8 k := by decide
  exact h (i % 8) (Nat.mod_lt i (by decide))

theorem toBitVec_mask8MSB (i : Nat) : (mask8MSB i).toBitVec = BitVec.twoPow 8 (7 - i % 8) := by
  have h : ∀ k < 8, ((128 : UInt8) >>> UInt8.ofNat k).toBitVec = BitVec.twoPow 8 (7 - k) := by
    decide
  exact h (i % 8) (Nat.mod_lt i (by decide))

theorem toBitVec_mask64 (i : Nat) : (mask64 i).toBitVec = BitVec.twoPow 64 (i % 64) := by
  have h : ∀ k < 64, ((1 : UInt64) <<< UInt64.ofNat k).toBitVec = BitVec.twoPow 64 k := by
    decide
  exact h (i % 64) (Nat.mod_lt i (by decide))

def lsbOrder : BitOrder UInt8 :=
  .ofMask (by decide) UInt8.toBitVec 0 rfl (fun i => i % 8)
    (fun i _ => Nat.mod_lt i (by decide)) (fun i hi j hj h => by omega)
    (fun byte i => decide (0 < byte &&& mask8LSB i))
    (fun i bit byte => if bit then byte ||| mask8LSB i else byte &&& ~~~mask8LSB i)
    (fun byte i _ => by
      rw [decide_eq_true_iff, UInt8.lt_iff_toBitVec_lt, UInt8.toBitVec_and, toBitVec_mask8LSB]
      rfl)
    (fun byte bit i _ => by
      rw [← toBitVec_mask8LSB]
      cases bit <;> rfl)

def msbOrder : BitOrder UInt8 :=
  .ofMask (by decide) UInt8.toBitVec 0 rfl (fun i => 7 - i % 8)
    (fun i _ => by omega) (fun i hi j hj h => by omega)
    (fun byte i => decide (0 < byte &&& mask8MSB i))
    (fun i bit byte => if bit then byte ||| mask8MSB i else byte &&& ~~~mask8MSB i)
    (fun byte i _ => by
      rw [decide_eq_true_iff, UInt8.lt_iff_toBitVec_lt, UInt8.toBitVec_and, toBitVec_mask8MSB]
      rfl)
    (fun byte bit i _ => by
      rw [← toBitVec_mask8MSB]
      cases bit <;> rfl)

theorem lsbOrder_test (byte : UInt8) (i : Nat) :
    lsbOrder.test byte i = byte.toBitVec.getLsbD (i % 8) := by
  rw [Bool.eq_iff_iff, ← zero_lt_and_twoPow byte.toBitVec (i := i % 8) (by omega),
    ← toBitVec_mask8LSB]
  exact decide_eq_true_iff

theorem msbOrder_test (byte : UInt8) (i : Nat) :
    msbOrder.test byte i = byte.toBitVec.getLsbD (7 - i % 8) := by
  rw [Bool.eq_iff_iff, ← zero_lt_and_twoPow byte.toBitVec (i := 7 - i % 8) (by omega),
    ← toBitVec_mask8MSB]
  exact decide_eq_true_iff

theorem lsbOrder_ext {x y : UInt8}
    (h : ∀ i < lsbOrder.width, lsbOrder.test x i = lsbOrder.test y i) : x = y := by
  apply UInt8.eq_of_toBitVec_eq
  apply BitVec.eq_of_getLsbD_eq
  intro i hi
  have hbit := h i hi
  rwa [lsbOrder_test, lsbOrder_test, Nat.mod_eq_of_lt hi] at hbit

theorem msbOrder_ext {x y : UInt8}
    (h : ∀ i < msbOrder.width, msbOrder.test x i = msbOrder.test y i) : x = y := by
  apply UInt8.eq_of_toBitVec_eq
  apply BitVec.eq_of_getLsbD_eq
  intro i hi
  have hlt : 7 - i < msbOrder.width := Nat.lt_succ_of_le (Nat.sub_le 7 i)
  have hpos : 7 - (7 - i) % 8 = i := by omega
  have hbit := h (7 - i) hlt
  rwa [msbOrder_test, msbOrder_test, hpos] at hbit

/-- Bytes are determined by their bits. -/
theorem eq_of_bits_eq {xs ys : Bytes} (hlength : xs.length = ys.length)
    (h : msbOrder.bits xs (xs.length * 8) = msbOrder.bits ys (xs.length * 8)) : xs = ys := by
  apply msbOrder.words_ext (fun _ _ => msbOrder_ext) hlength
  intro i hi
  exact List.map_inj_left.mp h i (List.mem_range.mpr hi)

def wordOrder : BitOrder UInt64 :=
  .ofMask (by decide) UInt64.toBitVec 0 rfl (fun i => i % 64)
    (fun i _ => Nat.mod_lt i (by decide)) (fun i hi j hj h => by omega)
    (fun word i => decide (0 < word &&& mask64 i)) Buffer.setBit
    (fun word i _ => by
      rw [decide_eq_true_iff, UInt64.lt_iff_toBitVec_lt, UInt64.toBitVec_and, toBitVec_mask64]
      rfl)
    (fun word bit i _ => by
      rw [← toBitVec_mask64]
      cases bit <;> rfl)

/-! ## What the operations do to the bits -/

def Buffer.bits (b : Buffer) : List Bool := wordOrder.bits b.words b.len

def BitString.bits (s : BitString) : List Bool := lsbOrder.bits s.bytes s.len

/-- A source that can be read to its end, and what is read there. -/
structure Source.Reads (x : Source) (bits : List Bool) : Prop where
  len : x.len.toNat = bits.length
  bitAt : ∀ i (hi : i < bits.length), x.bitAt i = .ok bits[i]

theorem Buffer.bitAt_eq_get (b : Buffer) (i : Nat) : b.bitAt i = wordOrder.get b.words i := by
  change decide (0 < b.words.getD (i / 64) 0 &&& mask64 i) =
    decide (0 < b.words.getD (i / 64) 0 &&& mask64 (i % 64))
  rw [mask64_mod]

@[simp] theorem Buffer.bits_empty : Buffer.empty.bits = [] := rfl

@[simp] theorem Buffer.length_bits (b : Buffer) : b.bits.length = b.len := by
  simp [Buffer.bits]

theorem Buffer.setBit_eq_put (i : Nat) (x : Bool) :
    Buffer.setBit i x = wordOrder.put (i % wordOrder.width) x := by
  funext word
  change Buffer.setBit i x word = Buffer.setBit (i % 64) x word
  rw [Buffer.setBit, Buffer.setBit, mask64_mod]

@[simp] theorem Buffer.bits_append (b : Buffer) (x : Bool) : (b.append x).bits = b.bits ++ [x] := by
  -- the new word, if there is one, is blank, so only the bit at the end changes
  have hget : ∀ i, wordOrder.get (b.append x).words i =
      if i = b.len then x else wordOrder.get b.words i := by
    intro i
    change wordOrder.get (List.modify _ (b.len / wordOrder.width) (Buffer.setBit b.len x)) i = _
    have hroom := b.room
    unfold wordBits at hroom ⊢
    rw [Buffer.setBit_eq_put, wordOrder.get_modify]
    · split
      · rfl
      · split
        · exact wordOrder.get_append_blank b.words i
        · rfl
    · change b.len < _ * 64
      split
      · rw [List.length_append, List.length_singleton]
        omega
      · omega
  apply wordOrder.bits_ext
  · simp [Buffer.append]
  · intro i hi
    rw [hget]
    simp only [List.length_append, List.length_singleton, Buffer.length_bits] at hi
    by_cases hlast : i = b.len
    · simp [hlast]
    · have hlt : i < b.bits.length := by
        rw [Buffer.length_bits]
        omega
      rw [if_neg hlast, List.getElem_append_left hlt]
      simp [Buffer.bits]

theorem Buffer.truncate_eq_ok {b : Buffer} {n : Nat} (h : n ≤ b.len) :
    ∃ b', b.truncate n = .ok b' ∧ b'.bits = b.bits.take n := by
  have hroom : n ≤ b.words.length * wordBits := h.trans b.room
  refine ⟨⟨b.words, n, hroom⟩, by rw [Buffer.truncate, dif_pos hroom], ?_⟩
  exact (wordOrder.take_bits b.words h).symm

theorem appendAll_of_reads {x : Source} {bits : List Bool} (h : x.Reads bits) (b : Buffer) :
    ∃ b', b.appendAll x = .ok b' ∧ b'.bits = b.bits ++ bits := by
  have hrounds : b.appendAll x =
      .ok ((List.range bits.length).foldl (fun b i => b.append (bits.getD i false)) b) := by
    rw [Buffer.appendAll, h.len]
    apply foldlM_eq_ok
    intro i hi b
    have hlt := List.mem_range.mp hi
    simp [h.bitAt i hlt, hlt]
  refine ⟨_, hrounds, ?_⟩
  -- after `n` rounds the first `n` bits have been appended
  have happended : ∀ n ≤ bits.length,
      ((List.range n).foldl (fun b i => b.append (bits.getD i false)) b).bits =
        b.bits ++ bits.take n := by
    intro n
    induction n with
    | zero => simp
    | succ n ih =>
        intro hn
        have hlt : n < bits.length := hn
        rw [List.range_succ, List.foldl_append, List.foldl_cons, List.foldl_nil,
          Buffer.bits_append, ih (by omega), List.append_assoc, List.take_add_one]
        simp [hlt]
  simpa using happended bits.length le_rfl

theorem le_divCeil_mul (len : Nat) : len ≤ divCeil len 8 * 8 := by
  unfold divCeil
  split <;> omega

theorem get_asBytesLSB (len : Nat) (bitAt : Nat → Bool) (i : Nat) :
    lsbOrder.get (asBytesLSB len bitAt) i = (decide (i < len) && bitAt i) := by
  rw [← lsbOrder.get_setAll len (divCeil len 8) bitAt (le_divCeil_mul len)]
  have hput : ∀ i, (fun byte => byte ||| mask8LSB i) = lsbOrder.put (i % 8) true := by
    intro i
    funext byte
    change byte ||| mask8LSB i = byte ||| mask8LSB (i % 8)
    rw [mask8LSB_mod]
  simp only [asBytesLSB, hput]
  rfl

theorem get_asBytesMSB (len : Nat) (bitAt : Nat → Bool) (i : Nat) :
    msbOrder.get (asBytesMSB len bitAt) i = (decide (i < len) && bitAt i) := by
  rw [← msbOrder.get_setAll len (divCeil len 8) bitAt (le_divCeil_mul len)]
  have hput : ∀ i, (fun byte => byte ||| mask8MSB i) = msbOrder.put (i % 8) true := by
    intro i
    funext byte
    change byte ||| mask8MSB i = byte ||| mask8MSB (i % 8)
    rw [mask8MSB_mod]
  simp only [asBytesMSB, hput]
  rfl

theorem length_asBytesMSB (len : Nat) (bitAt : Nat → Bool) :
    (asBytesMSB len bitAt).length = divCeil len 8 := by
  simp [asBytesMSB, length_foldl_modify]

@[simp] theorem BitString.length_bits (s : BitString) : s.bits.length = s.len := by
  simp [BitString.bits]

theorem BitString.bitAt_eq_get (s : BitString) (i : Nat) : s.bitAt i = lsbOrder.get s.bytes i := by
  change decide (0 < s.bytes.getD (i / 8) 0 &&& mask8LSB i) =
    decide (0 < s.bytes.getD (i / 8) 0 &&& mask8LSB (i % 8))
  rw [mask8LSB_mod]

theorem BitString.getElem_bits (s : BitString) {i : Nat} (h : i < s.bits.length) :
    s.bits[i] = s.bitAt i := by
  rw [s.bitAt_eq_get]
  exact lsbOrder.getElem_bits s.bytes h

@[simp] theorem Buffer.bits_bitString (b : Buffer) : b.bitString.bits = b.bits := by
  apply lsbOrder.bits_ext
  · simp [Buffer.bitString]
  · intro i hi
    rw [Buffer.length_bits] at hi
    simp [Buffer.bitString, get_asBytesLSB, hi, Buffer.bitAt_eq_get, Buffer.bits]

theorem fromSource_of_reads {x : Source} {bits : List Bool} (h : x.Reads bits) :
    ∃ s, fromSource x = .ok s ∧ s.bits = bits := by
  obtain ⟨b, hb, hbits⟩ := appendAll_of_reads h Buffer.empty
  refine ⟨b.bitString, ?_, by simpa using hbits⟩
  simp [fromSource, hb]

/-- Collecting the bits of a source reads every one of them. -/
theorem bitAt_of_fromSource {x : Source} {s : BitString} (h : fromSource x = .ok s) {i : Nat}
    (hi : i < x.len.toNat) : ∃ bit, x.bitAt i = .ok bit := by
  obtain ⟨buf, hbuf, -⟩ := Go.bind_eq_ok.mp h
  obtain ⟨before, after, hround⟩ := exists_round_of_foldlM hbuf (List.mem_range.mpr hi)
  obtain ⟨bit, hbit, -⟩ := Go.bind_eq_ok.mp hround
  exact ⟨bit, hbit⟩

/-- The test compares all bits of the second string. -/
theorem hasPrefix_iff (x p : BitString) : hasPrefix x p = true ↔ p.bits <+: x.bits := by
  unfold hasPrefix
  rw [List.prefix_iff_getElem]
  split
  · next hshort =>
      simp only [Bool.false_eq_true, false_iff, BitString.length_bits]
      rintro ⟨hle, -⟩
      omega
  · next hlong =>
      simp only [List.all_eq_true, List.mem_range, beq_iff_eq, BitString.length_bits,
        BitString.getElem_bits]
      constructor
      · intro h
        refine ⟨by omega, fun i hi => (h i (by simpa using hi)).symm⟩
      · rintro ⟨-, h⟩ i hi
        exact (h i (by simpa using hi)).symm

theorem BitString.reads (s : BitString) : s.source.Reads s.bits := by
  constructor
  · simp [BitString.source]
  · intro i hi
    have hlt : i / 8 < s.bytes.length := by
      have hroom := le_divCeil_mul s.len
      rw [s.wide]
      rw [s.length_bits] at hi
      omega
    rw [s.getElem_bits hi]
    simp [BitString.source, BitString.bitAt, hlt]

theorem Slice.reads {source : Source} {bits : List Bool} (h : source.Reads bits) (lo hi : Nat)
    (hbound : hi ≤ bits.length) :
    (Slice.toSource ⟨source, lo, hi⟩).Reads ((bits.take hi).drop lo) := by
  constructor
  · simp [Slice.toSource]
    omega
  · intro i hi'
    simp only [List.length_drop, List.length_take] at hi'
    have hpos : ¬ ((i : Int) + lo < 0) := by omega
    have hnat : ((i : Int) + lo).toNat = lo + i := by omega
    simp only [Slice.toSource, Slice.bitAt, if_neg hpos, hnat]
    rw [h.bitAt (lo + i) (by omega)]
    simp

theorem byteAt_eq_get {o : BitOrder UInt8} {mask : Nat → UInt8} (hwidth : o.width = 8)
    (htest : ∀ byte i, o.test byte (i % 8) = decide (0 < byte &&& mask i)) {bytes : Bytes}
    {i : Nat} (h : i < bytes.length * 8) : byteAt mask bytes i = .ok (o.get bytes i) := by
  have hpos : ¬ ((i : Int) < 0) := by omega
  have hlt : i / 8 < bytes.length := by omega
  rw [byteAt, if_neg hpos, Int.toNat_natCast, List.getElem?_eq_getElem hlt, BitOrder.get, hwidth,
    htest, List.getD_eq_getElem?_getD, List.getElem?_eq_getElem hlt]
  rfl

theorem byteAt_lsb {bytes : Bytes} {i : Nat} (h : i < bytes.length * 8) :
    byteAt mask8LSB bytes i = .ok (lsbOrder.get bytes i) := by
  refine byteAt_eq_get rfl (fun byte i => ?_) h
  change decide (0 < byte &&& mask8LSB (i % 8)) = _
  rw [mask8LSB_mod]

theorem byteAt_msb {bytes : Bytes} {i : Nat} (h : i < bytes.length * 8) :
    byteAt mask8MSB bytes i = .ok (msbOrder.get bytes i) := by
  refine byteAt_eq_get rfl (fun byte i => ?_) h
  change decide (0 < byte &&& mask8MSB (i % 8)) = _
  rw [mask8MSB_mod]

theorem BytesMSB.reads (bytes : Bytes) (lo hi : Nat) (hpos : 0 < hi)
    (hbound : hi ≤ bytes.length * 8) :
    (BytesMSB.source ⟨bytes, lo, hi⟩).Reads ((msbOrder.bits bytes hi).drop lo) := by
  constructor
  · simp [BytesMSB.source, BytesMSB.len]
    omega
  · intro i hi'
    simp only [List.length_drop, BitOrder.length_bits] at hi'
    rw [List.getElem_drop, BitOrder.getElem_bits, ← byteAt_msb (by omega)]
    change byteAt mask8MSB bytes ((i : Int) + lo) = byteAt mask8MSB bytes ((lo + i : Nat) : Int)
    rw [Int.natCast_add, Int.add_comm]

/-- An end of zero reads all the bits, a negative one none. -/
theorem BytesMSB.reads_whole (bytes : Bytes) :
    (BytesMSB.source ⟨bytes, 0, 0⟩).Reads (msbOrder.bits bytes (bytes.length * 8)) := by
  cases bytes with
  | nil =>
      constructor
      · rfl
      · intro i hi
        simp at hi
  | cons byte bytes =>
      have hreads := BytesMSB.reads (byte :: bytes) 0 ((byte :: bytes).length * 8) (by simp) le_rfl
      constructor
      · simp [BytesMSB.source, BytesMSB.len]
        omega
      · exact hreads.bitAt

theorem BytesMSB.reads_negative (bytes : Bytes) {hi : Int} (h : hi < 0) :
    (BytesMSB.source ⟨bytes, 0, hi⟩).Reads [] := by
  constructor
  · simp only [BytesMSB.source, BytesMSB.len, List.length_nil]
    split <;> omega
  · intro i hi
    simp at hi

theorem bits_prefix_iff (first second : Bytes) :
    msbOrder.bits first (first.length * 8) <+: msbOrder.bits second (second.length * 8) ↔
      first <+: second := by
  constructor
  · intro h
    have hlength := h.length_le
    simp only [BitOrder.length_bits] at hlength
    have hfront : msbOrder.bits second (first.length * 8) =
        msbOrder.bits first (first.length * 8) := by
      have htake := List.prefix_iff_eq_take.mp h
      rw [BitOrder.length_bits, msbOrder.take_bits second hlength] at htake
      exact htake.symm
    have htaken : (second.take first.length).length = first.length := by
      rw [List.length_take]
      omega
    have hsame : second.take first.length = first := by
      apply eq_of_bits_eq htaken
      rw [htaken, ← hfront]
      have hroom : first.length * 8 ≤ (second.take first.length).length * 8 := by rw [htaken]
      have happend := msbOrder.bits_append_left hroom (second.drop first.length)
      rw [List.take_append_drop] at happend
      exact happend.symm
    rw [← hsame]
    exact List.take_prefix _ _
  · rintro ⟨rest, rfl⟩
    apply List.prefix_iff_eq_take.mpr
    have hroom : first.length * 8 ≤ (first ++ rest).length * 8 := by
      rw [List.length_append]
      omega
    rw [BitOrder.length_bits, msbOrder.take_bits _ hroom]
    exact (msbOrder.bits_append_left (le_refl (first.length * 8)) rest).symm

/-- Written to bytes, the string is followed by zeros. -/
theorem BitString.bits_asBytesMSB (s : BitString) {n : Nat} (h : s.len ≤ n) :
    msbOrder.bits s.asBytesMSB.1 n = s.bits ++ List.replicate (n - s.len) false := by
  apply msbOrder.bits_ext
  · simp
    omega
  · intro i hi
    simp only [BitString.asBytesMSB, get_asBytesMSB]
    by_cases hlt : i < s.len
    · have hlt' : i < s.bits.length := by simpa using hlt
      rw [List.getElem_append_left hlt', s.getElem_bits hlt']
      simp [hlt]
    · have hle : s.bits.length ≤ i := by simpa using hlt
      rw [List.getElem_append_right hle]
      simp [hlt]

end Inet256.Bitstr
