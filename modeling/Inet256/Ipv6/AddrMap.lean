import Inet256.Pki.Addr
import Inet256.Pki.Codec

/-!
# INET256 addresses as IPv6 addresses

An address is mapped into `0200::/7` by counting its leading zeros in seven bits
and keeping the bits after the first one, as far as they fit.  The other way an
IPv6 address determines a prefix of the addresses that are mapped to it.
-/

namespace Inet256.Ipv6

open Inet256.Foundation
open Inet256.Bitstr

/-! ## IP addresses -/

/-- `netip.Addr`; the zero value is not an address of either family. -/
inductive IP where
  | none
  | v4 (bytes : List.Vector UInt8 4)
  | v6 (bytes : List.Vector UInt8 16) (zone : String)
  deriving DecidableEq

def IP.is6 : IP → Bool
  | .v6 _ _ => true
  | _ => false

def IP.asSlice : IP → Bytes
  | .none => []
  | .v4 bytes => bytes.toList
  | .v6 bytes _ => bytes.toList

def addrFromSlice (data : Bytes) : Option IP :=
  if h : data.length = 4 then some (.v4 ⟨data, h⟩)
  else if h : data.length = 16 then some (.v6 ⟨data, h⟩ "")
  else Option.none

structure Prefix where
  addr : IP
  bits : Nat

/-- An address with a zone is in no prefix, and one of the other family neither. -/
def Prefix.contains (p : Prefix) : IP → Bool
  | .none => false
  | .v4 bytes =>
      match p.addr with
      | .v4 own => msbOrder.bits bytes.toList p.bits == msbOrder.bits own.toList p.bits
      | _ => false
  | .v6 bytes zone =>
      match p.addr with
      | .v6 own _ =>
          zone == "" && msbOrder.bits bytes.toList p.bits == msbOrder.bits own.toList p.bits
      | _ => false

/-- `0200::/7`. -/
def netPrefix : Prefix := ⟨.v6 (copyTo 16 [2]) "", 7⟩

/-! ## Compressed addresses -/

def writeUint7 (buf : Buffer) (x : UInt8) : Go Buffer :=
  if 128 ≤ x then crash "cannot write value >= 128 in 7 bits"
  else .ok ((List.range 7).foldl (fun buf i =>
    buf.append (decide (0 < x &&& ((64 : UInt8) >>> UInt8.ofNat i)))) buf)

def readUint7 (buf : Source) : Go UInt8 :=
  (List.range 7).foldlM (fun n i => do
    if ← buf.bitAt i then return n ||| (64 >>> UInt8.ofNat i) else return n) 0

def compress (buf : Buffer) (x : BitString) : Go Buffer :=
  -- the position of the first one, or the length if there is none
  let firstOne := ((List.range x.len).takeWhile fun i => !x.bitAt i).length
  if 128 ≤ firstOne then crash "cannot compress >= 128 zeros"
  else do
    let buf ← writeUint7 buf (UInt8.ofNat firstOne)
    buf.appendAll (Slice.toSource ⟨x.source, (firstOne + 1 : Nat), x.len⟩)

def uncompress (x : BitString) : Go BitString := do
  let lz ← readUint7 x.source
  let buf := (List.range lz.toNat).foldl (fun buf _ => buf.append false) Buffer.empty
  let buf := buf.append true
  let buf ← buf.appendAll (Slice.toSource ⟨x.source, (7 : Nat), x.len⟩)
  return buf.bitString

/-- `showIP` is `netip.Addr.String`. -/
def inet256PrefixFromIPv6 (showIP : IP → String) (x : IP) : Go (Bytes × Nat) :=
  if !x.is6 then fail s!"ip {showIP x} is not v6"
  else if !netPrefix.contains x then fail s!"ip {showIP x} not in subnet"
  else do
    let comp ← fromSource (BytesMSB.source ⟨x.asSlice, netPrefix.bits, (128 : Nat)⟩)
    let bits ← uncompress comp
    return bits.asBytesMSB

def ipv6FromINET256 (x : Addr) : Go IP := do
  let buf ← Buffer.empty.appendAll
    (BytesMSB.source ⟨netPrefix.addr.asSlice, (0 : Nat), netPrefix.bits⟩)
  let bits ← fromSource (BytesMSB.source ⟨x.toList, (0 : Nat), (256 : Nat)⟩)
  let buf ← compress buf bits
  let buf ← buf.truncate 128
  let (data, nbits) := buf.bitString.asBytesMSB
  if nbits ≠ 128 then crash s!"{nbits}"
  else
    match addrFromSlice data with
    | Option.none => crash (showBytes data)
    | some addr => return addr

/-! ## What compression does to the bits -/

def uint7Bits (x : UInt8) : List Bool :=
  (List.range 7).map fun i => decide (0 < x &&& ((64 : UInt8) >>> UInt8.ofNat i))

def uint7Value (bits : List Bool) : UInt8 :=
  (List.range 7).foldl (fun n i =>
    if bits.getD i false then n ||| (64 >>> UInt8.ofNat i) else n) 0

@[simp] theorem length_uint7Bits (x : UInt8) : (uint7Bits x).length = 7 := by
  simp [uint7Bits]

theorem uint7_cases {bits : List Bool} (h : bits.length = 7) :
    (uint7Value bits).toNat < 128 ∧ uint7Bits (uint7Value bits) = bits := by
  have hall : ∀ a b c d e f g : Bool, (uint7Value [a, b, c, d, e, f, g]).toNat < 128 ∧
      uint7Bits (uint7Value [a, b, c, d, e, f, g]) = [a, b, c, d, e, f, g] := by
    decide +kernel
  match bits, h with
  | [a, b, c, d, e, f, g], _ => exact hall a b c d e f g

theorem uint7Value_uint7Bits {n : Nat} (h : n < 128) :
    uint7Value (uint7Bits (UInt8.ofNat n)) = UInt8.ofNat n := by
  have hall : ∀ n < 128, uint7Value (uint7Bits (UInt8.ofNat n)) = UInt8.ofNat n := by
    decide +kernel
  exact hall n h

theorem writeUint7_eq_ok (buf : Buffer) {n : Nat} (h : n < 128) :
    ∃ buf', writeUint7 buf (UInt8.ofNat n) = .ok buf' ∧
      buf'.bits = buf.bits ++ uint7Bits (UInt8.ofNat n) := by
  have hsmall : ¬ 128 ≤ UInt8.ofNat n := by
    rw [UInt8.le_iff_toNat_le, UInt8.toNat_ofNat']
    change ¬ 128 ≤ n % 256
    omega
  refine ⟨_, by rw [writeUint7, if_neg hsmall], ?_⟩
  simp [List.range_succ, uint7Bits]

theorem readUint7_eq_ok {source : Source} {bits : List Bool} (h : source.Reads bits)
    (hlength : 7 ≤ bits.length) : readUint7 source = .ok (uint7Value bits) := by
  apply foldlM_eq_ok
  intro i hi n
  have hlt : i < bits.length := by
    have := List.mem_range.mp hi
    omega
  rw [h.bitAt i hlt, Go.ok_bind]
  cases hbit : bits[i] <;> simp [hlt, hbit]

theorem firstOne_eq (x : BitString) :
    ((List.range x.len).takeWhile fun i => !x.bitAt i).length = leadingZeros x.bits := by
  have hmap : ∀ indices : List Nat, (indices.takeWhile fun i => !x.bitAt i).length =
      leadingZeros (indices.map x.bitAt) := by
    intro indices
    induction indices with
    | nil => rfl
    | cons i indices ih => cases hbit : x.bitAt i <;> simp [hbit, leadingZeros, ih]
  rw [hmap]
  congr 1
  apply List.map_congr_left
  intro i _
  exact x.bitAt_eq_get i

theorem compress_eq_ok (buf : Buffer) {x : BitString} (h : leadingZeros x.bits < 128) :
    ∃ buf', compress buf x = .ok buf' ∧
      buf'.bits = buf.bits ++ uint7Bits (UInt8.ofNat (leadingZeros x.bits)) ++
        x.bits.drop (leadingZeros x.bits + 1) := by
  obtain ⟨buf₁, hwrite, hbits₁⟩ := writeUint7_eq_ok buf h
  have hreads := Slice.reads x.reads (leadingZeros x.bits + 1) x.len (by simp)
  obtain ⟨buf₂, happend, hbits₂⟩ := appendAll_of_reads hreads buf₁
  refine ⟨buf₂, ?_, ?_⟩
  · simp only [compress, firstOne_eq]
    rw [if_neg (by omega), hwrite, Go.ok_bind]
    exact happend
  · rw [hbits₂, hbits₁]
    have hall : x.bits.take x.len = x.bits := by
      rw [← x.length_bits, List.take_length]
    rw [hall]

theorem uncompress_eq_ok {x : BitString} (h : 7 ≤ x.bits.length) :
    ∃ s, uncompress x = .ok s ∧
      s.bits = List.replicate (uint7Value x.bits).toNat false ++ true :: x.bits.drop 7 := by
  have hzeros : ∀ n, ((List.range n).foldl (fun buf _ => buf.append false) Buffer.empty).bits =
      List.replicate n false := by
    intro n
    induction n with
    | zero => rfl
    | succ n ih => simp [List.range_succ, ih, List.replicate_succ']
  have hreads := Slice.reads x.reads 7 x.len (by simp)
  obtain ⟨buf, happend, hbits⟩ := appendAll_of_reads hreads
    (((List.range (uint7Value x.bits).toNat).foldl (fun buf _ => buf.append false)
      Buffer.empty).append true)
  have hall : x.bits.take x.len = x.bits := by
    rw [← x.length_bits, List.take_length]
  refine ⟨buf.bitString, ?_, ?_⟩
  · rw [uncompress, readUint7_eq_ok x.reads h, Go.ok_bind]
    simp only [happend, Go.ok_bind, Go.pure_eq_ok]
  · rw [buf.bits_bitString, hbits, Buffer.bits_append, hzeros, hall]
    simp

/-! ## The map and its prefixes -/

def addrZeros (a : Addr) : Nat := leadingZeros (msbOrder.bits a.toList 256)

/-- The bits of the network, of the count of zeros, and of the address after its first one. -/
def mappedBits (zeros : Nat) (rest : List Bool) : List Bool :=
  msbOrder.bits netPrefix.addr.asSlice 7 ++ uint7Bits (UInt8.ofNat zeros) ++ rest

theorem mappedBits_inj {zeros zeros' : Nat} {rest rest' : List Bool} (hzeros : zeros < 128)
    (hzeros' : zeros' < 128) :
    mappedBits zeros rest = mappedBits zeros' rest' ↔ zeros = zeros' ∧ rest = rest' := by
  constructor
  · intro h
    obtain ⟨hfront, hrest⟩ := List.append_inj h (by simp)
    obtain ⟨-, hcount⟩ := List.append_inj hfront rfl
    have hvalue := congrArg uint7Value hcount
    rw [uint7Value_uint7Bits hzeros, uint7Value_uint7Bits hzeros'] at hvalue
    have hnat := congrArg UInt8.toNat hvalue
    simp only [UInt8.toNat_ofNat'] at hnat
    exact ⟨by omega, hrest⟩
  · rintro ⟨rfl, rfl⟩
    rfl

theorem ipv6FromINET256_eq_ok {a : Addr} (h : addrZeros a < 128) :
    ∃ bytes, ipv6FromINET256 a = .ok (.v6 bytes "") ∧
      msbOrder.bits bytes.toList 128 = mappedBits (addrZeros a)
        (((msbOrder.bits a.toList 256).drop (addrZeros a + 1)).take 114) := by
  have hnetwork := BytesMSB.reads netPrefix.addr.asSlice 0 7 (by decide) (by decide)
  obtain ⟨buf, hbuf, hbits⟩ := appendAll_of_reads hnetwork Buffer.empty
  have hsource := BytesMSB.reads a.toList 0 256 (by decide) (by simp)
  obtain ⟨bits, hfrom, hsame⟩ := fromSource_of_reads hsource
  rw [List.drop_zero] at hsame hbits
  have hzeros : leadingZeros bits.bits < 128 := by
    rw [hsame]
    exact h
  obtain ⟨whole, hcompress, hwhole⟩ := compress_eq_ok buf hzeros
  rw [hsame] at hwhole
  have hlong : 128 ≤ whole.len := by
    rw [← whole.length_bits, hwhole, hbits]
    simp
    change leadingZeros (msbOrder.bits a.toList 256) < 128 at h
    omega
  obtain ⟨short, htruncate, hshort⟩ := Buffer.truncate_eq_ok hlong
  have hlen : short.bitString.len = 128 := by
    rw [← BitString.length_bits, Buffer.bits_bitString, hshort, List.length_take,
      Buffer.length_bits]
    omega
  have hbytes : short.bitString.asBytesMSB.1.length = 16 := by
    rw [BitString.asBytesMSB, length_asBytesMSB, hlen]
    rfl
  refine ⟨⟨short.bitString.asBytesMSB.1, hbytes⟩, ?_, ?_⟩
  · have hnotLong : ¬ short.bitString.asBytesMSB.2 ≠ 128 := by
      simp [BitString.asBytesMSB, hlen]
    have hslice : addrFromSlice short.bitString.asBytesMSB.1 =
        some (.v6 ⟨short.bitString.asBytesMSB.1, hbytes⟩ "") := by
      simp [addrFromSlice, hbytes]
    have hbuf' : Buffer.empty.appendAll
        (BytesMSB.source ⟨netPrefix.addr.asSlice, (0 : Nat), netPrefix.bits⟩) = .ok buf := hbuf
    rw [ipv6FromINET256, hbuf', Go.ok_bind, hfrom, Go.ok_bind, hcompress, Go.ok_bind, htruncate,
      Go.ok_bind]
    simp only [if_neg hnotLong, hslice, Go.pure_eq_ok]
  · have hwritten := short.bitString.bits_asBytesMSB hlen.le
    rw [hlen, Nat.sub_self, List.replicate_zero, List.append_nil, Buffer.bits_bitString, hshort,
      hwhole, hbits] at hwritten
    refine hwritten.trans ?_
    rw [Buffer.bits_empty, List.nil_append, List.take_append, List.take_of_length_le (by simp)]
    simp [mappedBits, addrZeros]

theorem asSlice_addrFromSlice {data : Bytes} {ip : IP} (h : addrFromSlice data = some ip) :
    ip.asSlice = data := by
  unfold addrFromSlice at h
  split at h
  · cases h
    rfl
  · split at h
    · cases h
      rfl
    · cases h

theorem length_asSlice_ipv6FromINET256 {a : Addr} {ip : IP} (h : ipv6FromINET256 a = .ok ip) :
    ip.asSlice.length = 16 := by
  simp only [ipv6FromINET256, Go.bind_eq_ok] at h
  obtain ⟨_, -, _, -, _, -, buf, -, h⟩ := h
  split at h
  · cases h
  · next hlen =>
      have hlen : buf.bitString.len = 128 := not_not.mp hlen
      split at h
      · cases h
      · next found hfound =>
          cases h
          rw [asSlice_addrFromSlice hfound, BitString.asBytesMSB, length_asBytesMSB, hlen]
          rfl

theorem mappedBits_of_contains {ip : IP} (h : netPrefix.contains ip = true) :
    ∃ bytes zeros rest, ip = .v6 bytes "" ∧ zeros < 128 ∧ rest.length = 114 ∧
      msbOrder.bits bytes.toList 128 = mappedBits zeros rest := by
  cases ip with
  | none => cases h
  | v4 bytes => cases h
  | v6 bytes zone =>
      obtain ⟨hzone, hfront⟩ := Bool.and_eq_true_iff.mp h
      obtain rfl : zone = "" := by simpa using hzone
      have hfront : msbOrder.bits bytes.toList 7 = msbOrder.bits netPrefix.addr.asSlice 7 :=
        eq_of_beq hfront
      have hcount : (((msbOrder.bits bytes.toList 128).drop 7).take 7).length = 7 := by simp
      obtain ⟨hsmall, hbits⟩ := uint7_cases hcount
      refine ⟨bytes, _, (msbOrder.bits bytes.toList 128).drop 14, rfl, hsmall, by simp, ?_⟩
      rw [mappedBits, UInt8.ofNat_toNat, hbits, ← hfront,
        ← msbOrder.take_bits bytes.toList (show 7 ≤ 128 by decide), List.append_assoc]
      conv_lhs => rw [← List.take_append_drop 7 (msbOrder.bits bytes.toList 128),
        ← List.take_append_drop 7 ((msbOrder.bits bytes.toList 128).drop 7), List.drop_drop]

theorem uint7Value_append {bits : List Bool} (h : bits.length = 7) (rest : List Bool) :
    uint7Value (bits ++ rest) = uint7Value bits := by
  match bits, h with
  | [_, _, _, _, _, _, _], _ => rfl

variable {showIP : IP → String}

theorem inet256PrefixFromIPv6_eq_ok {bytes : List.Vector UInt8 16} {zeros : Nat} {rest : List Bool}
    (hcontains : netPrefix.contains (.v6 bytes "") = true) (hzeros : zeros < 128)
    (hrest : rest.length = 114) (hbits : msbOrder.bits bytes.toList 128 = mappedBits zeros rest) :
    ∃ pre, inet256PrefixFromIPv6 showIP (.v6 bytes "") = .ok (pre, zeros + 115) ∧
      zeros + 115 ≤ pre.length * 8 ∧
      msbOrder.bits pre (zeros + 115) = List.replicate zeros false ++ true :: rest := by
  have hsource := BytesMSB.reads bytes.toList 7 128 (by decide) (by simp)
  obtain ⟨comp, hfrom, hcomp⟩ := fromSource_of_reads hsource
  have hdrop : comp.bits = uint7Bits (UInt8.ofNat zeros) ++ rest := by
    rw [hcomp, hbits, mappedBits, List.append_assoc]
    exact List.drop_left' rfl
  have hlong : 7 ≤ comp.bits.length := by simp [hdrop]
  obtain ⟨s, huncompress, hs⟩ := uncompress_eq_ok hlong
  have hvalue : uint7Value comp.bits = UInt8.ofNat zeros := by
    rw [hdrop, uint7Value_append (length_uint7Bits _), uint7Value_uint7Bits hzeros]
  have hzeros' : (UInt8.ofNat zeros).toNat = zeros := by
    rw [UInt8.toNat_ofNat']
    omega
  rw [hvalue, hzeros', hdrop, List.drop_left' (length_uint7Bits _)] at hs
  have hlen : s.len = zeros + 115 := by
    rw [← s.length_bits, hs]
    simp [hrest]
  refine ⟨s.asBytesMSB.1, ?_, ?_, ?_⟩
  · have hfrom' : fromSource (BytesMSB.source
        ⟨(IP.v6 bytes "").asSlice, netPrefix.bits, (128 : Nat)⟩) = .ok comp := hfrom
    rw [inet256PrefixFromIPv6, hcontains, hfrom', Go.ok_bind, huncompress]
    simp [IP.is6, BitString.asBytesMSB, hlen]
  · rw [BitString.asBytesMSB, length_asBytesMSB, ← hlen]
    exact le_divCeil_mul s.len
  · rw [s.bits_asBytesMSB hlen.le, hlen, Nat.sub_self, hs]
    simp

theorem leadingZeros_of_take {bits rest : List Bool} {zeros : Nat}
    (h : bits.take (zeros + 1 + rest.length) = List.replicate zeros false ++ true :: rest) :
    leadingZeros bits = zeros ∧
      bits.drop (zeros + 1) = rest ++ bits.drop (zeros + 1 + rest.length) := by
  have hwhole : bits = List.replicate zeros false ++
      true :: (rest ++ bits.drop (zeros + 1 + rest.length)) := by
    conv_lhs => rw [← List.take_append_drop (zeros + 1 + rest.length) bits, h]
    simp
  constructor
  · rw [hwhole]
    simp [leadingZeros]
  · conv_lhs => rw [hwhole]
    simp [List.drop_append]

/-- What it means to begin with some zeros, a one and some more bits. -/
theorem take_eq_iff {bits : List Bool} (h : leadingZeros bits < bits.length) (zeros : Nat)
    (rest : List Bool) :
    bits.take (zeros + 1 + rest.length) = List.replicate zeros false ++ true :: rest ↔
      leadingZeros bits = zeros ∧
        (bits.drop (leadingZeros bits + 1)).take rest.length = rest := by
  constructor
  · intro htake
    obtain ⟨hzeros, hdrop⟩ := leadingZeros_of_take htake
    refine ⟨hzeros, ?_⟩
    rw [hzeros, hdrop, List.take_left]
  · rintro ⟨rfl, htake⟩
    refine (congrArg (List.take (leadingZeros bits + 1 + rest.length))
      (eq_of_leadingZeros_lt h)).trans ?_
    rw [Nat.add_assoc, List.take_append]
    simp [Nat.add_comm 1, htake]

/-! ## Prefixes of mapped addresses -/

section Prefix

variable {a : Addr} {pre : Bytes} {zeros : Nat} {rest : List Bool}

theorem hasPrefix_iff_take (hzeros : zeros < 128) (hrest : rest.length = 114)
    (hroom : zeros + 115 ≤ pre.length * 8)
    (hpre : msbOrder.bits pre (zeros + 115) = List.replicate zeros false ++ true :: rest) :
    Addr.hasPrefix a.toList pre (zeros + 115 : Nat) = true ↔
      (msbOrder.bits a.toList 256).take (zeros + 1 + rest.length) =
        List.replicate zeros false ++ true :: rest := by
  rw [Addr.hasPrefix_iff (by omega) (by simp; omega) hroom, hpre, hrest,
    msbOrder.take_bits _ (by omega)]

theorem hasPrefix_iff_mapped (h : addrZeros a < 128) {own bytes : List.Vector UInt8 16}
    (hown : msbOrder.bits own.toList 128 = mappedBits (addrZeros a)
      (((msbOrder.bits a.toList 256).drop (addrZeros a + 1)).take 114))
    (hbytes : msbOrder.bits bytes.toList 128 = mappedBits zeros rest)
    (hzeros : zeros < 128) (hrest : rest.length = 114)
    (hroom : zeros + 115 ≤ pre.length * 8)
    (hpre : msbOrder.bits pre (zeros + 115) = List.replicate zeros false ++ true :: rest) :
    Addr.hasPrefix a.toList pre (zeros + 115 : Nat) = true ↔ IP.v6 own "" = IP.v6 bytes "" := by
  have hlength : leadingZeros (msbOrder.bits a.toList 256) <
      (msbOrder.bits a.toList 256).length := by
    simp only [BitOrder.length_bits]
    exact h.trans (by decide)
  have hsame : IP.v6 own "" = IP.v6 bytes "" ↔
      msbOrder.bits own.toList 128 = msbOrder.bits bytes.toList 128 := by
    constructor
    · intro heq
      cases heq
      rfl
    · intro heq
      have hlists : own.toList = bytes.toList := eq_of_bits_eq (by simp) (by simpa using heq)
      rw [List.Vector.eq _ _ hlists]
  rw [hasPrefix_iff_take hzeros hrest hroom hpre, take_eq_iff hlength, hsame, hown, hbytes,
    mappedBits_inj h hzeros, hrest]
  rfl

end Prefix

theorem contains_of_fromIPv6 {ip : IP} {found : Bytes × Nat}
    (h : inet256PrefixFromIPv6 showIP ip = .ok found) : netPrefix.contains ip = true := by
  unfold inet256PrefixFromIPv6 at h
  split at h
  · cases h
  · split at h
    · cases h
    · next hcontains => simpa using hcontains

/-- An address with the prefix of an IPv6 address is mapped there. -/
theorem mapped_of_hasPrefix {ip : IP} {pre : Bytes} {n : Nat} {a : Addr}
    (hfound : inet256PrefixFromIPv6 showIP ip = .ok (pre, n))
    (h : Addr.hasPrefix a.toList pre n = true) : ipv6FromINET256 a = .ok ip := by
  have hcontains := contains_of_fromIPv6 hfound
  obtain ⟨bytes, zeros, rest, rfl, hzeros, hrest, hbits⟩ := mappedBits_of_contains hcontains
  obtain ⟨pre', hfound', hroom, hpre⟩ :=
    inet256PrefixFromIPv6_eq_ok hcontains hzeros hrest hbits
  rw [hfound] at hfound'
  cases hfound'
  -- the prefix has its first one among the first 128 bits, and so has the address
  have hcount : addrZeros a = zeros :=
    (leadingZeros_of_take ((hasPrefix_iff_take hzeros hrest hroom hpre).mp h)).1
  have hsmall : addrZeros a < 128 := by omega
  obtain ⟨own, hown, hmapped⟩ := ipv6FromINET256_eq_ok hsmall
  rw [hown, (hasPrefix_iff_mapped hsmall hmapped hbits hzeros hrest hroom hpre).mp h]

/--
The address is mapped into the network, and the prefix of an IPv6 address of the network is a
prefix of it exactly if it is mapped there.
-/
def MappedExactly (showIP : IP → String) (a : Addr) : Prop :=
  ∃ mapped, ipv6FromINET256 a = .ok mapped ∧ netPrefix.contains mapped = true ∧
    (∀ ip, netPrefix.contains ip = true → ∃ p n, inet256PrefixFromIPv6 showIP ip = .ok (p, n) ∧
      (Addr.hasPrefix a.toList p n = true ↔ mapped = ip)) ∧
    ∃ p, inet256PrefixFromIPv6 showIP mapped = .ok (p, addrZeros a + 115)

theorem ipv6_mapping_exact (showIP : IP → String) (a : Addr) (h : addrZeros a < 128) :
    MappedExactly showIP a := by
  obtain ⟨own, hown, hbits⟩ := ipv6FromINET256_eq_ok h
  have hrest : (((msbOrder.bits a.toList 256).drop (addrZeros a + 1)).take 114).length = 114 := by
    simp
    omega
  have hcontains : netPrefix.contains (.v6 own "") = true := by
    have hfront := congrArg (List.take 7) hbits
    rw [msbOrder.take_bits _ (by decide), mappedBits, List.append_assoc] at hfront
    exact beq_iff_eq.mpr (hfront.trans (List.take_left' rfl))
  refine ⟨.v6 own "", hown, hcontains, ?_, ?_⟩
  · intro ip hip
    obtain ⟨bytes, zeros, rest, rfl, hzeros, hrest', hbits'⟩ := mappedBits_of_contains hip
    obtain ⟨pre, hfound, hroom, hpre⟩ := inet256PrefixFromIPv6_eq_ok hip hzeros hrest' hbits'
    exact ⟨pre, zeros + 115, hfound,
      hasPrefix_iff_mapped h hbits hbits' hzeros hrest' hroom hpre⟩
  · obtain ⟨pre, hpre, -⟩ := inet256PrefixFromIPv6_eq_ok hcontains h hrest hbits
    exact ⟨pre, hpre⟩

def sampleShowIP (ip : IP) : String := showBytes ip.asSlice

theorem ipv6_mapping_exact_sample :
    addrZeros (copyTo 32 [0, 5]) = 13 ∧ MappedExactly sampleShowIP (copyTo 32 [0, 5]) := by
  have hzeros : addrZeros (copyTo 32 [0, 5]) = 13 := by decide +kernel
  exact ⟨hzeros, ipv6_mapping_exact _ _ (by rw [hzeros]; decide)⟩

end Inet256.Ipv6
