import Inet256.Foundation.Runtime
import Inet256.Pki.Signature

/-!
# Beaconnet messages

A message is a 65-byte header followed by a body.  The header holds the
message type, the source and the destination; the body is application data or
a signed beacon in JSON.
-/

namespace Inet256.Beaconnet

open Inet256.Foundation
open Inet256.Crypto

variable {P : Primitives}

def typeData : UInt8 := 0

def typeBeacon : UInt8 := 1

def broadcastAddr : Addr := copyTo 32 []

def headerSize : Nat := 1 + 32 + 32

abbrev Header := List.Vector UInt8 headerSize

namespace Header

def zero : Header := List.Vector.replicate headerSize 0

/-- `copy(h[start:end], part)` for a part that fits the header. -/
def copyAt (start : Nat) (part : Bytes) (hdr : Header) (h : start + part.length ≤ headerSize) :
    Header :=
  ⟨hdr.toList.take start ++ part ++ hdr.toList.drop (start + part.length), by
    simp only [List.length_append, List.length_take, List.length_drop,
      List.Vector.toList_length]
    omega⟩

def getType (hdr : Header) : UInt8 := hdr.toList.headD 0

def getSrc (hdr : Header) : Addr := idFromBytes ((hdr.toList.drop 1).take 32)

def getDst (hdr : Header) : Addr := idFromBytes ((hdr.toList.drop 33).take 32)

def setType (hdr : Header) (mtype : UInt8) : Header :=
  hdr.copyAt 0 [mtype] (by simp [headerSize])

def setSrc (hdr : Header) (src : Addr) : Header :=
  hdr.copyAt 1 src.toList (by simp [headerSize])

def setDst (hdr : Header) (dst : Addr) : Header :=
  hdr.copyAt 33 dst.toList (by simp [headerSize])

def make (src dst : Addr) (mtype : UInt8) : Header :=
  ((zero.setSrc src).setDst dst).setType mtype

theorem make_toList (src dst : Addr) (mtype : UInt8) :
    (make src dst mtype).toList = mtype :: (src.toList ++ dst.toList) := by
  have hzero : zero.toList = List.replicate (1 + 32 + 32) 0 := rfl
  have hsrc : (zero.setSrc src).toList = 0 :: src.toList ++ List.replicate 32 0 := by
    simp [setSrc, copyAt, hzero, List.Vector.toList_mk]
  have hdst : ((zero.setSrc src).setDst dst).toList =
      0 :: src.toList ++ dst.toList := by
    simp [setDst, copyAt, hsrc, List.Vector.toList_mk]
  simp [make, setType, copyAt, hdst, List.Vector.toList_mk]

@[simp] theorem getType_make (src dst : Addr) (mtype : UInt8) :
    (make src dst mtype).getType = mtype := by
  rw [getType, make_toList, List.headD_cons]

@[simp] theorem getSrc_make (src dst : Addr) (mtype : UInt8) :
    (make src dst mtype).getSrc = src := by
  simp [getSrc, make_toList, idFromBytes]

@[simp] theorem getDst_make (src dst : Addr) (mtype : UInt8) :
    (make src dst mtype).getDst = dst := by
  have hall : dst.toList.take 32 = dst.toList :=
    List.take_of_length_le (by simp)
  simp [getDst, make_toList, idFromBytes, hall]

end Header

def parseMessage (data : Bytes) : Go (Header × Bytes) :=
  if data.length < headerSize then fail "not long enough to contain header"
  else .ok (copyTo headerSize (data.take headerSize), data.drop headerSize)

@[simp] theorem parseMessage_append (hdr : Header) (body : Bytes) :
    parseMessage (hdr.toList ++ body) = .ok (hdr, body) := by
  have hlength : hdr.toList.length = headerSize := hdr.toList_length
  rw [parseMessage, if_neg (by simp)]
  rw [List.take_append_of_le_length hlength.ge, List.take_of_length_le hlength.le,
    List.drop_append_of_le_length hlength.ge, List.drop_of_length_le hlength.le,
    copyTo_toList, List.nil_append]

/-! ## Beacons -/

structure Beacon where
  publicKey : Bytes
  counter : UInt64
  sig : Bytes
  deriving DecidableEq

def sigPurpose (P : Primitives) : SigCtx :=
  sigCtxString P (ascii "inet256/beaconnet/beacon")

def counterBytes (counter : UInt64) : Bytes := beBytes 8 counter.toNat

def newBeacon (key : PrivateKey P) (now : Time) : Go Beacon := do
  let counter := now.unixNano
  let sig ← sign (some (sigPurpose P)) key (counterBytes counter) []
  let publicKey ← marshalPublicKey [] key.public
  return { publicKey, counter, sig }

def verifyBeacon (P : Primitives) (b : Beacon) : Go (PublicKey P) := do
  let key ← parsePublicKey b.publicKey
  let valid ← verify (some (sigPurpose P)) key (counterBytes b.counter) b.sig
  if valid then return key
  else fail "verifyBeacon: invalid signature"

theorem newBeacon_eq_ok {key : PrivateKey P} {now : Time} {b : Beacon}
    (h : newBeacon key now = .ok b) :
    marshalPublicKey [] key.public = .ok b.publicKey ∧ b.counter = now.unixNano := by
  obtain ⟨sig, -, h⟩ := Go.bind_eq_ok.mp h
  obtain ⟨publicKey, hkey, h⟩ := Go.bind_eq_ok.mp h
  cases h
  exact ⟨hkey, rfl⟩

theorem parse_of_verifyBeacon {b : Beacon} {key : PublicKey P}
    (h : verifyBeacon P b = .ok key) : parsePublicKey b.publicKey = .ok key := by
  obtain ⟨parsed, hparse, h⟩ := Go.bind_eq_ok.mp h
  obtain ⟨valid, -, h⟩ := Go.bind_eq_ok.mp h
  cases valid with
  | false => cases h
  | true =>
      cases h
      exact hparse

/-- A beacon made with a key verifies, if at all, as that key. -/
theorem verifyBeacon_newBeacon (laws : LawfulKeys P) {key : PrivateKey P} {now : Time}
    {b : Beacon} {verified : PublicKey P} (hnew : newBeacon key now = .ok b)
    (hverify : verifyBeacon P b = .ok verified) : verified = key.public := by
  have hparse := parse_of_verifyBeacon hverify
  rw [parsePublicKey_marshalPublicKey laws (newBeacon_eq_ok hnew).1] at hparse
  exact (Except.ok.inj hparse).symm

/-! ### A concrete codec -/

/-- The counter, then the public key behind its length in unary, then the signature. -/
def sampleJson : JsonCodec Beacon where
  marshal b := counterBytes b.counter ++
    (List.replicate b.publicKey.length 0 ++ 1 :: (b.publicKey ++ b.sig))
  unmarshal data :=
    let rest := data.drop 8
    let width := (rest.takeWhile (· == 0)).length
    .ok {
      publicKey := (rest.drop (width + 1)).take width
      counter := UInt64.ofNat (beValue (data.take 8))
      sig := (rest.drop (width + 1)).drop width }
  unmarshal_marshal := by
    intro b
    have hword : (counterBytes b.counter).length = 8 := beBytes_length 8 _
    have hvalue : UInt64.ofNat (beValue (counterBytes b.counter)) = b.counter := by
      rw [counterBytes, beValue_beBytes (by simpa using b.counter.toNat_lt),
        UInt64.ofNat_toNat]
    have hdrop : (List.replicate b.publicKey.length (0 : UInt8) ++
        1 :: (b.publicKey ++ b.sig)).drop (b.publicKey.length + 1) =
          b.publicKey ++ b.sig := by
      simp [List.drop_append]
    rw [List.drop_append_of_le_length hword.ge, List.drop_of_length_le hword.le,
      List.take_append_of_le_length hword.ge, List.take_of_length_le hword.le,
      List.nil_append]
    simp [hvalue, hdrop]

end Inet256.Beaconnet
