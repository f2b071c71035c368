import Inet256.Beaconnet.Message
import Inet256.Foundation.Runs
import Inet256.Pki.Addr

/-!
# The beaconnet router

A router learns routes from beacons and forwards data along them.  Its
handlers are translated as functions from the router's state to the next state
and the list of calls they make on their context; a handler that panics has no
next state.
-/

namespace Inet256.Beaconnet

open Inet256.Foundation
open Inet256.Crypto

variable {P : Primitives}

structure PeerState (P : Primitives) where
  next : Addr
  counter : UInt64
  publicKey : PublicKey P
  deriving DecidableEq

structure PeerSet where
  list : List Addr
  nodup : list.Nodup
  deriving DecidableEq

def PeerSet.contains (peers : PeerSet) (addr : Addr) : Bool := peers.list.contains addr

structure RouterParams (P : Primitives) where
  privateKey : PrivateKey P
  peers : PeerSet
  now : Time

structure RouterBase where
  peerStateTTL : Duration
  beaconPeriod : Duration
  lastCleanup : Time
  lastBeacon : Time
  deriving DecidableEq

structure Router (P : Primitives) extends RouterBase where
  privateKey : PrivateKey P
  peers : PeerSet
  localID : Addr
  peerStates : GoMap Addr (PeerState P)
  ourBeacon : Beacon

def newRouter : RouterBase where
  peerStateTTL := 30 * second
  beaconPeriod := 1 * second
  lastCleanup := Time.zero
  lastBeacon := Time.zero

def RouterBase.reset (base : RouterBase) (params : RouterParams P) : Go (Router P) := do
  let localID ← newID params.privateKey.public
  let ourBeacon ← newBeacon params.privateKey params.now
  return {
    base with
    privateKey := params.privateKey
    peers := params.peers
    localID
    peerStates := ∅
    ourBeacon }

/-- The calls a handler makes on its context. -/
inductive Effect (P : Primitives) where
  | send (dst : Addr) (payload : Bytes)
  | onData (src : Addr) (body : Bytes)
  | onAddr (addr : Addr)
  | onPublicKey (addr : Addr) (key : PublicKey P)
  deriving DecidableEq

namespace Router

/-! ## Tables and sending -/

def lookupPeerState (r : Router P) (dst : Addr) : Option (PeerState P) :=
  r.peerStates.lookup dst

def lookupPublicKey (r : Router P) (target : Addr) : Option (PublicKey P) :=
  (r.lookupPeerState target).map PeerState.publicKey

/-- The entry is written back even when the beacon is not newer. -/
def updatePeerState (r : Router P) (next : Addr) (key : PublicKey P)
    (counter : UInt64) : Go (Router P × Bool × Bool) := do
  let peer ← newID key
  let fresh : PeerState P := { next, counter, publicKey := key }
  match r.peerStates.lookup peer with
  | none =>
      return ({ r with peerStates := r.peerStates.insert peer fresh }, true, true)
  | some ps =>
      if ps.counter < counter then
        return ({ r with peerStates := r.peerStates.insert peer fresh }, true, false)
      else
        return ({ r with peerStates := r.peerStates.insert peer ps }, false, false)

def broadcast (r : Router P) (exclude : Addr) (mtype : UInt8) (body : Bytes) :
    List (Effect P) :=
  (r.peers.list.filter fun peer => peer ≠ exclude).map fun peer =>
    .send peer ((Header.make r.localID broadcastAddr mtype).toList ++ body)

def send (r : Router P) (next dst : Addr) (mtype : UInt8) (body : Bytes) : Effect P :=
  .send next ((Header.make r.localID dst mtype).toList ++ body)

def cleanupOnce (r : Router P) (now : Time) : Router P :=
  { r with
    peerStates := r.peerStates.filter fun _ ps =>
      -- the difference is taken in 64 bits and read back as a signed duration
      decide ((now.unixNano - ps.counter).toInt64.toInt ≤ r.peerStateTTL) }

/-! ## Handlers -/

def nextHop (r : Router P) (dst : Addr) : Option Addr :=
  if r.peers.contains dst then some dst
  else (r.lookupPeerState dst).map PeerState.next

def handleAbove (r : Router P) (dst : Addr) (data : Bytes) : Bool × List (Effect P) :=
  match r.nextHop dst with
  | none => (false, [])
  | some next => (true, [r.send next dst typeData data])

/-- The cleanup test subtracts the new time from the old one. -/
def cleanupDue (r : Router P) (now : Time) : Prop :=
  r.peerStateTTL ≤ r.lastCleanup.sub now

instance (r : Router P) (now : Time) : Decidable (r.cleanupDue now) :=
  inferInstanceAs (Decidable (_ ≤ _))

def cleanupIfDue (r : Router P) (now : Time) : Router P :=
  if r.cleanupDue now then { r.cleanupOnce now with lastCleanup := now } else r

def announced (r : Router P) (b : Beacon) (now : Time) : Router P :=
  { r with ourBeacon := b, lastBeacon := now }

variable (J : JsonCodec Beacon)

def heartbeat (r : Router P) (now : Time) : Go (Router P × List (Effect P)) := do
  let r := r.cleanupIfDue now
  if r.beaconPeriod ≤ now.sub r.lastBeacon then
    let b ← newBeacon r.privateKey now
    return (r.announced b now, r.broadcast r.localID typeBeacon (J.marshal b))
  else
    return (r, [])

def handleBeacon (r : Router P) (prev : Addr) (hdr : Header) (b : Beacon) :
    Go (Router P × List (Effect P)) := do
  let key ← verifyBeacon P b
  let (r, updated, created) ← r.updatePeerState prev key b.counter
  let data := J.marshal b
  let flooded :=
    if updated ∧ hdr.getDst = broadcastAddr then r.broadcast prev typeBeacon data
    else []
  let targeted :=
    if hdr.getDst ≠ broadcastAddr then
      match r.lookupPeerState hdr.getDst with
      | none => []
      | some ps => [r.send ps.next hdr.getDst typeBeacon data]
    else []
  let reply :=
    if created then [r.send prev hdr.getSrc typeBeacon (J.marshal r.ourBeacon)]
    else []
  let addr ← newID key
  return (r, flooded ++ targeted ++ reply ++ [.onAddr addr, .onPublicKey addr key])

def handleData (r : Router P) (hdr : Header) (body : Bytes) : Go (List (Effect P)) :=
  if hdr.getDst = r.localID then return [.onData hdr.getSrc body]
  else if r.peers.contains hdr.getDst then
    return [.send hdr.getDst (hdr.toList ++ body)]
  else
    match r.lookupPeerState hdr.getDst with
    | none => fail s!"cannot forward. don't know next hop to {Addr.string hdr.getDst}"
    | some ps => return [.send ps.next (hdr.toList ++ body)]

def handleMessage (r : Router P) (sender : Addr) (payload : Bytes) :
    Go (Router P × List (Effect P)) := do
  let (hdr, body) ← parseMessage payload
  if hdr.getType = typeBeacon then
    let b ← J.unmarshal body
    r.handleBeacon J sender hdr b
  else if hdr.getType = typeData then
    let effects ← r.handleData hdr body
    return (r, effects)
  else
    fail s!"invalid message type {hdr.getType}"

/-- Errors are logged; they arise before any effect, so nothing happened. -/
def handleBelow (r : Router P) (sender : Addr) (payload : Bytes) :
    Go (Router P × List (Effect P)) :=
  match r.handleMessage J sender payload with
  | .error (.error _) => .ok (r, [])
  | .error (.panic text) => crash text
  | .ok result => .ok result

end Router

/-! ## A concrete router -/

def sampleID (byte : UInt8) : Addr :=
  copyTo 32 (writeTag [] signAlgoEd25519 ++ [byte])

def sampleNow : Time := ⟨Time.unixEpoch + 5⟩

def sampleParams (byte : UInt8) (peers : PeerSet) : RouterParams samplePrimitives where
  privateKey := .base (sampleSigner byte)
  peers := peers
  now := sampleNow

def sampleBeacon (byte : UInt8) : Beacon where
  publicKey := writeTag [] signAlgoEd25519 ++ [byte]
  counter := 5
  sig := byte :: sigInput samplePrimitives (sigPurpose samplePrimitives) []

def sampleNeighbour : PeerSet := ⟨[sampleID 2], List.nodup_singleton _⟩

def sampleRouter (byte : UInt8) (peers : PeerSet) : Router samplePrimitives :=
  { newRouter with
    privateKey := .base (sampleSigner byte)
    peers
    localID := sampleID byte
    peerStates := ∅
    ourBeacon := sampleBeacon byte }

theorem sampleRouter_reset (byte : UInt8) (peers : PeerSet) :
    newRouter.reset (sampleParams byte peers) = .ok (sampleRouter byte peers) := by
  rfl

end Inet256.Beaconnet
