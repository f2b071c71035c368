import Inet256.Ipv6.AddrMap

/-!
# The inbound half of the IPv6 portal

Messages received from the network carry whole IPv6 packets.  A packet is
written to the device if its sender is allowed and its header names the address
the sender is mapped to.
-/

namespace Inet256.Ipv6

open Inet256.Foundation
open Inet256.Bitstr

structure Message where
  src : Addr
  dst : Addr
  payload : Bytes

/-- What the portal reads of an `ipv6.Header`: both are 16-byte `net.IP` values. -/
structure Header where
  src : List.Vector UInt8 16
  dst : List.Vector UInt8 16

structure Portal where
  af : Addr → Bool
  /-- `ipv6.ParseHeader`. -/
  parseHeader : Bytes → Except String Header
  /-- `netip.Addr.String`. -/
  showIP : IP → String

def v4InV6Prefix : Bytes := [0, 0, 0, 0, 0, 0, 0, 0, 0, 0, 255, 255]

/-- `net.IP.Equal`, which takes an IPv4 address for the IPv6 address it is embedded in. -/
def ipEqual (ip x : Bytes) : Bool :=
  if ip.length = x.length then ip == x
  else if ip.length = 4 ∧ x.length = 16 then x.take 12 == v4InV6Prefix && ip == x.drop 12
  else if ip.length = 16 ∧ x.length = 4 then ip.take 12 == v4InV6Prefix && ip.drop 12 == x
  else false

/-- The packet that is written to the device; `writeErr` is what the device answers. -/
def Portal.handleInbound (p : Portal) (src : Addr) (data : Bytes) (writeErr : Option String) :
    Go Bytes := do
  match p.parseHeader data with
  | .error err => fail err
  | .ok header =>
      let srcIP ← ipv6FromINET256 src
      if !ipEqual header.src.toList srcIP.asSlice then
        fail "dropping inbound message from wrong source"
      else
        match writeErr with
        | some err => fail err
        | none => return data

/-- What `Receive` returns, with the answer the device gives if the message is written to it. -/
inductive Received where
  | message (msg : Message) (writeErr : Option String)
  | failed (err : String)

inductive LoopState where
  | receiving
  | returned (fault : Fault)
  deriving DecidableEq

/-- The packets written while these are received, and what has become of the loop. -/
def Portal.inboundLoop (p : Portal) : List Received → List Bytes × LoopState
  | [] => ([], .receiving)
  | .failed err :: _ => ([], .returned (.error err))
  | .message msg writeErr :: rest =>
      if !p.af msg.src then p.inboundLoop rest
      else
        match p.handleInbound msg.src msg.payload writeErr with
        | .error fault => ([], .returned fault)
        | .ok packet =>
            let (packets, state) := p.inboundLoop rest
            (packet :: packets, state)

/-! ## What should be written -/

/-- The packet parses and comes from the address its sender is mapped to. -/
def Portal.genuine (p : Portal) (msg : Message) : Bool :=
  match p.parseHeader msg.payload, ipv6FromINET256 msg.src with
  | .ok header, .ok ip => header.src.toList == ip.asSlice
  | _, _ => false

/--
The payloads of the genuine messages from allowed senders are written in order, and the loop goes
on receiving.
-/
def Portal.Filters (p : Portal) (msgs : List Message) : Prop :=
  p.inboundLoop (msgs.map fun msg => .message msg none) =
    ((msgs.filter fun msg => p.af msg.src && p.genuine msg).map Message.payload, .receiving)

theorem handleInbound_of_genuine {p : Portal} {msg : Message} (h : p.genuine msg = true) :
    p.handleInbound msg.src msg.payload none = .ok msg.payload := by
  unfold Portal.genuine at h
  split at h
  · next header ip hheader hip =>
      have hsame : header.src.toList = ip.asSlice := eq_of_beq h
      simp [Portal.handleInbound, hheader, hip, ipEqual, hsame]
  · cases h

theorem handleInbound_of_not_genuine {p : Portal} {msg : Message} (h : p.genuine msg = false) :
    ∃ fault, p.handleInbound msg.src msg.payload none = .error fault := by
  unfold Portal.genuine at h
  cases hheader : p.parseHeader msg.payload with
  | error err => exact ⟨.error err, by simp [Portal.handleInbound, hheader, fail]⟩
  | ok header =>
      cases hip : ipv6FromINET256 msg.src with
      | error fault =>
          exact ⟨fault, by simp [Portal.handleInbound, hheader, hip, bind, Except.bind]⟩
      | ok ip =>
          have hlength := length_asSlice_ipv6FromINET256 hip
          have hne : header.src.toList ≠ ip.asSlice := by simpa [hheader, hip] using h
          refine ⟨.error "dropping inbound message from wrong source", ?_⟩
          simp [Portal.handleInbound, hheader, hip, ipEqual, hlength, hne, fail]

theorem inboundLoop_message (p : Portal) (msg : Message) (rest : List Received) :
    p.inboundLoop (.message msg none :: rest) =
      if !p.af msg.src then p.inboundLoop rest
      else
        match p.handleInbound msg.src msg.payload none with
        | .error fault => ([], .returned fault)
        | .ok packet => (packet :: (p.inboundLoop rest).1, (p.inboundLoop rest).2) := rfl

theorem inbound_filters_iff (p : Portal) (msgs : List Message) :
    p.Filters msgs ↔ ∀ msg ∈ msgs, p.af msg.src = true → p.genuine msg = true := by
  induction msgs with
  | nil => simp [Portal.Filters, Portal.inboundLoop]
  | cons msg msgs ih =>
      unfold Portal.Filters at ih ⊢
      rw [List.map_cons, inboundLoop_message, List.forall_mem_cons]
      cases hallowed : p.af msg.src with
      | false => simpa [hallowed] using ih
      | true =>
          cases hgenuine : p.genuine msg with
          | true =>
              rw [handleInbound_of_genuine hgenuine]
              simpa [hallowed, hgenuine, Prod.ext_iff] using ih
          | false =>
              obtain ⟨fault, hfault⟩ := handleInbound_of_not_genuine hgenuine
              rw [hfault]
              simp

/-! ### A message that ends the loop -/

/-- The base header as it is laid out in a packet. -/
def sampleParseHeader (data : Bytes) : Except String Header :=
  if data.length < 40 then .error "header too short"
  else .ok { src := copyTo 16 (data.drop 8), dst := copyTo 16 (data.drop 24) }

def samplePortal : Portal := ⟨fun _ => true, sampleParseHeader, sampleShowIP⟩

def sampleSender : Addr := copyTo 32 [128]

/-- A packet from `0200::`, the address of the sender. -/
def samplePacket : Bytes :=
  List.replicate 8 0 ++ 2 :: List.replicate 15 0 ++ List.replicate 16 0

/-- After a payload that is no packet the genuine one is not written any more. -/
theorem inbound_stops :
    let msgs : List Message := [⟨sampleSender, sampleSender, []⟩,
      ⟨sampleSender, sampleSender, samplePacket⟩]
    (∀ msg ∈ msgs, addrZeros msg.src < 128) ∧
      (msgs.filter fun msg => samplePortal.af msg.src && samplePortal.genuine msg).map
        Message.payload = [samplePacket] ∧
      samplePortal.inboundLoop (msgs.map fun msg => .message msg none) =
        ([], .returned (.error "header too short")) ∧
      ¬ samplePortal.Filters msgs := by
  intro msgs
  have hwritten : samplePortal.inboundLoop (msgs.map fun msg => .message msg none) =
      ([], .returned (.error "header too short")) := rfl
  refine ⟨by decide +kernel, by decide +kernel, hwritten, fun h => ?_⟩
  rw [Portal.Filters, hwritten] at h
  obtain ⟨-, hstate⟩ := Prod.mk.inj h
  cases hstate

end Inet256.Ipv6
