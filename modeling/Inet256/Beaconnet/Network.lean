import Inet256.Beaconnet.Handlers
import Mathlib.Data.Multiset.AddSub

/-!
# A network of routers

Routers joined by a swarm.  A router's sends become packets in flight under
its own address; the swarm delivers a packet to the router it is addressed to,
and may lose or duplicate any packet and deliver them in any order.
-/

namespace Inet256.Beaconnet

open Inet256.Foundation
open Inet256.Crypto

variable {P : Primitives} {ι : Type} [DecidableEq ι]

structure Packet where
  sender : Addr
  receiver : Addr
  payload : Bytes
  deriving DecidableEq

structure Net (P : Primitives) (ι : Type) where
  router : ι → Router P
  flight : Multiset Packet

inductive NetEvent (ι : Type) where
  | heartbeat (node : ι) (now : Time)
  | above (node : ι) (dst : Addr) (data : Bytes)
  | deliver (node : ι) (packet : Packet)
  | lose (packet : Packet)
  | duplicate (packet : Packet)

def packetsOf (sender : Addr) (effects : List (Effect P)) : Multiset Packet :=
  Multiset.ofList (effects.filterMap fun effect =>
    match effect with
    | .send receiver payload => some { sender, receiver, payload }
    | _ => none)

theorem mem_packetsOf {sender : Addr} {effects : List (Effect P)} {packet : Packet} :
    packet ∈ packetsOf sender effects ↔
      packet.sender = sender ∧ .send packet.receiver packet.payload ∈ effects := by
  rw [packetsOf, Multiset.mem_coe, List.mem_filterMap]
  constructor
  · rintro ⟨effect, hmem, heffect⟩
    cases effect with
    | send receiver payload =>
        cases heffect
        exact ⟨rfl, hmem⟩
    | onData => cases heffect
    | onAddr => cases heffect
    | onPublicKey => cases heffect
  · rintro ⟨rfl, hmem⟩
    exact ⟨_, hmem, rfl⟩

variable (J : JsonCodec Beacon)

namespace Net

def after (net : Net P ι) (node : ι) (r : Router P) (rest : Multiset Packet)
    (effects : List (Effect P)) : Net P ι where
  router := Function.update net.router node r
  flight := rest + packetsOf r.localID effects

def act (net : Net P ι) (node : ι) (event : RouterEvent) (rest : Multiset Packet) :
    Option (Net P ι × List (Effect P)) := do
  let (r, effects) ← (net.router node).step J event
  some (net.after node r rest effects, effects)

def step (net : Net P ι) : NetEvent ι → Option (Net P ι × List (Effect P))
  | .heartbeat node now => net.act J node (.heartbeat now) net.flight
  | .above node dst data => net.act J node (.above dst data) net.flight
  | .deliver node packet =>
      if packet ∈ net.flight ∧ packet.receiver = (net.router node).localID then
        net.act J node (.below packet.sender packet.payload) (net.flight.erase packet)
      else none
  | .lose packet =>
      if packet ∈ net.flight then
        some ({ net with flight := net.flight.erase packet }, [])
      else none
  | .duplicate packet =>
      if packet ∈ net.flight then
        some ({ net with flight := packet ::ₘ net.flight }, [])
      else none

/-- Every router was just reset, under an address of its own. -/
structure Started (net : Net P ι) : Prop where
  reset : ∀ i, ∃ base params, RouterBase.reset base params = .ok (net.router i)
  distinct : Function.Injective fun i => (net.router i).localID
  idle : net.flight = 0

def noCleanup (net : Net P ι) : NetEvent ι → Prop
  | .heartbeat node now => ¬ (net.router node).cleanupDue now
  | _ => True

instance (net : Net P ι) (event : NetEvent ι) : Decidable (net.noCleanup event) :=
  match event with
  | .heartbeat _ _ => inferInstanceAs (Decidable (¬ _))
  | .above _ _ _ => inferInstanceAs (Decidable True)
  | .deliver _ _ => inferInstanceAs (Decidable True)
  | .lose _ => inferInstanceAs (Decidable True)
  | .duplicate _ => inferInstanceAs (Decidable True)

/-! ## What an event does -/

inductive Calls (net : Net P ι) : NetEvent ι → ι → RouterEvent → Multiset Packet → Prop
  | heartbeat (node : ι) (now : Time) :
      Calls net (.heartbeat node now) node (.heartbeat now) net.flight
  | above (node : ι) (dst : Addr) (data : Bytes) :
      Calls net (.above node dst data) node (.above dst data) net.flight
  | deliver (node : ι) (packet : Packet) (rest : Multiset Packet)
      (hflight : net.flight = packet ::ₘ rest)
      (hreceiver : packet.receiver = (net.router node).localID) :
      Calls net (.deliver node packet) node (.below packet.sender packet.payload) rest

omit [DecidableEq ι] in
theorem Calls.mem_flight {net : Net P ι} {event : NetEvent ι} {node : ι}
    {revent : RouterEvent} {rest : Multiset Packet} (calls : net.Calls event node revent rest)
    {packet : Packet} (h : packet ∈ rest) : packet ∈ net.flight := by
  cases calls with
  | heartbeat => exact h
  | above => exact h
  | deliver _ delivered _ hflight _ =>
      rw [hflight]
      exact Multiset.mem_cons_of_mem h

omit [DecidableEq ι] in
theorem Calls.noCleanup {net : Net P ι} {event : NetEvent ι} {node : ι}
    {revent : RouterEvent} {rest : Multiset Packet} (calls : net.Calls event node revent rest)
    (hclean : net.noCleanup event) : (net.router node).noCleanup revent := by
  cases calls with
  | heartbeat node now => exact hclean
  | above => trivial
  | deliver => trivial

variable {J}

theorem act_eq_some {net net' : Net P ι} {node : ι} {event : RouterEvent}
    {rest : Multiset Packet} {effects : List (Effect P)}
    (h : net.act J node event rest = some (net', effects)) :
    ∃ r, (net.router node).step J event = some (r, effects) ∧
      net' = net.after node r rest effects := by
  obtain ⟨⟨r, sent⟩, hstep, h⟩ := Option.bind_eq_some_iff.mp h
  cases h
  exact ⟨r, hstep, rfl⟩

/-- An event is a handler call, or the swarm loses or duplicates a packet. -/
theorem step_cases {net net' : Net P ι} {event : NetEvent ι} {effects : List (Effect P)}
    (h : net.step J event = some (net', effects)) :
    (∃ node revent rest r, net.Calls event node revent rest ∧
      (net.router node).step J revent = some (r, effects) ∧
      net' = net.after node r rest effects) ∨
    (∃ packet ∈ net.flight, effects = [] ∧
      (event = .lose packet ∧ net' = { net with flight := net.flight.erase packet } ∨
        event = .duplicate packet ∧ net' = { net with flight := packet ::ₘ net.flight })) := by
  cases event with
  | heartbeat node now =>
      obtain ⟨r, hstep, rfl⟩ := act_eq_some h
      exact Or.inl ⟨node, _, _, r, .heartbeat node now, hstep, rfl⟩
  | above node dst data =>
      obtain ⟨r, hstep, rfl⟩ := act_eq_some h
      exact Or.inl ⟨node, _, _, r, .above node dst data, hstep, rfl⟩
  | deliver node packet =>
      rw [step] at h
      split at h
      · next hdeliver =>
          obtain ⟨r, hstep, rfl⟩ := act_eq_some h
          have hflight := (Multiset.cons_erase hdeliver.1).symm
          exact Or.inl ⟨node, _, _, r, .deliver node packet _ hflight hdeliver.2, hstep, rfl⟩
      · cases h
  | lose packet =>
      rw [step] at h
      split at h
      · next hmem =>
          cases h
          exact Or.inr ⟨packet, hmem, rfl, Or.inl ⟨rfl, rfl⟩⟩
      · cases h
  | duplicate packet =>
      rw [step] at h
      split at h
      · next hmem =>
          cases h
          exact Or.inr ⟨packet, hmem, rfl, Or.inr ⟨rfl, rfl⟩⟩
      · cases h

/-! ## Invariants of a network -/

/--
A property of every router and a property of every packet in flight, kept by
every event: each handler call keeps the first at its router and establishes
the second for what the router sends.
-/
theorem invariant_step (onRouter : ι → Router P → Prop) (onPacket : Packet → Prop)
    {net net' : Net P ι} {event : NetEvent ι} {effects : List (Effect P)}
    (hnode : ∀ node revent rest r sent, net.Calls event node revent rest →
      (net.router node).step J revent = some (r, sent) →
      onRouter node r ∧ ∀ packet ∈ packetsOf r.localID sent, onPacket packet)
    (hrouter : ∀ i, onRouter i (net.router i))
    (hflight : ∀ packet ∈ net.flight, onPacket packet)
    (h : net.step J event = some (net', effects)) :
    (∀ i, onRouter i (net'.router i)) ∧ ∀ packet ∈ net'.flight, onPacket packet := by
  rcases step_cases h with ⟨node, revent, rest, r, calls, hstep, rfl⟩ |
    ⟨packet, hmem, -, ⟨-, rfl⟩ | ⟨-, rfl⟩⟩
  · obtain ⟨hr, hsent⟩ := hnode node revent rest r effects calls hstep
    constructor
    · intro i
      by_cases hi : i = node
      · subst hi
        simpa [after] using hr
      · simpa [after, hi] using hrouter i
    · intro packet hpacket
      rcases Multiset.mem_add.mp hpacket with hpacket | hpacket
      · exact hflight packet (calls.mem_flight hpacket)
      · exact hsent packet hpacket
  · exact ⟨hrouter, fun other hother => hflight other (Multiset.mem_of_mem_erase hother)⟩
  · refine ⟨hrouter, fun other hother => ?_⟩
    rcases Multiset.mem_cons.mp hother with rfl | hother
    · exact hflight _ hmem
    · exact hflight other hother

theorem localID_step {net net' : Net P ι} {event : NetEvent ι} {effects : List (Effect P)}
    (h : net.step J event = some (net', effects)) (i : ι) :
    (net'.router i).localID = (net.router i).localID := by
  refine (invariant_step (fun i r => r.localID = (net.router i).localID) (fun _ => True)
    ?_ (fun _ => rfl) (fun _ _ => trivial) h).1 i
  intro node revent rest r sent calls hstep
  exact ⟨(Router.sameNode_step hstep).localID, fun _ _ => trivial⟩

end Net

/-! ## A concrete network -/

def sampleNet : Net samplePrimitives (Fin 3) where
  router
    | 0 => sampleRouter 1 ⟨[sampleID 2, sampleID 3], by decide⟩
    | 1 => sampleRouter 2 ⟨[sampleID 1, sampleID 3], by decide⟩
    | 2 => sampleRouter 3 ⟨[sampleID 1, sampleID 2], by decide⟩
  flight := 0

theorem sampleNet_started : sampleNet.Started where
  reset := by
    intro i
    match i with
    | 0 => exact ⟨_, _, sampleRouter_reset 1 _⟩
    | 1 => exact ⟨_, _, sampleRouter_reset 2 _⟩
    | 2 => exact ⟨_, _, sampleRouter_reset 3 _⟩
  distinct := by
    intro i j
    revert i j
    decide +kernel
  idle := rfl

def sampleFirst : Fin 3 := ⟨0, by decide⟩

def sampleSecond : Fin 3 := ⟨1, by decide⟩

def sampleThird : Fin 3 := ⟨2, by decide⟩

def sampleSecondBeacon : Beacon := { sampleBeacon 1 with counter := 6 }

def samplePacket (sender receiver : UInt8) (dst : Addr) (b : Beacon) : Packet where
  sender := sampleID sender
  receiver := sampleID receiver
  payload := (Header.make (sampleID sender) dst typeBeacon).toList ++ sampleJson.marshal b

/--
The first router's beacon goes round the triangle and comes back to it, so that
it learns a route to itself.
-/
def sampleRound : List (NetEvent (Fin 3)) :=
  [.heartbeat sampleFirst ⟨Time.unixEpoch + 6⟩,
    .deliver sampleSecond (samplePacket 1 2 broadcastAddr sampleSecondBeacon),
    .deliver sampleThird (samplePacket 2 3 broadcastAddr sampleSecondBeacon),
    .deliver sampleFirst (samplePacket 3 1 broadcastAddr sampleSecondBeacon)]

end Inet256.Beaconnet
