import Inet256.Beaconnet.Network
import Inet256.Foundation.Matching
import Mathlib.Data.Multiset.Filter

/-!
# Application data

Data that a router accepts from above travels unchanged until the router it is
addressed to hands it up.  Counting datagrams shows that nothing is delivered
more often than it was accepted, as long as the swarm duplicates nothing.
-/

namespace Inet256.Beaconnet

open Inet256.Foundation
open Inet256.Crypto

variable {P : Primitives} {J : JsonCodec Beacon}

structure Datagram where
  src : Addr
  dst : Addr
  body : Bytes
  deriving DecidableEq

def datagramOf (payload : Bytes) : Option Datagram :=
  match parseMessage payload with
  | .ok (hdr, body) =>
      if hdr.getType = typeData then some ⟨hdr.getSrc, hdr.getDst, body⟩ else none
  | .error _ => none

theorem datagramOf_append (hdr : Header) (body : Bytes) :
    datagramOf (hdr.toList ++ body) =
      if hdr.getType = typeData then some ⟨hdr.getSrc, hdr.getDst, body⟩ else none := by
  rw [datagramOf, parseMessage_append]

theorem datagramOf_beacon (src dst : Addr) (body : Bytes) :
    datagramOf ((Header.make src dst typeBeacon).toList ++ body) = none := by
  rw [datagramOf_append, Header.getType_make, if_neg (by decide)]

/-! ## One router -/

def dataSent (effects : List (Effect P)) : List Datagram :=
  effects.filterMap fun effect =>
    match effect with
    | .send _ payload => datagramOf payload
    | _ => none

def dataUp (localID : Addr) (effects : List (Effect P)) : Option Datagram :=
  effects.findSome? fun effect =>
    match effect with
    | .onData src body => some ⟨src, localID, body⟩
    | _ => none

def Effect.NoData : Effect P → Prop
  | .send _ payload => datagramOf payload = none
  | .onData _ _ => False
  | .onAddr _ => True
  | .onPublicKey _ _ => True

theorem dataSent_of_noData {effects : List (Effect P)} (h : ∀ effect ∈ effects, effect.NoData) :
    dataSent effects = [] := by
  refine List.filterMap_eq_nil_iff.mpr ?_
  intro effect heffect
  have hnone := h effect heffect
  cases effect with
  | send dst payload => exact hnone
  | onData => cases hnone
  | onAddr => rfl
  | onPublicKey => rfl

theorem dataUp_of_noData {localID : Addr} {effects : List (Effect P)}
    (h : ∀ effect ∈ effects, effect.NoData) : dataUp localID effects = none := by
  refine List.findSome?_eq_none_iff.mpr ?_
  intro effect heffect
  have hnone := h effect heffect
  cases effect with
  | send => rfl
  | onData => cases hnone
  | onAddr => rfl
  | onPublicKey => rfl

theorem noData_broadcast {r : Router P} {exclude : Addr} {body : Bytes} {effect : Effect P}
    (h : effect ∈ r.broadcast exclude typeBeacon body) : effect.NoData := by
  obtain ⟨peer, -, rfl⟩ := List.mem_map.mp h
  exact datagramOf_beacon r.localID broadcastAddr body

theorem noData_beaconEffects {r : Router P} {sender : Addr} {v : VerifiedBeacon P}
    {effect : Effect P} (h : effect ∈ r.beaconEffects J sender v) : effect.NoData := by
  simp only [Router.beaconEffects, List.mem_append] at h
  rcases h with ((hflood | hforward) | hreply) | hreport
  · split at hflood
    · exact noData_broadcast hflood
    · cases hflood
  · split at hforward
    · split at hforward
      · cases hforward
      · rw [List.mem_singleton.mp hforward]
        exact datagramOf_beacon _ _ _
    · cases hforward
  · split at hreply
    · rw [List.mem_singleton.mp hreply]
      exact datagramOf_beacon _ _ _
    · cases hreply
  · simp only [List.mem_cons, List.not_mem_nil, or_false] at hreport
    rcases hreport with rfl | rfl <;> trivial

/-- A datagram is handed up at its destination, or goes on unchanged. -/
theorem handleData_conserves {r : Router P} {hdr : Header} {body : Bytes}
    {effects : List (Effect P)} (h : r.handleData hdr body = .ok effects)
    (htype : hdr.getType = typeData) :
    (effects = [.onData hdr.getSrc body] ∧ hdr.getDst = r.localID ∧ dataSent effects = []) ∨
    (dataUp r.localID effects = none ∧
      dataSent effects = [⟨hdr.getSrc, hdr.getDst, body⟩]) := by
  unfold Router.handleData at h
  split at h
  · next hlocal =>
      cases h
      exact Or.inl ⟨rfl, hlocal, rfl⟩
  · split at h
    · cases h
      exact Or.inr ⟨rfl, by simp [dataSent, datagramOf_append, htype]⟩
    · split at h
      · cases h
      · cases h
        exact Or.inr ⟨rfl, by simp [dataSent, datagramOf_append, htype]⟩

/-- What goes on and what is handed up is at most what arrived. -/
theorem Router.data_below {r r' : Router P} {sender : Addr} {payload : Bytes}
    {effects : List (Effect P)} (h : r.step J (.below sender payload) = some (r', effects)) :
    (dataSent effects ++ (dataUp r.localID effects).toList).Sublist
      (datagramOf payload).toList := by
  rcases Router.step_cases h with ⟨sender, payload, v, hevent, hread, rfl, rfl⟩ |
    ⟨sender, payload, hevent, -, rfl, heffects⟩ | ⟨_, _, hevent, -⟩ | ⟨_, hevent, -⟩
  · rw [dataSent_of_noData fun _ => noData_beaconEffects,
      dataUp_of_noData fun _ => noData_beaconEffects]
    simp
  · cases hevent
    rcases heffects with rfl | ⟨hdr, body, hparse, htype, hdata⟩
    · simp [dataSent, dataUp]
    · have harrived : datagramOf payload = some ⟨hdr.getSrc, hdr.getDst, body⟩ := by
        rw [datagramOf, hparse]
        simp [htype]
      rw [harrived]
      rcases handleData_conserves hdata htype with ⟨rfl, hlocal, hsent⟩ | ⟨hup, hsent⟩
      · rw [hsent, hlocal]
        simp [dataUp]
      · rw [hsent, hup]
        simp
  · cases hevent
  · cases hevent

theorem Router.data_above {r r' : Router P} {dst : Addr} {data : Bytes}
    {effects : List (Effect P)} (h : r.step J (.above dst data) = some (r', effects)) :
    dataSent effects = (if effects = [] then [] else [⟨r.localID, dst, data⟩]) := by
  cases h
  unfold Router.handleAbove
  split
  · rfl
  · simp [dataSent, Router.send, datagramOf_append]

theorem Router.data_heartbeat {r r' : Router P} {now : Time} {effects : List (Effect P)}
    (h : r.step J (.heartbeat now) = some (r', effects)) : dataSent effects = [] := by
  rcases Router.heartbeat_cases (toOption_eq_some.mp h) with ⟨-, rfl⟩ | ⟨b, -, -, rfl⟩
  · rfl
  · exact dataSent_of_noData fun _ => noData_broadcast

/-- A call hands up at most one datagram, and only when a message arrives. -/
theorem Router.onData_step {r r' : Router P} {event : RouterEvent}
    {effects : List (Effect P)} (h : r.step J event = some (r', effects)) {src : Addr}
    {body : Bytes} (hdata : Effect.onData src body ∈ effects) :
    effects = [.onData src body] ∧ ∃ sender payload, event = .below sender payload := by
  rcases Router.step_cases h with ⟨sender, payload, v, rfl, hread, rfl, rfl⟩ |
    ⟨sender, payload, rfl, -, rfl, rfl | ⟨hdr, received, -, htype, hhandled⟩⟩ |
    ⟨dst, data, rfl, rfl, rfl⟩ | ⟨now, rfl, hbeat⟩
  · exact (noData_beaconEffects hdata).elim
  · cases hdata
  · rcases handleData_conserves hhandled htype with ⟨rfl, -, -⟩ | ⟨hup, -⟩
    · cases List.mem_singleton.mp hdata
      exact ⟨rfl, sender, payload, rfl⟩
    · have hnone := List.findSome?_eq_none_iff.mp hup _ hdata
      cases hnone
  · unfold Router.handleAbove at hdata
    split at hdata
    · cases hdata
    · cases List.mem_singleton.mp hdata
  · rcases Router.heartbeat_cases hbeat with ⟨-, rfl⟩ | ⟨b, -, -, rfl⟩
    · cases hdata
    · exact (noData_broadcast hdata).elim

/-! ## The network -/

variable {ι : Type} [DecidableEq ι]

def Packet.datagram (packet : Packet) : Option Datagram := datagramOf packet.payload

theorem datagrams_packetsOf (sender : Addr) (effects : List (Effect P)) :
    (packetsOf sender effects).filterMap Packet.datagram =
      Multiset.ofList (dataSent effects) := by
  rw [packetsOf, Multiset.filterMap_coe, List.filterMap_filterMap]
  congr 1
  refine List.filterMap_congr fun effect _ => ?_
  cases effect <;> rfl

def acceptedBy (addr : ι → Addr) (entry : NetEvent ι × List (Effect P)) : Option Datagram :=
  match entry.1 with
  | .above node dst data => if entry.2 = [] then none else some ⟨addr node, dst, data⟩
  | _ => none

def deliveredBy (addr : ι → Addr) (entry : NetEvent ι × List (Effect P)) : Option Datagram :=
  match entry.1 with
  | .deliver node _ => dataUp (addr node) entry.2
  | _ => none

def Net.noDuplicate (_ : Net P ι) : NetEvent ι → Prop
  | .duplicate _ => False
  | _ => True

instance (net : Net P ι) (event : NetEvent ι) : Decidable (net.noDuplicate event) :=
  match event with
  | .duplicate _ => inferInstanceAs (Decidable False)
  | .heartbeat _ _ => inferInstanceAs (Decidable True)
  | .above _ _ _ => inferInstanceAs (Decidable True)
  | .deliver _ _ => inferInstanceAs (Decidable True)
  | .lose _ => inferInstanceAs (Decidable True)

def datagramsIn (flight : Multiset Packet) : Multiset Datagram :=
  flight.filterMap Packet.datagram

theorem datagramsIn_cons (packet : Packet) (rest : Multiset Packet) :
    datagramsIn (packet ::ₘ rest) =
      Multiset.ofList packet.datagram.toList + datagramsIn rest := by
  unfold datagramsIn
  cases hpacket : packet.datagram with
  | none =>
      rw [Multiset.filterMap_cons_none _ _ hpacket]
      simp
  | some datagram =>
      rw [Multiset.filterMap_cons_some _ _ _ hpacket]
      rfl

/-- One event: what is in flight and handed up was in flight or is taken on. -/
theorem datagrams_step {addr : ι → Addr} {net net' : Net P ι} {event : NetEvent ι}
    {effects : List (Effect P)} (haddr : ∀ i, (net.router i).localID = addr i)
    (hswarm : net.noDuplicate event) (h : net.step J event = some (net', effects)) :
    datagramsIn net'.flight + Multiset.ofList (deliveredBy addr (event, effects)).toList ≤
      datagramsIn net.flight + Multiset.ofList (acceptedBy addr (event, effects)).toList := by
  rcases Net.step_cases h with ⟨node, revent, rest, r, calls, hstep, rfl⟩ |
    ⟨packet, hmem, rfl, ⟨rfl, rfl⟩ | ⟨rfl, -⟩⟩
  · have hflight : datagramsIn (net.after node r rest effects).flight =
        datagramsIn rest + Multiset.ofList (dataSent effects) := by
      rw [datagramsIn, Net.after, Multiset.filterMap_add, datagrams_packetsOf]
      rfl
    rw [hflight]
    cases calls with
    | heartbeat node now =>
        rw [Router.data_heartbeat hstep]
        simp [deliveredBy, acceptedBy]
    | above node dst data =>
        rw [Router.data_above hstep, haddr node]
        simp only [deliveredBy, acceptedBy]
        split <;> simp
    | deliver node packet rest hcons hreceiver =>
        have hbelow := Multiset.coe_le.mpr (Router.data_below hstep).subperm
        rw [haddr node, ← Multiset.coe_add] at hbelow
        rw [hcons, datagramsIn_cons, add_comm (Multiset.ofList packet.datagram.toList),
          add_assoc]
        simp only [deliveredBy, acceptedBy, Option.toList_none, Multiset.coe_nil, add_zero]
        exact add_le_add_right hbelow _
  · have hle : datagramsIn (net.flight.erase packet) ≤ datagramsIn net.flight :=
      Multiset.filterMap_le_filterMap _ (Multiset.erase_le _ _)
    simpa [deliveredBy, acceptedBy] using hle
  · cases hswarm

theorem filterMap_concat {ε κ : Type} (item : ε → Option κ) (history : List ε) (last : ε) :
    Multiset.ofList ((history ++ [last]).filterMap item) =
      Multiset.ofList (history.filterMap item) + Multiset.ofList (item last).toList := by
  rw [List.filterMap_append, ← Multiset.coe_add]
  cases hlast : item last <;> simp [hlast]

theorem balance_step {flight flight' delivered accepted up taken : Multiset Datagram}
    (hle : flight + delivered ≤ accepted) (hone : flight' + up ≤ flight + taken) :
    flight' + (delivered + up) ≤ accepted + taken :=
  calc flight' + (delivered + up)
      = delivered + (flight' + up) := add_left_comm _ _ _
    _ ≤ delivered + (flight + taken) := add_le_add_right hone _
    _ = flight + delivered + taken := by rw [← add_assoc, add_comm delivered]
    _ ≤ accepted + taken := add_le_add_left hle _

/-- Over a run: what is in flight and was handed up had been taken on. -/
theorem datagrams_run {net₀ net : Net P ι} {history : List (NetEvent ι × List (Effect P))}
    (hidle : net₀.flight = 0)
    (run : Runs (Net.step J) Net.noDuplicate net₀ history net) :
    datagramsIn net.flight + Multiset.ofList
        (history.filterMap (deliveredBy fun i => (net₀.router i).localID)) ≤
      Multiset.ofList (history.filterMap (acceptedBy fun i => (net₀.router i).localID)) ∧
    ∀ i, (net.router i).localID = (net₀.router i).localID := by
  induction run with
  | refl => simp [hidle, datagramsIn]
  | @next history net net' event effects _ hswarm hstep ih =>
      obtain ⟨hle, haddr⟩ := ih
      constructor
      · have hone := datagrams_step haddr hswarm hstep
        rw [filterMap_concat, filterMap_concat]
        exact balance_step hle hone
      · intro i
        rw [Net.localID_step hstep, haddr]

/-! ## Delivery at most once -/

def HandsUp (history : List (NetEvent ι × List (Effect P))) (position : Nat) (node : ι)
    (src : Addr) (body : Bytes) : Prop :=
  ∃ packet effects, history[position]? = some (.deliver node packet, effects) ∧
    .onData src body ∈ effects

def TakesOn (history : List (NetEvent ι × List (Effect P))) (position : Nat) (node : ι)
    (dst : Addr) (body : Bytes) : Prop :=
  ∃ effects, history[position]? = some (.above node dst body, effects) ∧ effects ≠ []

/--
Data is handed up by deliveries alone, one datagram each, and every datagram
handed up was taken on by a call of its own before, at its source and for the
router that hands it up.
-/
structure DataIntegrity (addr : ι → Addr) (history : List (NetEvent ι × List (Effect P))) :
    Prop where
  single : ∀ event effects src body, (event, effects) ∈ history →
    .onData src body ∈ effects →
    effects = [.onData src body] ∧ ∃ node packet, event = .deliver node packet
  matched : ∃ source : Nat → Nat,
    (∀ position node src body, HandsUp history position node src body →
      source position < position ∧ ∃ origin, addr origin = src ∧
        TakesOn history (source position) origin (addr node) body) ∧
    (∀ position position' node node' src src' body body',
      HandsUp history position node src body → HandsUp history position' node' src' body' →
      source position = source position' → position = position')

theorem onData_of_run {allowed : Net P ι → NetEvent ι → Prop} {net₀ net : Net P ι}
    {history : List (NetEvent ι × List (Effect P))} {event : NetEvent ι}
    {effects : List (Effect P)} {src : Addr} {body : Bytes}
    (run : Runs (Net.step J) allowed net₀ history net) (hmem : (event, effects) ∈ history)
    (hdata : Effect.onData src body ∈ effects) :
    effects = [.onData src body] ∧ ∃ node packet, event = .deliver node packet := by
  obtain ⟨before, after, rfl⟩ := List.append_of_mem hmem
  obtain ⟨here, there, -, -, hstep, -⟩ := run.middle
  rcases Net.step_cases hstep with ⟨node, revent, rest, r, calls, hrouter, -⟩ |
    ⟨_, -, rfl, -⟩
  · obtain ⟨heffects, sender, payload, rfl⟩ := Router.onData_step hrouter hdata
    cases calls with
    | deliver _ packet _ _ _ => exact ⟨heffects, node, packet, rfl⟩
  · cases hdata

omit [DecidableEq ι] in
theorem takesOn_of_itemAt {addr : ι → Addr} {history : List (NetEvent ι × List (Effect P))}
    {position : Nat} {datagram : Datagram}
    (h : itemAt (acceptedBy addr) history position = some datagram) :
    ∃ origin, addr origin = datagram.src ∧
      TakesOn history position origin datagram.dst datagram.body := by
  obtain ⟨⟨event, effects⟩, hentry, haccepted⟩ := Option.bind_eq_some_iff.mp h
  cases event with
  | above node dst data =>
      simp only [acceptedBy] at haccepted
      split at haccepted
      · cases haccepted
      · next hne =>
          cases haccepted
          exact ⟨node, rfl, effects, hentry, hne⟩
  | heartbeat => cases haccepted
  | deliver => cases haccepted
  | lose => cases haccepted
  | duplicate => cases haccepted

/--
Application data reaches only its destination, unaltered, under the address of
the router that took it on, and at most once.
-/
theorem data_delivered_at_most_once {net₀ net : Net P ι}
    {history : List (NetEvent ι × List (Effect P))} (hidle : net₀.flight = 0)
    (run : Runs (Net.step J) Net.noDuplicate net₀ history net) :
    DataIntegrity (fun i => (net₀.router i).localID) history := by
  have hdelivered : ∀ position node src body, HandsUp history position node src body →
      itemAt (deliveredBy fun i => (net₀.router i).localID) history position =
        some ⟨src, (net₀.router node).localID, body⟩ := by
    rintro position node src body ⟨packet, effects, hentry, hdata⟩
    obtain ⟨rfl, -⟩ := onData_of_run run (List.mem_of_getElem? hentry) hdata
    simp [itemAt, hentry, deliveredBy, dataUp]
  have hone : ∀ entry : NetEvent ι × List (Effect P),
      acceptedBy (fun i => (net₀.router i).localID) entry = none ∨
        deliveredBy (fun i => (net₀.router i).localID) entry = none := by
    rintro ⟨event, effects⟩
    cases event <;> simp [acceptedBy, deliveredBy]
  have hbalance : ∀ before after, history = before ++ after → ∀ datagram,
      (before.filterMap (deliveredBy fun i => (net₀.router i).localID)).count datagram ≤
        (before.filterMap (acceptedBy fun i => (net₀.router i).localID)).count datagram := by
    -- every part of the history from its beginning is itself a run
    rintro before after rfl datagram
    obtain ⟨here, hbefore, -⟩ := run.split
    have hle := (Multiset.le_add_left _ _).trans (datagrams_run hidle hbefore).1
    simpa using Multiset.count_le_of_le datagram hle
  obtain ⟨source, matching⟩ := exists_matching _ _ hone hbalance
  refine ⟨fun _ _ _ _ => onData_of_run run, source, ?_, ?_⟩
  · intro position node src body h
    have hused := hdelivered position node src body h
    exact ⟨matching.earlier position _ hused,
      takesOn_of_itemAt (matching.same position _ hused)⟩
  · intro position position' node node' src src' body body' h h' heq
    exact matching.distinct position position' _ _ (hdelivered _ _ _ _ h)
      (hdelivered _ _ _ _ h') heq

def sampleDelivery : List (NetEvent (Fin 3)) :=
  [.above sampleFirst (sampleID 2) [7],
    .deliver sampleSecond {
      sender := sampleID 1
      receiver := sampleID 2
      payload := (Header.make (sampleID 1) (sampleID 2) typeData).toList ++ [7] }]

theorem data_delivered_at_most_once_after_delivery :
    ∃ history net, history.map Prod.fst = sampleDelivery ∧
      Runs (Net.step sampleJson) Net.noDuplicate sampleNet history net ∧
      (∃ entry ∈ history, .onData (sampleID 1) [7] ∈ entry.2) ∧
      DataIntegrity (fun i => (sampleNet.router i).localID) history := by
  have hreplay : (replay (Net.step sampleJson) Net.noDuplicate sampleNet sampleDelivery).map
      (fun result => result.2.any fun entry =>
        entry.2.contains (.onData (sampleID 1) [7])) = some true := by decide +kernel
  obtain ⟨history, net, hevents, run, hany⟩ := exists_run_of_map hreplay
  obtain ⟨entry, hentry, hdata⟩ := List.any_eq_true.mp hany
  exact ⟨history, net, hevents, run, ⟨entry, hentry, List.contains_iff_mem.mp hdata⟩,
    data_delivered_at_most_once rfl run⟩

end Inet256.Beaconnet
