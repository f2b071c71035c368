import Inet256.Beaconnet.DataPlane
import Inet256.Beaconnet.LoopFree

/-!
# Data arrives

Where no router has run a cleanup, a route never leads to a router that does
not know the way on.  So the routers drop no datagram for a router of the
network: what was taken on was handed up or is still in flight.  And a datagram
in flight is a few hops away from its destination, at most as many as there
are routers.
-/

namespace Inet256.Beaconnet

open Inet256.Foundation
open Inet256.Crypto

variable {P : Primitives} {J : JsonCodec Beacon}

/-! ## One router -/

def Router.Routed (r : Router P) (d : Addr) : Prop :=
  r.localID = d ∨ (r.nextHop d).isSome = true

theorem Router.Routed.step {r r' : Router P} {event : RouterEvent}
    {effects : List (Effect P)} {d : Addr} (hclean : r.noCleanup event)
    (h : r.step J event = some (r', effects)) (routed : r.Routed d) : r'.Routed d := by
  have same := Router.sameNode_step h
  rcases routed with hlocal | hsome
  · exact Or.inl (same.localID.trans hlocal)
  · right
    unfold Router.nextHop at hsome ⊢
    rw [same.peers]
    split
    · rfl
    · next hpeer =>
        rw [if_neg hpeer, Option.isSome_map] at hsome
        rw [Option.isSome_map]
        rcases Router.lookup_step hclean h with ⟨sender, payload, v, -, -, rfl⟩ | ⟨-, hlookup⟩
        · rw [Router.lookup_learn]
          split
          · rfl
          · exact hsome
        · rw [hlookup]
          exact hsome

theorem Router.handleData_local {r : Router P} {hdr : Header} {body : Bytes}
    (hlocal : r.localID = hdr.getDst) :
    r.handleData hdr body = .ok [.onData hdr.getSrc body] :=
  if_pos hlocal.symm

theorem Router.handleData_forward {r : Router P} {hdr : Header} {body : Bytes} {next : Addr}
    (hlocal : r.localID ≠ hdr.getDst) (hnext : r.nextHop hdr.getDst = some next) :
    r.handleData hdr body = .ok [.send next (hdr.toList ++ body)] := by
  unfold Router.handleData
  unfold Router.nextHop at hnext
  rw [if_neg hlocal.symm]
  split at hnext
  · next hpeer =>
      rw [if_pos hpeer, ← Option.some.inj hnext]
      rfl
  · next hpeer =>
      obtain ⟨ps, hps, rfl⟩ := Option.map_eq_some_iff.mp hnext
      rw [if_neg hpeer, hps]
      rfl

/-- Whatever data a router sends, it sends to its next hop, which it keeps. -/
theorem Router.data_sent_to_next {r r' : Router P} {event : RouterEvent}
    {effects : List (Effect P)} (h : r.step J event = some (r', effects)) {next : Addr}
    {payload : Bytes} (hsend : Effect.send next payload ∈ effects) {g : Datagram}
    (hdatagram : datagramOf payload = some g) : r.nextHop g.dst = some next := by
  have hdata : ∀ effect ∈ effects, effect.NoData → effect ≠ .send next payload := by
    rintro effect - hnone rfl
    rw [Effect.NoData, hdatagram] at hnone
    cases hnone
  rcases Router.step_cases h with ⟨sender, received, v, rfl, hread, rfl, rfl⟩ |
    ⟨sender, received, rfl, -, rfl, rfl | ⟨hdr, body, -, htype, hhandled⟩⟩ |
    ⟨dst, data, rfl, rfl, rfl⟩ | ⟨now, rfl, hbeat⟩
  · exact absurd rfl (hdata _ hsend (noData_beaconEffects hsend))
  · cases hsend
  · have hforwarded : ∀ hop, Effect.send next payload ∈
        ([.send hop (hdr.toList ++ body)] : List (Effect P)) →
        hop = next ∧ g.dst = hdr.getDst := by
      intro hop hmem
      cases List.mem_singleton.mp hmem
      rw [datagramOf_append, if_pos htype] at hdatagram
      exact ⟨rfl, by rw [← Option.some.inj hdatagram]⟩
    unfold Router.handleData at hhandled
    split at hhandled
    · cases hhandled
      cases List.mem_singleton.mp hsend
    · split at hhandled
      · next hpeer =>
          cases hhandled
          obtain ⟨rfl, hdst⟩ := hforwarded _ hsend
          rw [hdst, Router.nextHop, if_pos hpeer]
      · next hpeer =>
          split at hhandled
          · cases hhandled
          · next ps hps =>
              cases hhandled
              obtain ⟨rfl, hdst⟩ := hforwarded _ hsend
              rw [hdst, Router.nextHop, if_neg hpeer, hps]
              rfl
  · unfold Router.handleAbove at hsend
    split at hsend
    · cases hsend
    · next hop hhop =>
        cases List.mem_singleton.mp hsend
        rw [datagramOf_append, if_pos (Header.getType_make _ _ _)] at hdatagram
        rw [← Option.some.inj hdatagram, Header.getDst_make, hhop]
  · rcases Router.heartbeat_cases hbeat with ⟨-, rfl⟩ | ⟨b, -, -, rfl⟩
    · cases hsend
    · exact absurd rfl (hdata _ hsend (noData_broadcast hsend))

theorem datagramOf_eq_some {payload : Bytes} {g : Datagram}
    (h : datagramOf payload = some g) :
    ∃ hdr, parseMessage payload = .ok (hdr, g.body) ∧ hdr.getType = typeData ∧
      hdr.getSrc = g.src ∧ hdr.getDst = g.dst := by
  unfold datagramOf at h
  split at h
  · next hdr body hparse =>
      split at h
      · next htype =>
          cases h
          exact ⟨hdr, hparse, htype, rfl, rfl⟩
      · cases h
  · cases h

/-- A datagram a router has a route for goes on, or up where it is for. -/
theorem Router.step_datagram (r : Router P) (sender : Addr) {payload : Bytes} {g : Datagram}
    (hdatagram : datagramOf payload = some g) (routed : r.Routed g.dst) :
    (r.localID = g.dst ∧
      r.step J (.below sender payload) = some (r, [.onData g.src g.body])) ∨
    (r.localID ≠ g.dst ∧ ∃ next sent, r.nextHop g.dst = some next ∧
      datagramOf sent = some g ∧
      r.step J (.below sender payload) = some (r, [.send next sent])) := by
  obtain ⟨hdr, hparse, htype, hsrc, hdst⟩ := datagramOf_eq_some hdatagram
  have hstep : ∀ effects, r.handleData hdr g.body = .ok effects →
      r.step J (.below sender payload) = some (r, effects) := by
    intro effects heffects
    have hmessage : r.handleMessage J sender payload = .ok (r, effects) := by
      unfold Router.handleMessage
      rw [hparse]
      simp only [Go.ok_bind, htype, heffects]
      rfl
    rw [Router.step, Router.handleBelow, hmessage]
    rfl
  by_cases hlocal : r.localID = g.dst
  · left
    refine ⟨hlocal, ?_⟩
    rw [← hsrc]
    exact hstep _ (Router.handleData_local (hlocal.trans hdst.symm))
  · right
    obtain ⟨next, hnext⟩ := Option.isSome_iff_exists.mp (routed.resolve_left hlocal)
    refine ⟨hlocal, next, hdr.toList ++ g.body, hnext, ?_, ?_⟩
    · rw [datagramOf_append, if_pos htype, hsrc, hdst]
    · rw [← hdst] at hlocal hnext
      exact hstep _ (Router.handleData_forward hlocal hnext)

/-! ## No dead ends -/

variable {ι : Type} [DecidableEq ι]

def Net.Routed (net : Net P ι) (d : Addr) (i : ι) : Prop := (net.router i).Routed d

/-- Whoever a route leads to knows the way on. -/
def Net.NoDeadEnd (net : Net P ι) : Prop :=
  ∀ t i next, (net.router i).nextHop (net.router t).localID = some next →
    ∃ j, (net.router j).localID = next ∧ net.Routed (net.router t).localID j

theorem noDeadEnd_run (laws : LawfulKeys P) {net₀ net : Net P ι}
    {trace : List (NetEvent ι × List (Effect P))} (started : net₀.Started)
    (run : Runs (Net.step J) Net.noCleanup net₀ trace net) : net.NoDeadEnd := by
  obtain ⟨s, hsteps, refines⟩ := refines_run laws started run
  obtain ⟨clock, age, ordered⟩ :=
    Flood.Ordered.steps (Flood.ordered_empty _ _ (fun _ _ => rfl) rfl) hsteps
  intro t i next hnext
  unfold Router.nextHop at hnext
  split at hnext
  · exact ⟨t, Option.some.inj hnext, Or.inl rfl⟩
  · obtain ⟨ps, hps, rfl⟩ := Option.map_eq_some_iff.mp hnext
    have hroute : s.table i (net₀.router t).localID = some ps.route := by
      rw [refines.table, Net.routes, ← refines.localID t, hps]
      rfl
    obtain ⟨j, hj, hknows⟩ := ordered.next_knows hroute
    refine ⟨j, (refines.localID j).trans hj, ?_⟩
    rw [← refines.localID t] at hknows
    rcases hknows with hlocal | hsome
    · exact Or.inl ((refines.localID j).trans hlocal)
    · right
      rw [refines.table, Net.routes, Option.isSome_map] at hsome
      unfold Router.nextHop
      split
      · rfl
      · rw [Option.isSome_map]
        exact hsome

theorem Net.Routed.step {net net' : Net P ι} {event : NetEvent ι} {effects : List (Effect P)}
    {d : Addr} {i : ι} (hclean : net.noCleanup event)
    (h : net.step J event = some (net', effects)) (routed : net.Routed d i) :
    net'.Routed d i := by
  refine (Net.invariant_step (fun i r => net.Routed d i → r.Routed d) (fun _ => True)
    ?_ (fun _ => id) (fun _ _ => trivial) h).1 i routed
  intro node revent rest r sent calls hstep
  exact ⟨Router.Routed.step (calls.noCleanup hclean) hstep, fun _ _ => trivial⟩

/-- Data in flight for a router of the network is on its way to one that knows on. -/
def Net.Headed (net : Net P ι) : Prop :=
  ∀ packet ∈ net.flight, ∀ g t, packet.datagram = some g →
    g.dst = (net.router t).localID →
    ∃ j, (net.router j).localID = packet.receiver ∧ net.Routed g.dst j

theorem Net.Headed.step {net net' : Net P ι} {event : NetEvent ι}
    {effects : List (Effect P)} (headed : net.Headed) (hends : net.NoDeadEnd)
    (hclean : net.noCleanup event) (h : net.step J event = some (net', effects)) :
    net'.Headed := by
  intro packet hpacket g t hdatagram hdst
  rw [Net.localID_step h] at hdst
  have hkeep : (∃ j, (net.router j).localID = packet.receiver ∧ net.Routed g.dst j) →
      ∃ j, (net'.router j).localID = packet.receiver ∧ net'.Routed g.dst j := by
    rintro ⟨j, hj, routed⟩
    exact ⟨j, (Net.localID_step h j).trans hj, routed.step hclean h⟩
  apply hkeep
  rcases Net.step_cases h with ⟨node, revent, rest, r, calls, hstep, rfl⟩ |
    ⟨other, hmem, -, ⟨-, rfl⟩ | ⟨-, rfl⟩⟩
  · rcases Multiset.mem_add.mp hpacket with hrest | hsent
    · exact headed packet (calls.mem_flight hrest) g t hdatagram hdst
    · obtain ⟨-, hsend⟩ := mem_packetsOf.mp hsent
      have hnext := Router.data_sent_to_next hstep hsend hdatagram
      rw [hdst] at hnext ⊢
      exact hends t node packet.receiver hnext
  · exact headed packet (Multiset.mem_of_mem_erase hpacket) g t hdatagram hdst
  · rcases Multiset.mem_cons.mp hpacket with rfl | hpacket
    · exact headed packet hmem g t hdatagram hdst
    · exact headed packet hpacket g t hdatagram hdst

theorem headed_run (laws : LawfulKeys P) {net₀ net : Net P ι}
    {trace : List (NetEvent ι × List (Effect P))} (started : net₀.Started)
    (run : Runs (Net.step J) Net.noCleanup net₀ trace net) : net.Headed := by
  refine run.history (motive := fun _ net => net.Headed) ?_ ?_
  · intro packet hpacket
    rw [started.idle] at hpacket
    cases hpacket
  · intro trace net event net' effects hrun headed hclean hstep
    exact headed.step (noDeadEnd_run laws started hrun) hclean hstep

/-! ## Nothing is dropped -/

/-- Every event but a cleanup and what a swarm does wrong. -/
def Net.undisturbed (net : Net P ι) : NetEvent ι → Prop
  | .heartbeat node now => ¬ (net.router node).cleanupDue now
  | .above _ _ _ => True
  | .deliver _ _ => True
  | .lose _ => False
  | .duplicate _ => False

instance (net : Net P ι) (event : NetEvent ι) : Decidable (net.undisturbed event) :=
  match event with
  | .heartbeat _ _ => inferInstanceAs (Decidable (¬ _))
  | .above _ _ _ => inferInstanceAs (Decidable True)
  | .deliver _ _ => inferInstanceAs (Decidable True)
  | .lose _ => inferInstanceAs (Decidable False)
  | .duplicate _ => inferInstanceAs (Decidable False)

omit [DecidableEq ι] in
theorem Net.undisturbed.noCleanup {net : Net P ι} {event : NetEvent ι}
    (h : net.undisturbed event) : net.noCleanup event := by
  cases event with
  | heartbeat => exact h
  | above => trivial
  | deliver => trivial
  | lose => cases h
  | duplicate => cases h

theorem Router.count_below {r r' : Router P} {sender : Addr} {payload : Bytes}
    {effects : List (Effect P)} (h : r.step J (.below sender payload) = some (r', effects))
    {g : Datagram} (routed : datagramOf payload = some g → r.Routed g.dst) :
    (dataSent effects).count g + (dataUp r.localID effects).toList.count g =
      (datagramOf payload).toList.count g := by
  rw [← List.count_append]
  by_cases hg : datagramOf payload = some g
  · rw [hg]
    rcases r.step_datagram (J := J) sender hg (routed hg) with
      ⟨hlocal, hstep⟩ | ⟨hlocal, next, sent, hnext, hsent, hstep⟩
    · rw [hstep] at h
      cases h
      simp [dataSent, dataUp, hlocal]
    · rw [hstep] at h
      cases h
      simp [dataSent, dataUp, hsent]
  · -- another datagram, or none: neither side has this one
    have hnone : (datagramOf payload).toList.count g = 0 := by
      rw [List.count_eq_zero, Option.mem_toList]
      exact hg
    have hle := (Router.data_below h).count_le g
    omega

theorem count_step {addr : ι → Addr} {net net' : Net P ι} {event : NetEvent ι}
    {effects : List (Effect P)} (haddr : ∀ i, (net.router i).localID = addr i)
    (distinct : Function.Injective addr) (headed : net.Headed) (hquiet : net.undisturbed event)
    (h : net.step J event = some (net', effects)) {g : Datagram} {t : ι}
    (hdst : g.dst = addr t) :
    (datagramsIn net'.flight).count g +
        (deliveredBy addr (event, effects)).toList.count g =
      (datagramsIn net.flight).count g + (acceptedBy addr (event, effects)).toList.count g := by
  rcases Net.step_cases h with ⟨node, revent, rest, r, calls, hstep, rfl⟩ |
    ⟨packet, hmem, rfl, ⟨rfl, rfl⟩ | ⟨rfl, -⟩⟩
  · have hflight : (datagramsIn (net.after node r rest effects).flight).count g =
        (datagramsIn rest).count g + (dataSent effects).count g := by
      rw [datagramsIn, Net.after, Multiset.filterMap_add, datagrams_packetsOf,
        Multiset.count_add, Multiset.coe_count]
      rfl
    rw [hflight]
    cases calls with
    | heartbeat node now =>
        rw [Router.data_heartbeat hstep]
        simp [deliveredBy, acceptedBy]
    | above node dst data =>
        rw [Router.data_above hstep, haddr node]
        simp only [deliveredBy, acceptedBy]
        split <;> simp
    | deliver node packet rest hcons hreceiver =>
        have hbelow := Router.count_below (g := g) hstep ?_
        · rw [hcons, datagramsIn_cons, Multiset.count_add, Multiset.coe_count]
          simp only [deliveredBy, acceptedBy, Option.toList_none, List.count_nil]
          rw [haddr node] at hbelow
          unfold Packet.datagram
          omega
        · intro hg
          rw [← haddr t] at hdst
          obtain ⟨j, hj, routed⟩ := headed packet (by simp [hcons]) g t hg hdst
          rw [hreceiver, haddr, haddr] at hj
          rwa [distinct hj] at routed
  · cases hquiet
  · cases hquiet

/--
Without cleanups, and over a swarm that neither loses nor duplicates, the
routers drop nothing: every datagram for a router of the network that was taken
on, as often as it was taken on, was handed up there or is still in flight.
-/
theorem datagrams_conserved (laws : LawfulKeys P) {net₀ net : Net P ι}
    {history : List (NetEvent ι × List (Effect P))} (started : net₀.Started)
    (run : Runs (Net.step J) Net.undisturbed net₀ history net) (g : Datagram) (t : ι)
    (hdst : g.dst = (net₀.router t).localID) :
    (history.filterMap (acceptedBy fun i => (net₀.router i).localID)).count g =
      (history.filterMap (deliveredBy fun i => (net₀.router i).localID)).count g +
        (datagramsIn net.flight).count g := by
  have hcount : (history.filterMap (acceptedBy fun i => (net₀.router i).localID)).count g =
      (history.filterMap (deliveredBy fun i => (net₀.router i).localID)).count g +
        (datagramsIn net.flight).count g ∧
      ∀ i, (net.router i).localID = (net₀.router i).localID := by
    refine run.history (motive := fun history net =>
      (history.filterMap (acceptedBy fun i => (net₀.router i).localID)).count g =
        (history.filterMap (deliveredBy fun i => (net₀.router i).localID)).count g +
          (datagramsIn net.flight).count g ∧
      ∀ i, (net.router i).localID = (net₀.router i).localID) ?_ ?_
    · simp [started.idle, datagramsIn]
    · rintro history net event net' effects hrun ⟨heq, haddr⟩ hquiet hstep
      refine ⟨?_, fun i => (Net.localID_step hstep i).trans (haddr i)⟩
      have headed := headed_run laws started (hrun.mono fun _ _ => Net.undisturbed.noCleanup)
      have hone := count_step haddr started.distinct headed hquiet hstep hdst
      have hlast : ∀ item : NetEvent ι × List (Effect P) → Option Datagram,
          ((history ++ [(event, effects)]).filterMap item).count g =
            (history.filterMap item).count g + (item (event, effects)).toList.count g := by
        intro item
        rw [← Multiset.coe_count, filterMap_concat, Multiset.count_add, Multiset.coe_count,
          Multiset.coe_count]
      rw [hlast, hlast]
      omega
  exact hcount.1

/-- Three routers in a row: the outer two only hear of each other. -/
def sampleLine : Net samplePrimitives (Fin 3) where
  router := Function.update (Function.update sampleNet.router
    sampleFirst (sampleRouter 1 sampleNeighbour)) sampleThird (sampleRouter 3 sampleNeighbour)
  flight := 0

theorem sampleLine_started : sampleLine.Started where
  reset := by
    intro i
    dsimp only [sampleLine]
    by_cases hthird : i = sampleThird
    · rw [hthird, Function.update_self]
      exact ⟨_, _, sampleRouter_reset 3 _⟩
    · rw [Function.update_of_ne hthird]
      by_cases hfirst : i = sampleFirst
      · rw [hfirst, Function.update_self]
        exact ⟨_, _, sampleRouter_reset 1 _⟩
      · rw [Function.update_of_ne hfirst]
        exact sampleNet_started.reset i
  distinct := by
    intro i j
    revert i j
    decide +kernel
  idle := rfl

def sampleDatagram : Datagram := ⟨sampleID 1, sampleID 3, [7]⟩

def sampleDataPacket (sender receiver : UInt8) : Packet where
  sender := sampleID sender
  receiver := sampleID receiver
  payload := (Header.make (sampleID 1) (sampleID 3) typeData).toList ++ [7]

/-- The third router announces itself, and the first sends it a datagram. -/
def sampleRelay : List (NetEvent (Fin 3)) :=
  [.heartbeat sampleThird ⟨Time.unixEpoch + 6⟩,
    .deliver sampleSecond
      (samplePacket 3 2 broadcastAddr { sampleBeacon 3 with counter := 6 }),
    .deliver sampleFirst
      (samplePacket 2 1 broadcastAddr { sampleBeacon 3 with counter := 6 }),
    .above sampleFirst (sampleID 3) [7]]

theorem datagrams_conserved_relayed :
    ∃ history net, history.map Prod.fst =
        sampleRelay ++ [.deliver sampleSecond (sampleDataPacket 1 2),
          .deliver sampleThird (sampleDataPacket 2 3)] ∧
      Runs (Net.step sampleJson) Net.undisturbed sampleLine history net ∧
      (history.filterMap (acceptedBy fun i => (sampleLine.router i).localID)).count
        sampleDatagram = 1 ∧
      1 = (history.filterMap (deliveredBy fun i => (sampleLine.router i).localID)).count
        sampleDatagram + (datagramsIn net.flight).count sampleDatagram := by
  have hreplay : (replay (Net.step sampleJson) Net.undisturbed sampleLine
      (sampleRelay ++ [.deliver sampleSecond (sampleDataPacket 1 2),
        .deliver sampleThird (sampleDataPacket 2 3)])).map (fun result =>
        (result.2.filterMap (acceptedBy fun i => (sampleLine.router i).localID)).count
          sampleDatagram) = some 1 := by decide +kernel
  obtain ⟨history, net, hevents, run, hone⟩ := exists_run_of_map hreplay
  refine ⟨history, net, hevents, run, hone, ?_⟩
  rw [← datagrams_conserved samplePrimitives_lawfulKeys sampleLine_started run sampleDatagram
    sampleThird rfl]
  exact hone.symm

/-! ## The way to the destination -/

/-- Only deliveries of the one datagram. -/
def Net.carries (g : Datagram) (_ : Net P ι) : NetEvent ι → Prop
  | .deliver _ packet => packet.datagram = some g
  | _ => False

/-- One hop of a datagram changes nothing but where it is. -/
theorem Net.step_carries (net : Net P ι) {flight : Multiset Packet} {packet : Packet}
    (hmem : packet ∈ flight) {i : ι} (hreceiver : packet.receiver = (net.router i).localID)
    {effects : List (Effect P)}
    (hstep : (net.router i).step J (.below packet.sender packet.payload) =
      some (net.router i, effects)) :
    Net.step J { net with flight := flight } (.deliver i packet) = some ({ net with
      flight := flight.erase packet + packetsOf (net.router i).localID effects },
      effects) := by
  rw [Net.step, if_pos ⟨hmem, hreceiver⟩, Net.act, hstep]
  simp [Net.after]

theorem packetsOf_send (sender next : Addr) (sent : Bytes) :
    packetsOf sender [(.send next sent : Effect P)] = {⟨sender, next, sent⟩} := rfl

theorem packetsOf_onData (sender src : Addr) (body : Bytes) :
    packetsOf sender [(.onData src body : Effect P)] = 0 := rfl

omit [DecidableEq ι] in
theorem NextHop.edge {addr : ι → Addr} {net : Net P ι} {s : Flood.State ι Addr}
    (refines : Refines J addr net s) {d : Addr} {i j : ι} (hop : net.NextHop d i j) :
    addr i ≠ d ∧ (addr j = d ∨ Flood.Hop addr s d i j) := by
  obtain ⟨hdest, hnext⟩ := hop
  rw [refines.localID] at hdest hnext
  refine ⟨hdest, ?_⟩
  unfold Router.nextHop at hnext
  split at hnext
  · exact Or.inl (Option.some.inj hnext).symm
  · obtain ⟨ps, hps, hnext⟩ := Option.map_eq_some_iff.mp hnext
    refine Or.inr ⟨ps.route, ?_, hnext⟩
    rw [refines.table, Net.routes, hps]
    rfl

/-- The routers still ahead on the way to a destination get fewer with each hop. -/
theorem exists_rank_run [Fintype ι] (laws : LawfulKeys P) {net₀ net : Net P ι}
    {trace : List (NetEvent ι × List (Effect P))} (started : net₀.Started)
    (run : Runs (Net.step J) Net.noCleanup net₀ trace net) (d : Addr) :
    ∃ rank : ι → Nat, (∀ i, rank i < Fintype.card ι) ∧
      ∀ i j, net.NextHop d i j → rank j < rank i := by
  obtain ⟨s, hsteps, refines⟩ := refines_run laws started run
  obtain ⟨clock, age, ordered⟩ :=
    Flood.Ordered.steps (Flood.ordered_empty _ _ (fun _ _ => rfl) rfl) hsteps
  exact Flood.exists_rank
    (ordered.no_cycle started.distinct fun _ _ hop => NextHop.edge refines hop)

theorem carried_within {net : Net P ι} {g : Datagram} {t : ι}
    (distinct : Function.Injective fun i => (net.router i).localID)
    (hends : net.NoDeadEnd) (hdst : g.dst = (net.router t).localID) {rank : ι → Nat}
    (hrank : ∀ i j, net.NextHop g.dst i j → rank j < rank i) (flight : Multiset Packet)
    {packet : Packet} {i : ι} (hmem : packet ∈ flight) (hdatagram : packet.datagram = some g)
    (hreceiver : packet.receiver = (net.router i).localID) (routed : net.Routed g.dst i) :
    ∃ hops last, hops.length ≤ rank i ∧
      Runs (Net.step J) (Net.carries g) { net with flight := flight }
        (hops ++ [(.deliver t last, [.onData g.src g.body])])
        { net with flight := flight.erase packet } := by
  induction hn : rank i using Nat.strong_induction_on generalizing flight packet i with
  | _ n ih =>
      rcases (net.router i).step_datagram (J := J) packet.sender hdatagram routed with
        ⟨hlocal, hstep⟩ | ⟨hlocal, next, sent, hnext, hsent, hstep⟩
      · obtain rfl : i = t := distinct (hlocal.trans hdst)
        have hlast := net.step_carries hmem hreceiver hstep
        rw [packetsOf_onData, add_zero] at hlast
        exact ⟨[], packet, Nat.zero_le _, Runs.single (by exact hdatagram) hlast⟩
      · rw [hdst] at hnext
        obtain ⟨j, hj, routed'⟩ := hends t i next hnext
        have hlt := hrank i j ⟨hlocal, by rw [hdst, hnext, hj]⟩
        have hhop := net.step_carries hmem hreceiver hstep
        rw [packetsOf_send, add_comm, Multiset.singleton_add] at hhop
        rw [← hdst] at routed'
        -- the packet that was sent on takes the place of the one delivered
        have honward : Packet.datagram ⟨(net.router i).localID, next, sent⟩ = some g := hsent
        obtain ⟨hops, last, hlength, run⟩ := ih (rank j) (by omega) _
          (Multiset.mem_cons_self _ (flight.erase packet)) honward hj.symm routed' rfl
        rw [Multiset.erase_cons_head] at run
        refine ⟨(.deliver i packet, [.send next sent]) :: hops, last, ?_, ?_⟩
        · simp only [List.length_cons]
          omega
        · exact (Runs.single (by exact hdatagram) hhop).trans run

/--
From every state reached without a cleanup, a datagram in flight for a router
of the network can be carried to it by deliveries of this datagram alone, at
most as many as there are routers; they change nothing else in the network.
-/
theorem datagram_reaches_destination [Fintype ι] (laws : LawfulKeys P) {net₀ net : Net P ι}
    {trace : List (NetEvent ι × List (Effect P))} (started : net₀.Started)
    (run : Runs (Net.step J) Net.noCleanup net₀ trace net) {packet : Packet}
    (hmem : packet ∈ net.flight) {g : Datagram} (hdatagram : packet.datagram = some g) {t : ι}
    (hdst : g.dst = (net.router t).localID) :
    ∃ hops last, hops.length < Fintype.card ι ∧
      Runs (Net.step J) (Net.carries g) net
        (hops ++ [(.deliver t last, [.onData g.src g.body])])
        { net with flight := net.flight.erase packet } := by
  have hlocal : ∀ i, (net.router i).localID = (net₀.router i).localID := by
    refine run.invariant
      (motive := fun net => ∀ i, (net.router i).localID = (net₀.router i).localID)
      (fun _ => rfl) ?_
    intro net event net' effects h _ hstep i
    rw [Net.localID_step hstep, h]
  have distinct : Function.Injective fun i => (net.router i).localID := by
    simp only [hlocal]
    exact started.distinct
  obtain ⟨rank, hcard, hrank⟩ := exists_rank_run laws started run g.dst
  obtain ⟨i, hi, routed⟩ := headed_run laws started run packet hmem g t hdatagram hdst
  obtain ⟨hops, last, hlength, hcarried⟩ := carried_within (J := J) distinct
    (noDeadEnd_run laws started run) hdst hrank net.flight hmem hdatagram hi.symm routed
  exact ⟨hops, last, hlength.trans_lt (hcard i), hcarried⟩

theorem datagram_reaches_destination_relayed :
    ∃ trace net, trace.map Prod.fst = sampleRelay ∧
      Runs (Net.step sampleJson) Net.noCleanup sampleLine trace net ∧
      sampleDataPacket 1 2 ∈ net.flight ∧
      ∃ hops last, hops.length < 3 ∧
        Runs (Net.step sampleJson) (Net.carries sampleDatagram) net
          (hops ++ [(.deliver sampleThird last, [.onData (sampleID 1) [7]])])
          { net with flight := net.flight.erase (sampleDataPacket 1 2) } := by
  have hreplay : (replay (Net.step sampleJson) Net.noCleanup sampleLine sampleRelay).map
      (fun result => (decide (sampleDataPacket 1 2 ∈ result.1.flight),
        decide (sampleDatagram.dst = (result.1.router sampleThird).localID))) =
      some (true, true) := by decide +kernel
  obtain ⟨trace, net, hevents, run, hboth⟩ := exists_run_of_map hreplay
  obtain ⟨hmem, hdst⟩ := Prod.mk.inj hboth
  have hflight := of_decide_eq_true hmem
  exact ⟨trace, net, hevents, run, hflight,
    datagram_reaches_destination samplePrimitives_lawfulKeys sampleLine_started run hflight
      rfl (of_decide_eq_true hdst)⟩

end Inet256.Beaconnet
