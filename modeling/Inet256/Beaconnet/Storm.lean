import Inet256.Beaconnet.Network
import Mathlib.Algebra.BigOperators.Group.Finset.Basic
import Mathlib.Algebra.Order.BigOperators.Group.Finset
import Mathlib.Data.Finset.Union
import Mathlib.Data.Prod.Lex

/-!
# Beacon storms

Whether beacon traffic dies out once no router beats any more.  A flooded
beacon does: each router floods a counter once.  A beacon addressed to one
router is forwarded whether or not it is new, and the router it is addressed to
forwards it as well when it has a route to itself.
-/

namespace Inet256.Beaconnet

open Inet256.Foundation
open Inet256.Crypto

variable {P : Primitives} {ι : Type} {J : JsonCodec Beacon}

def Packet.isBeacon (packet : Packet) : Bool :=
  match parseMessage packet.payload with
  | .ok (hdr, _) => hdr.getType = typeBeacon
  | .error _ => false

def Net.deliversBeacon (_ : Net P ι) : NetEvent ι → Prop
  | .deliver _ packet => packet.isBeacon = true
  | _ => False

abbrev BeaconState (P : Primitives) (ι : Type) :=
  (ι → GoMap Addr (PeerState P)) × Multiset Packet

def Net.beaconState (net : Net P ι) : BeaconState P ι :=
  (fun i => (net.router i).peerStates, net.flight.filter fun packet => packet.isBeacon)

/--
A beacon addressed to the router it is delivered to finds no route there to
that router itself, and does not bring one.
-/
def Net.noSelfRoute (J : JsonCodec Beacon) (net : Net P ι) : NetEvent ι → Prop
  | .deliver node packet => ∀ v : VerifiedBeacon P,
      readBeacon P J packet.payload = .ok v → v.hdr.getDst ≠ broadcastAddr →
      v.hdr.getDst = (net.router node).localID →
      (net.router node).lookupPeerState (net.router node).localID = none ∧
        v.origin ≠ (net.router node).localID
  | _ => True

instance (net : Net P ι) (event : NetEvent ι) : Decidable (net.deliversBeacon event) :=
  match event with
  | .deliver _ _ => inferInstanceAs (Decidable (_ = true))
  | .heartbeat _ _ => inferInstanceAs (Decidable False)
  | .above _ _ _ => inferInstanceAs (Decidable False)
  | .lose _ => inferInstanceAs (Decidable False)
  | .duplicate _ => inferInstanceAs (Decidable False)

instance (net : Net P ι) (event : NetEvent ι) : Decidable (net.noSelfRoute J event) :=
  match event with
  | .deliver node packet =>
      match h : readBeacon P J packet.payload with
      | .ok v => decidable_of_iff (v.hdr.getDst ≠ broadcastAddr →
          v.hdr.getDst = (net.router node).localID →
          (net.router node).lookupPeerState (net.router node).localID = none ∧
            v.origin ≠ (net.router node).localID) (by simp [Net.noSelfRoute, h])
      | .error _ => isTrue (by simp [Net.noSelfRoute, h])
  | .heartbeat _ _ => inferInstanceAs (Decidable True)
  | .above _ _ _ => inferInstanceAs (Decidable True)
  | .lose _ => inferInstanceAs (Decidable True)
  | .duplicate _ => inferInstanceAs (Decidable True)

/-! ## Where beacons are addressed -/

/-- A beacon in flight names its sender, and is for everyone or for its receiver. -/
def Packet.Addressed (P : Primitives) (J : JsonCodec Beacon) (packet : Packet) : Prop :=
  ∀ v : VerifiedBeacon P, readBeacon P J packet.payload = .ok v →
    v.hdr.getSrc = packet.sender ∧
      (v.hdr.getDst = broadcastAddr ∨ v.hdr.getDst = packet.receiver)

theorem lookup_learn_of_noSelfRoute {net : Net P ι} {node : ι} {packet : Packet}
    {v : VerifiedBeacon P} (hroute : net.noSelfRoute J (.deliver node packet))
    (hread : readBeacon P J packet.payload = .ok v)
    (hdst : v.hdr.getDst ≠ broadcastAddr)
    (hlocal : v.hdr.getDst = (net.router node).localID) :
    ((net.router node).learn packet.sender v).lookupPeerState v.hdr.getDst = none := by
  obtain ⟨hnone, horigin⟩ := hroute v hread hdst hlocal
  rw [Router.lookup_learn, hlocal, if_neg fun h => horigin h.2.symm]
  exact hnone

theorem addressed_sent {net : Net P ι} {event : NetEvent ι} {node : ι}
    {revent : RouterEvent} {rest : Multiset Packet} {r : Router P}
    {effects : List (Effect P)} (calls : net.Calls event node revent rest)
    (hroute : net.noSelfRoute J event)
    (hflight : ∀ packet ∈ net.flight, packet.Addressed P J)
    (hstep : (net.router node).step J revent = some (r, effects)) :
    ∀ packet ∈ packetsOf r.localID effects, packet.Addressed P J := by
  intro packet hpacket v hread
  obtain ⟨hsender, hsend⟩ := mem_packetsOf.mp hpacket
  have sent := Router.sent_of_step hstep hsend
  generalize packet.payload = payload at hread sent
  cases sent with
  | announce now hevent =>
      obtain ⟨hhdr, -⟩ := readBeacon_make.mp hread
      rw [hhdr, Header.getSrc_make, Header.getDst_make]
      exact ⟨hsender.symm, Or.inl rfl⟩
  | flood sender received w hevent hw hnews hdst =>
      obtain ⟨hhdr, -⟩ := readBeacon_make.mp hread
      rw [hhdr, Header.getSrc_make, Header.getDst_make]
      exact ⟨hsender.symm, Or.inl rfl⟩
  | forward sender received w ps hevent hw hdst hps =>
      subst hevent
      cases calls with
      | deliver _ delivered _ hcons hreceiver =>
          -- a beacon for one router goes to that router, which has no route to itself
          have hmem : delivered ∈ net.flight := by simp [hcons]
          obtain ⟨-, hbroadcast | hlocal⟩ := hflight delivered hmem w hw
          · exact absurd hbroadcast hdst
          · have hnone := lookup_learn_of_noSelfRoute hroute hw hdst (hlocal.trans hreceiver)
            have hbelow := toOption_eq_some.mp hstep
            rw [Router.handleBelow_beacon _ _ hw] at hbelow
            cases hbelow
            rw [hnone] at hps
            cases hps
  | reply received w hevent hw hfirst =>
      subst hevent
      generalize hnext : packet.receiver = next at calls hstep hsend
      cases calls with
      | deliver _ delivered _ hcons hreceiver =>
          have hmem : delivered ∈ net.flight := by simp [hcons]
          obtain ⟨hsrc, -⟩ := hflight delivered hmem w hw
          obtain ⟨hhdr, -⟩ := readBeacon_make.mp hread
          rw [hhdr, Header.getSrc_make, Header.getDst_make, hsrc]
          exact ⟨hsender.symm, Or.inr rfl⟩
  | data hdr body htype hother => exact absurd hread (readBeacon_data htype v)

/-! ## What the tables still have to learn -/

abbrev Circulation := Finset (Addr × UInt64)

def lacks (table : GoMap Addr (PeerState P)) (beacon : Addr × UInt64) : Bool :=
  match table.lookup beacon.1 with
  | none => true
  | some ps => decide (ps.counter < beacon.2)

def missing (circulation : Circulation) (table : GoMap Addr (PeerState P)) : Nat :=
  (circulation.filter fun beacon => lacks table beacon = true).card

theorem lacks_of_lacks_learn {r : Router P} {sender : Addr} {v : VerifiedBeacon P}
    {beacon : Addr × UInt64} (h : lacks (r.learn sender v).peerStates beacon = true) :
    lacks r.peerStates beacon = true := by
  unfold lacks at h ⊢
  have hlookup := r.lookup_learn sender v beacon.1
  unfold Router.lookupPeerState at hlookup
  rw [hlookup] at h
  split at h
  · next hnone =>
      split at hnone
      · cases hnone
      · rw [hnone]
  · next ps hps =>
      rw [decide_eq_true_iff] at h
      split at hps
      · next hnews =>
          cases hps
          have hnew := hnews.1
          unfold Router.isNews Router.lookupPeerState at hnew
          rw [← hnews.2] at hnew
          cases hold : r.peerStates.lookup beacon.1 with
          | none => rfl
          | some old =>
              rw [hold] at hnew
              exact decide_eq_true (UInt64.lt_trans (decide_eq_true_iff.mp hnew) h)
      · rw [hps]
        exact decide_eq_true h

theorem not_lacks_learn (r : Router P) (sender : Addr) (v : VerifiedBeacon P) :
    lacks (r.learn sender v).peerStates (v.origin, v.counter) = false := by
  by_cases hnews : r.isNews v = true
  · have hlookup := r.lookup_learn sender v v.origin
    rw [if_pos ⟨hnews, rfl⟩] at hlookup
    unfold Router.lookupPeerState at hlookup
    unfold lacks
    rw [hlookup]
    exact decide_eq_false (UInt64.lt_irrefl _)
  · unfold Router.learn
    rw [if_neg hnews]
    exact Bool.not_eq_true _ ▸ hnews

/-- Learning news leaves strictly less to learn. -/
theorem missing_learn_lt {circulation : Circulation} {r : Router P} {sender : Addr}
    {v : VerifiedBeacon P} (hmem : (v.origin, v.counter) ∈ circulation)
    (hnews : r.isNews v = true) :
    missing circulation (r.learn sender v).peerStates < missing circulation r.peerStates := by
  refine Finset.card_lt_card (Finset.ssubset_iff_subset_ne.mpr
    ⟨Finset.monotone_filter_right _ fun _ _ => lacks_of_lacks_learn, fun heq => ?_⟩)
  have hbefore : (v.origin, v.counter) ∈
      circulation.filter fun beacon => lacks r.peerStates beacon = true :=
    Finset.mem_filter.mpr ⟨hmem, hnews⟩
  rw [← heq] at hbefore
  have hlacks := (Finset.mem_filter.mp hbefore).2
  rw [not_lacks_learn] at hlacks
  cases hlacks

/-! ## Beacons in circulation -/

def Beacon.vouches (P : Primitives) (b : Beacon) : Option (Addr × UInt64) :=
  (do
    let key ← verifyBeacon P b
    let origin ← newID key
    return (origin, b.counter) : Go (Addr × UInt64)).toOption

theorem vouches_of_verified {v : VerifiedBeacon P}
    (hverify : verifyBeacon P v.beacon = .ok v.key) (hid : newID v.key = .ok v.origin) :
    v.beacon.vouches P = some (v.origin, v.counter) := by
  simp [Beacon.vouches, hverify, hid, Except.toOption, VerifiedBeacon.counter]

theorem vouches_of_read {payload : Bytes} {v : VerifiedBeacon P}
    (hread : readBeacon P J payload = .ok v) :
    v.beacon.vouches P = some (v.origin, v.counter) := by
  obtain ⟨_, -, -, -, hverify, hid⟩ := readBeacon_eq_ok.mp hread
  exact vouches_of_verified hverify hid

/-- Every beacon in flight, and every router's own, is in circulation. -/
structure Covers (J : JsonCodec Beacon) (circulation : Circulation) (net : Net P ι) :
    Prop where
  flight : ∀ packet ∈ net.flight, ∀ v : VerifiedBeacon P,
    readBeacon P J packet.payload = .ok v → (v.origin, v.counter) ∈ circulation
  own : ∀ i beacon, (net.router i).ourBeacon.vouches P = some beacon → beacon ∈ circulation

theorem exists_covers [Fintype ι] (J : JsonCodec Beacon) (net : Net P ι) :
    ∃ circulation, Covers J circulation net := by
  let inFlight : Finset Beacon := net.flight.toFinset.biUnion fun packet =>
    ((readBeacon P J packet.payload).toOption.map VerifiedBeacon.beacon).toFinset
  let ours : Finset Beacon := Finset.univ.image fun i => (net.router i).ourBeacon
  refine ⟨(inFlight ∪ ours).biUnion fun b => (b.vouches P).toFinset, ?_, ?_⟩
  · intro packet hpacket v hread
    have hmem : v.beacon ∈ inFlight := by
      refine Finset.mem_biUnion.mpr ⟨packet, Multiset.mem_toFinset.mpr hpacket, ?_⟩
      simp [hread, Except.toOption]
    refine Finset.mem_biUnion.mpr ⟨v.beacon, Finset.mem_union_left _ hmem, ?_⟩
    rw [vouches_of_read hread]
    simp
  · intro i beacon hvouches
    have hmem : (net.router i).ourBeacon ∈ ours :=
      Finset.mem_image_of_mem _ (Finset.mem_univ i)
    refine Finset.mem_biUnion.mpr ⟨_, Finset.mem_union_right _ hmem, ?_⟩
    rw [hvouches]
    simp

theorem covers_sent {circulation : Circulation} {net : Net P ι} {node : ι}
    {packet : Packet} {rest : Multiset Packet} {r : Router P} {effects : List (Effect P)}
    (covers : Covers J circulation net)
    (calls : net.Calls (.deliver node packet) node
      (.below packet.sender packet.payload) rest)
    (hstep : (net.router node).step J (.below packet.sender packet.payload) =
      some (r, effects))
    (hown : r.ourBeacon = (net.router node).ourBeacon) :
    ∀ other ∈ packetsOf r.localID effects, ∀ v : VerifiedBeacon P,
      readBeacon P J other.payload = .ok v → (v.origin, v.counter) ∈ circulation := by
  intro other hother v hread
  have hvouches := vouches_of_read hread
  obtain ⟨-, hsend⟩ := mem_packetsOf.mp hother
  have relayed : ∀ sender received w,
      RouterEvent.below packet.sender packet.payload = .below sender received →
      readBeacon P J received = .ok w → v.beacon = w.beacon →
      (v.origin, v.counter) ∈ circulation := by
    intro sender received w hevent hw hbeacon
    cases hevent
    rw [hbeacon, vouches_of_read hw] at hvouches
    have hmem : packet ∈ net.flight := by
      cases calls with
      | deliver _ _ _ hcons _ => simp [hcons]
    rw [← Option.some.inj hvouches]
    exact covers.flight packet hmem w hw
  have sent := Router.sent_of_step hstep hsend
  generalize other.payload = payload at hread sent
  cases sent with
  | announce now hevent => cases hevent
  | flood sender received w hevent hw hnews hdst =>
      exact relayed sender received w hevent hw (readBeacon_make.mp hread).2.1
  | forward sender received w ps hevent hw hdst hroute =>
      exact relayed sender received w hevent hw (readBeacon_make.mp hread).2.1
  | reply received w hevent hw hfirst =>
      rw [(readBeacon_make.mp hread).2.1, hown] at hvouches
      exact covers.own node _ hvouches
  | data hdr body htype hother => exact absurd hread (readBeacon_data htype v)

/-! ## A delivery leaves less unrest -/

variable [Fintype ι]

/-- What the tables have to learn, then the messages in flight. -/
def unrest (circulation : Circulation) (state : BeaconState P ι) : ℕ ×ₗ ℕ :=
  toLex (∑ i, missing circulation (state.1 i), Multiset.card state.2)

variable [DecidableEq ι]

/-- The invariant of a network that is left to deliver its beacons. -/
structure Settling (J : JsonCodec Beacon) (circulation : Circulation) (net : Net P ι) :
    Prop where
  addressed : ∀ packet ∈ net.flight, packet.Addressed P J
  covers : Covers J circulation net

theorem missing_sum_after {circulation : Circulation} {net : Net P ι} {node : ι}
    {r : Router P} {rest : Multiset Packet} {effects : List (Effect P)}
    (hless : missing circulation r.peerStates <
      missing circulation (net.router node).peerStates) :
    ∑ i, missing circulation ((net.after node r rest effects).router i).peerStates <
      ∑ i, missing circulation (net.router i).peerStates := by
  refine Finset.sum_lt_sum ?_ ⟨node, Finset.mem_univ node, ?_⟩
  · intro i _
    by_cases hi : i = node
    · subst hi
      simpa [Net.after] using hless.le
    · simp [Net.after, hi]
  · simpa [Net.after] using hless

theorem beaconEffects_of_not_news {r : Router P} {sender : Addr} {v : VerifiedBeacon P}
    (hnews : r.isNews v ≠ true)
    (hforward : v.hdr.getDst ≠ broadcastAddr →
      (r.learn sender v).lookupPeerState v.hdr.getDst = none) :
    r.beaconEffects J sender v = [.onAddr v.origin, .onPublicKey v.origin v.key] := by
  have hfirst : r.isFirst v ≠ true := by
    intro hfirst
    unfold Router.isFirst at hfirst
    unfold Router.isNews at hnews
    rw [Option.isNone_iff_eq_none.mp hfirst] at hnews
    exact hnews rfl
  unfold Router.beaconEffects
  by_cases hdst : v.hdr.getDst = broadcastAddr
  · simp [hnews, hfirst, hdst]
  · simp [hnews, hfirst, hdst, hforward hdst]

section Delivery

variable {circulation : Circulation} {net : Net P ι} {node : ι} {packet : Packet}
  {rest : Multiset Packet} {r : Router P} {effects : List (Effect P)}

omit [Fintype ι] [DecidableEq ι] in
theorem forward_eq_none (hroute : net.noSelfRoute J (.deliver node packet))
    (haddressed : packet.Addressed P J)
    (hreceiver : packet.receiver = (net.router node).localID) {v : VerifiedBeacon P}
    (hread : readBeacon P J packet.payload = .ok v) (hdst : v.hdr.getDst ≠ broadcastAddr) :
    ((net.router node).learn packet.sender v).lookupPeerState v.hdr.getDst = none := by
  obtain ⟨-, hbroadcast | hlocal⟩ := haddressed v hread
  · exact absurd hbroadcast hdst
  · exact lookup_learn_of_noSelfRoute hroute hread hdst (hlocal.trans hreceiver)

/-- The delivery teaches the router something, or takes a message out of flight. -/
theorem unrest_deliver (settling : Settling J circulation net)
    (hbeacon : packet.isBeacon = true)
    (hroute : net.noSelfRoute J (.deliver node packet))
    (hcons : net.flight = packet ::ₘ rest)
    (hreceiver : packet.receiver = (net.router node).localID)
    (hstep : (net.router node).step J (.below packet.sender packet.payload) =
      some (r, effects)) :
    unrest circulation (net.after node r rest effects).beaconState <
      unrest circulation net.beaconState := by
  have hmem : packet ∈ net.flight := by simp [hcons]
  have hquiet : ∀ (r' : Router P) (reports : List (Effect P)),
      r'.peerStates = (net.router node).peerStates → packetsOf r'.localID reports = 0 →
      unrest circulation (net.after node r' rest reports).beaconState <
        unrest circulation net.beaconState := by
    intro r' reports htable hsent
    refine Prod.Lex.toLex_lt_toLex.mpr (Or.inr ⟨?_, ?_⟩)
    · refine Finset.sum_congr rfl fun i _ => ?_
      by_cases hi : i = node
      · subst hi
        simp [Net.beaconState, Net.after, htable]
      · simp [Net.beaconState, Net.after, hi]
    · simp [Net.beaconState, Net.after, hsent, hcons, hbeacon]
  rcases Router.step_cases hstep with ⟨sender, payload, v, hevent, hread, rfl, rfl⟩ |
    ⟨sender, payload, hevent, -, rfl, heffects⟩ | ⟨_, _, hevent, -⟩ | ⟨_, hevent, -⟩
  · cases hevent
    by_cases hnews : (net.router node).isNews v = true
    · exact Prod.Lex.toLex_lt_toLex.mpr (Or.inl (missing_sum_after
        (missing_learn_lt (settling.covers.flight packet hmem v hread) hnews)))
    · have hforward := forward_eq_none hroute (settling.addressed packet hmem) hreceiver hread
      have hlearn : (net.router node).learn packet.sender v = net.router node := by
        unfold Router.learn
        rw [if_neg hnews]
      refine hquiet _ _ (by rw [hlearn]) ?_
      rw [beaconEffects_of_not_news hnews hforward]
      rfl
  · cases hevent
    rcases heffects with rfl | ⟨hdr, body, hparse, htype, -⟩
    · exact hquiet _ _ rfl rfl
    · -- a beacon message is not handled as data
      unfold Packet.isBeacon at hbeacon
      rw [hparse] at hbeacon
      simp only [decide_eq_true_eq, htype] at hbeacon
      exact absurd hbeacon (by decide)
  · cases hevent
  · cases hevent

end Delivery

theorem Router.ourBeacon_below {r r' : Router P} {sender : Addr} {payload : Bytes}
    {effects : List (Effect P)} (h : r.step J (.below sender payload) = some (r', effects)) :
    r'.ourBeacon = r.ourBeacon := by
  rcases Router.step_cases h with ⟨_, _, v, -, -, rfl, -⟩ | ⟨_, _, -, -, rfl, -⟩ |
    ⟨_, _, hevent, -⟩ | ⟨_, hevent, -⟩
  · exact r.learn_ourBeacon _ v
  · rfl
  · cases hevent
  · cases hevent

omit [Fintype ι] in
theorem addressed_step {net net' : Net P ι} {event : NetEvent ι} {effects : List (Effect P)}
    (hroute : net.noSelfRoute J event)
    (hflight : ∀ packet ∈ net.flight, packet.Addressed P J)
    (h : net.step J event = some (net', effects)) :
    ∀ packet ∈ net'.flight, packet.Addressed P J := by
  refine (Net.invariant_step (fun _ _ => True) (Packet.Addressed P J) ?_
    (fun _ => trivial) hflight h).2
  intro node revent rest r sent calls hstep
  exact ⟨trivial, addressed_sent calls hroute hflight hstep⟩

def Net.settles (J : JsonCodec Beacon) (net : Net P ι) (event : NetEvent ι) : Prop :=
  net.noSelfRoute J event ∧ net.deliversBeacon event

theorem Settling.step {circulation : Circulation} {net net' : Net P ι} {event : NetEvent ι}
    {effects : List (Effect P)} (settling : Settling J circulation net)
    (hsettles : net.settles J event) (h : net.step J event = some (net', effects)) :
    Settling J circulation net' ∧
      unrest circulation net'.beaconState < unrest circulation net.beaconState := by
  obtain ⟨hroute, hbeacon⟩ := hsettles
  have haddressed := addressed_step hroute settling.addressed h
  cases event with
  | deliver node packet =>
      obtain ⟨hrouter, hflight⟩ := Net.invariant_step
        (fun i r => r.ourBeacon = (net.router i).ourBeacon)
        (fun other => ∀ v : VerifiedBeacon P, readBeacon P J other.payload = .ok v →
          (v.origin, v.counter) ∈ circulation)
        (by
          intro node' revent rest r sent calls hstep
          cases calls with
          | deliver _ _ _ hcons hreceiver =>
              have hown := Router.ourBeacon_below hstep
              exact ⟨hown, covers_sent settling.covers
                (.deliver node packet rest hcons hreceiver) hstep hown⟩)
        (fun _ => rfl) settling.covers.flight h
      refine ⟨⟨haddressed, hflight, fun i beacon hvouches => ?_⟩, ?_⟩
      · rw [hrouter i] at hvouches
        exact settling.covers.own i beacon hvouches
      · rcases Net.step_cases h with ⟨node', revent, rest, r, calls, hstep, rfl⟩ |
          ⟨_, -, -, ⟨hevent, -⟩ | ⟨hevent, -⟩⟩
        · cases calls with
          | deliver _ _ _ hcons hreceiver =>
              exact unrest_deliver settling hbeacon hroute hcons hreceiver hstep
        · cases hevent
        · cases hevent
  | heartbeat => cases hbeacon
  | above => cases hbeacon
  | lose => cases hbeacon
  | duplicate => cases hbeacon

/-! ## Beacon traffic dies out -/

/-- No return, no endless storm, and no forwarding by the router addressed. -/
structure DiesOut (J : JsonCodec Beacon) (net : Net P ι) : Prop where
  no_return : ∀ trace net', Runs (Net.step J) (Net.settles J) net trace net' →
    trace ≠ [] → net'.beaconState ≠ net.beaconState
  no_storm : ¬ Endless (Net.step J) (Net.settles J) net
  not_forwarded : ∀ node packet net' effects, net.settles J (.deliver node packet) →
    net.step J (.deliver node packet) = some (net', effects) →
    ∀ v : VerifiedBeacon P, readBeacon P J packet.payload = .ok v →
    v.hdr.getDst ≠ broadcastAddr → v.hdr.getDst = (net.router node).localID →
    ∀ next payload, .send next payload ∈ effects →
      payload = (Header.make (net.router node).localID v.hdr.getSrc typeBeacon).toList ++
        J.marshal (net.router node).ourBeacon

omit [Fintype ι] in
theorem sent_by_addressed {net net' : Net P ι} {node : ι} {packet : Packet}
    {effects : List (Effect P)} {v : VerifiedBeacon P}
    (hroute : net.noSelfRoute J (.deliver node packet))
    (h : net.step J (.deliver node packet) = some (net', effects))
    (hread : readBeacon P J packet.payload = .ok v) (hdst : v.hdr.getDst ≠ broadcastAddr)
    (hlocal : v.hdr.getDst = (net.router node).localID) {next : Addr} {payload : Bytes}
    (hsend : Effect.send next payload ∈ effects) :
    payload = (Header.make (net.router node).localID v.hdr.getSrc typeBeacon).toList ++
      J.marshal (net.router node).ourBeacon := by
  rcases Net.step_cases h with ⟨node', revent, rest, r, calls, hstep, rfl⟩ |
    ⟨_, -, -, ⟨hevent, -⟩ | ⟨hevent, -⟩⟩
  · cases calls with
    | deliver _ _ _ hcons hreceiver =>
        have hnone := lookup_learn_of_noSelfRoute hroute hread hdst hlocal
        have same := Router.sameNode_step hstep
        have hown := Router.ourBeacon_below hstep
        have hbelow := toOption_eq_some.mp hstep
        rw [Router.handleBelow_beacon _ _ hread] at hbelow
        cases hbelow
        have sent := Router.sent_of_step hstep hsend
        cases sent with
        | announce now hevent => cases hevent
        | flood sender received w hevent hw hnews hbroadcast =>
            cases hevent
            rw [hread] at hw
            cases hw
            exact absurd hbroadcast hdst
        | forward sender received w ps hevent hw hdst' hps =>
            cases hevent
            rw [hread] at hw
            cases hw
            rw [hnone] at hps
            cases hps
        | reply received w hevent hw hfirst =>
            cases hevent
            rw [hread] at hw
            cases hw
            rw [same.localID, hown]
        | data hdr body htype hother =>
            exact absurd hread (hother _ _ v rfl)
  · cases hevent
  · cases hevent

/--
In every run whose deliveries find no route of a router to itself, beacon
traffic dies out from every state reached.
-/
theorem beacon_traffic_dies_out {net₀ net : Net P ι}
    {trace : List (NetEvent ι × List (Effect P))} (started : net₀.Started)
    (run : Runs (Net.step J) (Net.noSelfRoute J) net₀ trace net) : DiesOut J net := by
  have haddressed : ∀ packet ∈ net.flight, packet.Addressed P J :=
    run.invariant (motive := fun net => ∀ packet ∈ net.flight, packet.Addressed P J)
      (by simp [started.idle])
      (fun _ _ _ _ hflight hroute hstep => addressed_step hroute hflight hstep)
  obtain ⟨circulation, covers⟩ := exists_covers J net
  have settling : Settling J circulation net := ⟨haddressed, covers⟩
  have hstep : ∀ (here : Net P ι) event there effects, Settling J circulation here →
      here.settles J event → here.step J event = some (there, effects) →
      Settling J circulation there ∧
        unrest circulation there.beaconState < unrest circulation here.beaconState :=
    fun _ _ _ _ settling hsettles hstep => settling.step hsettles hstep
  refine ⟨?_, ?_, ?_⟩
  · intro trace net' run' hne heq
    obtain ⟨-, hnil | hlt⟩ := run'.descent (Settling J circulation)
      (fun net => unrest circulation net.beaconState) settling hstep
    · exact hne hnil
    · rw [heq] at hlt
      exact lt_irrefl _ hlt
  · exact not_endless (Settling J circulation)
      (fun net => unrest circulation net.beaconState) settling hstep
  · intro node packet net' effects hsettles hstep v hread hdst hlocal next payload hsend
    exact sent_by_addressed hsettles.1 hstep hread hdst hlocal hsend

theorem beacon_traffic_dies_out_after_round :
    ∃ trace net, trace.map Prod.fst = sampleRound ∧
      Runs (Net.step sampleJson) (Net.noSelfRoute sampleJson) sampleNet trace net ∧
      DiesOut sampleJson net := by
  have hsome : (replay (Net.step sampleJson) (Net.noSelfRoute sampleJson) sampleNet
      sampleRound).isSome = true := by decide +kernel
  obtain ⟨trace, net, hevents, run⟩ := exists_run_of_isSome hsome
  exact ⟨trace, net, hevents, run, beacon_traffic_dies_out sampleNet_started run⟩

/-! ### A storm -/

/-- The second router's reply reaches the first, and goes round the triangle once. -/
def sampleTargeted : List (NetEvent (Fin 3)) :=
  [.deliver sampleFirst (samplePacket 2 1 (sampleID 1) (sampleBeacon 2)),
    .deliver sampleThird (samplePacket 1 3 (sampleID 1) (sampleBeacon 2)),
    .deliver sampleSecond (samplePacket 3 2 (sampleID 1) (sampleBeacon 2)),
    .deliver sampleFirst (samplePacket 2 1 (sampleID 1) (sampleBeacon 2))]

def sampleLap : List (NetEvent (Fin 3)) :=
  [.deliver sampleThird (samplePacket 1 3 (sampleID 1) (sampleBeacon 2)),
    .deliver sampleSecond (samplePacket 3 2 (sampleID 1) (sampleBeacon 2)),
    .deliver sampleFirst (samplePacket 2 1 (sampleID 1) (sampleBeacon 2))]

def sampleStorm : Option (Net samplePrimitives (Fin 3) × Net samplePrimitives (Fin 3)) := do
  let (net, _) ← replay (Net.step sampleJson) anyEvent sampleNet
    (sampleRound ++ sampleTargeted)
  let (net', _) ← replay (Net.step sampleJson) Net.deliversBeacon net sampleLap
  some (net, net')

/-- A reply addressed to a router with a route to itself goes round for ever. -/
theorem beacon_storm : sampleNet.Started ∧
    ∃ trace net, Runs (Net.step sampleJson) anyEvent sampleNet trace net ∧
      ∃ lap net', Runs (Net.step sampleJson) Net.deliversBeacon net lap net' ∧
        lap ≠ [] ∧ net'.beaconState = net.beaconState := by
  have hreturn : sampleStorm.any (fun nets => nets.2.beaconState = nets.1.beaconState) =
      true := by decide +kernel
  cases hstorm : sampleStorm with
  | none =>
      rw [hstorm] at hreturn
      cases hreturn
  | some nets =>
      rw [hstorm] at hreturn
      simp only [sampleStorm, Option.bind_eq_bind, Option.bind_eq_some_iff,
        Option.some.injEq, Prod.exists] at hstorm
      obtain ⟨net, trace, hreach, net', lap, hlap, rfl⟩ := hstorm
      obtain ⟨run, -⟩ := runs_of_replay hreach
      obtain ⟨runLap, hevents⟩ := runs_of_replay hlap
      refine ⟨sampleNet_started, trace, net, run, lap, net', runLap, ?_,
        of_decide_eq_true hreturn⟩
      rintro rfl
      cases hevents

end Inet256.Beaconnet
