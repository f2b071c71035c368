import Inet256.Beaconnet.Delivery

/-!
# A heartbeat reaches everyone

A beacon that is news is passed on to all neighbours but the one it came from,
who has it already.  So a new beacon spreads through the network until every
router that can be reached from its origin has a route to it.  The origin
itself can spoil this: it answers a router it hears of for the first time with
its newest beacon, addressed to that router.  If the answer overtakes the
heartbeat, the heartbeat is no news any more and is not passed on.
-/

namespace Inet256.Beaconnet

open Inet256.Foundation
open Inet256.Crypto
open Relation

variable {P : Primitives} {J : JsonCodec Beacon}

/-! ## One router -/

/-- A beacon of the origin that is at least as new as the counter. -/
def VerifiedBeacon.Heralds (v : VerifiedBeacon P) (origin : Addr) (least : UInt64) : Prop :=
  v.origin = origin ∧ least ≤ v.counter

namespace Router

def Knows (r : Router P) (origin : Addr) (least : UInt64) : Prop :=
  ∃ ps, r.lookupPeerState origin = some ps ∧ least ≤ ps.counter

/-- The payload is a beacon of a router that is not in the table. -/
def hearsNew (J : JsonCodec Beacon) (r : Router P) (payload : Bytes) : Bool :=
  match readBeacon P J payload with
  | .ok v => r.isFirst v
  | .error _ => false

variable {r r' : Router P} {event : RouterEvent} {effects : List (Effect P)} {origin : Addr}
  {least : UInt64}

theorem hearsNew_eq_isFirst {payload : Bytes} {v : VerifiedBeacon P}
    (hread : readBeacon P J payload = .ok v) : r.hearsNew J payload = r.isFirst v := by
  rw [hearsNew, hread]

theorem knows_learn {v : VerifiedBeacon P} (sender : Addr) (herald : v.Heralds origin least) :
    (r.learn sender v).Knows origin least := by
  obtain ⟨ps, hps, hle⟩ := r.lookup_learn_origin sender v
  rw [herald.1] at hps
  exact ⟨ps, hps, UInt64.le_trans herald.2 (UInt64.le_iff_toNat_le.mpr hle)⟩

theorem Knows.step (hclean : r.noCleanup event) (h : r.step J event = some (r', effects))
    (knows : r.Knows origin least) : r'.Knows origin least := by
  obtain ⟨ps, hps, hle⟩ := knows
  rcases Router.lookup_step hclean h with ⟨sender, payload, v, -, -, rfl⟩ | ⟨-, hlookup⟩
  · by_cases horigin : origin = v.origin
    · subst horigin
      -- the entry is the old one, or a newer one
      by_cases hnews : r.isNews v = true
      · refine ⟨_, by rw [lookup_learn, if_pos ⟨hnews, rfl⟩], ?_⟩
        rw [isNews, hps, decide_eq_true_iff] at hnews
        exact UInt64.le_trans hle (UInt64.le_of_lt hnews)
      · exact ⟨ps, by rw [lookup_learn, if_neg fun h => hnews h.1, hps], hle⟩
    · exact ⟨ps, by rw [lookup_learn, if_neg fun h => horigin h.2, hps], hle⟩
  · exact ⟨ps, by rw [hlookup, hps], hle⟩

theorem knows_of_below {sender : Addr} {payload : Bytes} {v : VerifiedBeacon P}
    (hread : readBeacon P J payload = .ok v) (herald : v.Heralds origin least)
    (h : r.step J (.below sender payload) = some (r', effects)) : r'.Knows origin least := by
  have hbelow := toOption_eq_some.mp h
  rw [r.handleBelow_beacon sender hread] at hbelow
  cases hbelow
  exact knows_learn sender herald

/-- What a router comes to know it hears from a beacon that is news to it. -/
theorem knows_of_step (h : r.step J event = some (r', effects)) (knows : r'.Knows origin least) :
    r.Knows origin least ∨ ∃ sender payload v, event = .below sender payload ∧
      readBeacon P J payload = .ok v ∧ v.Heralds origin least ∧ r.isNews v = true := by
  obtain ⟨ps, hps, hle⟩ := knows
  rcases Router.lookup_of_step h hps with hold |
    ⟨sender, payload, v, hevent, hread, hnews, rfl, rfl⟩
  · exact Or.inl ⟨ps, hold, hle⟩
  · exact Or.inr ⟨sender, payload, v, hevent, hread, ⟨rfl, hle⟩, hnews⟩

theorem counter_step (h : r.step J event = some (r', effects)) :
    r'.ourBeacon = r.ourBeacon ∨
      ∃ now, event = .heartbeat now ∧ r'.ourBeacon.counter = now.unixNano := by
  rcases Router.step_cases h with ⟨sender, _, v, -, -, rfl, -⟩ | ⟨_, _, -, -, rfl, -⟩ |
    ⟨_, _, -, rfl, -⟩ | ⟨now, rfl, hbeat⟩
  · exact Or.inl (r.learn_ourBeacon sender v)
  · exact Or.inl rfl
  · exact Or.inl rfl
  · rcases Router.heartbeat_cases hbeat with ⟨rfl, -⟩ | ⟨b, hnew, rfl, -⟩
    · left
      unfold cleanupIfDue
      split <;> rfl
    · exact Or.inr ⟨now, rfl, (newBeacon_eq_ok hnew).2⟩

/-- A heartbeat that is due announces the router under the time of the heartbeat. -/
theorem heartbeat_due {now : Time} (hdue : r.beaconPeriod ≤ now.sub r.lastBeacon)
    (h : r.step J (.heartbeat now) = some (r', effects)) :
    r'.ourBeacon.counter = now.unixNano ∧
      effects = r'.broadcast r'.localID typeBeacon (J.marshal r'.ourBeacon) := by
  have hbase : (r.cleanupIfDue now).beaconPeriod = r.beaconPeriod ∧
      (r.cleanupIfDue now).lastBeacon = r.lastBeacon := by
    unfold cleanupIfDue
    split <;> exact ⟨rfl, rfl⟩
  have hbeat := toOption_eq_some.mp h
  unfold heartbeat at hbeat
  dsimp only at hbeat
  rw [hbase.1, hbase.2, if_pos hdue] at hbeat
  obtain ⟨b, hnew, hbeat⟩ := Go.bind_eq_ok.mp hbeat
  cases hbeat
  exact ⟨(newBeacon_eq_ok hnew).2, rfl⟩

/-- A beacon of an origin is sent by the origin, or passed on under the same destination. -/
theorem sent_herald (laws : LawfulKeys P) (own : r.OwnBeacon)
    (hstep : r.step J event = some (r', effects)) {next : Addr} {sent : Bytes}
    (hsend : Effect.send next sent ∈ effects) {w : VerifiedBeacon P}
    (hread : readBeacon P J sent = .ok w) (herald : w.Heralds origin least) :
    (r'.localID = origin ∧ least ≤ r'.ourBeacon.counter ∧
      (w.hdr.getDst = broadcastAddr ∨
        ∃ payload v, event = .below next payload ∧ readBeacon P J payload = .ok v ∧
          r.isFirst v = true)) ∨
    ∃ sender payload v, event = .below sender payload ∧ readBeacon P J payload = .ok v ∧
      v.Heralds origin least ∧ w.hdr.getDst = v.hdr.getDst := by
  have own' := Router.ownBeacon_step own hstep
  -- the origin's own beacon, and one that is passed on
  have hown : w.beacon = r'.ourBeacon → verifyBeacon P r'.ourBeacon = .ok w.key →
      newID w.key = .ok w.origin → r'.localID = origin ∧ least ≤ r'.ourBeacon.counter := by
    intro hbeacon hverify hid
    refine ⟨(own'.origin laws hverify hid).symm.trans herald.1, ?_⟩
    rw [← hbeacon]
    exact herald.2
  have hrelayed : ∀ {sender payload v}, event = .below sender payload →
      readBeacon P J payload = .ok v → w.beacon = v.beacon →
      verifyBeacon P v.beacon = .ok w.key → newID w.key = .ok w.origin →
      v.Heralds origin least := by
    intro sender payload v _ hv hbeacon hverify hid
    obtain ⟨_, -, -, -, hverify', hid'⟩ := readBeacon_eq_ok.mp hv
    rw [hverify'] at hverify
    rw [← Except.ok.inj hverify, hid'] at hid
    refine ⟨(Except.ok.inj hid).trans herald.1, ?_⟩
    have hle := herald.2
    rwa [VerifiedBeacon.counter, hbeacon] at hle
  cases Router.sent_of_step hstep hsend with
  | announce now hevent =>
      obtain ⟨hhdr, hbeacon, hverify, hid⟩ := readBeacon_make.mp hread
      obtain ⟨hlocal, hle⟩ := hown hbeacon hverify hid
      exact Or.inl ⟨hlocal, hle, Or.inl (by rw [hhdr, Header.getDst_make])⟩
  | reply payload v hevent hv hfirst =>
      obtain ⟨hhdr, hbeacon, hverify, hid⟩ := readBeacon_make.mp hread
      obtain ⟨hlocal, hle⟩ := hown hbeacon hverify hid
      exact Or.inl ⟨hlocal, hle, Or.inr ⟨payload, v, hevent, hv, hfirst⟩⟩
  | flood sender payload v hevent hv hnews hdst =>
      obtain ⟨hhdr, hbeacon, hverify, hid⟩ := readBeacon_make.mp hread
      refine Or.inr ⟨sender, payload, v, hevent, hv, hrelayed hevent hv hbeacon hverify hid, ?_⟩
      rw [hhdr, Header.getDst_make, hdst]
  | forward sender payload v ps hevent hv hdst hroute =>
      obtain ⟨hhdr, hbeacon, hverify, hid⟩ := readBeacon_make.mp hread
      refine Or.inr ⟨sender, payload, v, hevent, hv, hrelayed hevent hv hbeacon hverify hid, ?_⟩
      rw [hhdr, Header.getDst_make]
  | data hdr body htype hother => exact absurd hread (readBeacon_data htype w)

theorem mem_broadcast {exclude peer : Addr} (mtype : UInt8) (body : Bytes)
    (hpeer : peer ∈ r.peers.list) (hne : peer ≠ exclude) :
    Effect.send peer ((Header.make r.localID broadcastAddr mtype).toList ++ body) ∈
      r.broadcast exclude mtype body := by
  rw [broadcast, List.mem_map]
  exact ⟨peer, List.mem_filter.mpr ⟨hpeer, by simpa using hne⟩, rfl⟩

/-- News for everyone is sent to every neighbour but the one it came from. -/
theorem floods {sender peer : Addr} {payload : Bytes} {v : VerifiedBeacon P}
    (hread : readBeacon P J payload = .ok v) (hnews : r.isNews v = true)
    (hdst : v.hdr.getDst = broadcastAddr) (hpeer : peer ∈ r.peers.list) (hne : peer ≠ sender) :
    ∃ sent w, Effect.send peer sent ∈ r.beaconEffects J sender v ∧
      readBeacon P J sent = .ok w ∧ w.origin = v.origin ∧ w.counter = v.counter := by
  obtain ⟨_, -, -, -, hverify, hid⟩ := readBeacon_eq_ok.mp hread
  refine ⟨_, { v with hdr := Header.make r.localID broadcastAddr typeBeacon }, ?_,
    readBeacon_make.mpr ⟨rfl, rfl, hverify, hid⟩, rfl, rfl⟩
  rw [← r.learn_peers sender v] at hpeer
  have hsent := mem_broadcast typeBeacon (J.marshal v.beacon) hpeer hne
  rw [r.learn_localID] at hsent
  simp only [beaconEffects, List.mem_append]
  left
  left
  left
  rwa [if_pos ⟨hnews, hdst⟩]

end Router

/-! ## The network -/

section Network

variable {ι : Type} [DecidableEq ι] {net net' : Net P ι} {event : NetEvent ι}
  {effects : List (Effect P)} {o : ι} {least : UInt64}

namespace Net

def Peer (net : Net P ι) (i j : ι) : Prop :=
  (net.router j).localID ∈ (net.router i).peers.list

/-- The origin itself, and every router that has a route to it that is new enough. -/
def Informed (net : Net P ι) (o : ι) (least : UInt64) (i : ι) : Prop :=
  i = o ∨ (net.router i).Knows (net.router o).localID least

/-- A beacon of the origin that is new enough is on its way to the router. -/
def Told (J : JsonCodec Beacon) (net : Net P ι) (o : ι) (least : UInt64) (j : ι) : Prop :=
  ∃ packet ∈ net.flight, packet.receiver = (net.router j).localID ∧
    ∃ v : VerifiedBeacon P, readBeacon P J packet.payload = .ok v ∧
      v.Heralds (net.router o).localID least

/-- Nothing is lost or cleaned up, and the origin hears of no router for the first time. -/
def calm (J : JsonCodec Beacon) (o : ι) (net : Net P ι) : NetEvent ι → Prop
  | .heartbeat node now => ¬ (net.router node).cleanupDue now
  | .above _ _ _ => True
  | .deliver node packet => node = o → (net.router o).hearsNew J packet.payload = false
  | .lose _ => False
  | .duplicate _ => True

instance (o : ι) (net : Net P ι) (event : NetEvent ι) : Decidable (net.calm J o event) :=
  match event with
  | .heartbeat _ _ => inferInstanceAs (Decidable (¬ _))
  | .above _ _ _ => inferInstanceAs (Decidable True)
  | .deliver _ _ => inferInstanceAs (Decidable (_ → _))
  | .lose _ => inferInstanceAs (Decidable False)
  | .duplicate _ => inferInstanceAs (Decidable True)

omit [DecidableEq ι] in
theorem calm.noCleanup (h : net.calm J o event) : net.noCleanup event := by
  cases event with
  | heartbeat => exact h
  | above => trivial
  | deliver => trivial
  | lose => trivial
  | duplicate => trivial

omit [DecidableEq ι] in
theorem Calls.below {node : ι} {sender : Addr} {payload : Bytes} {rest : Multiset Packet}
    (calls : net.Calls event node (.below sender payload) rest) :
    event = .deliver node ⟨sender, (net.router node).localID, payload⟩ ∧
      net.flight = ⟨sender, (net.router node).localID, payload⟩ ::ₘ rest := by
  cases calls with
  | deliver node packet rest hflight hreceiver =>
      rw [← hreceiver]
      exact ⟨rfl, hflight⟩

omit [DecidableEq ι] in
theorem Calls.mem_or_delivered {node : ι} {revent : RouterEvent} {rest : Multiset Packet}
    (calls : net.Calls event node revent rest) {packet : Packet} (h : packet ∈ net.flight) :
    packet ∈ rest ∨ revent = .below packet.sender packet.payload ∧
      packet.receiver = (net.router node).localID := by
  cases calls with
  | heartbeat => exact Or.inl h
  | above => exact Or.inl h
  | deliver node delivered rest hflight hreceiver =>
      rw [hflight] at h
      rcases Multiset.mem_cons.mp h with rfl | hrest
      · exact Or.inr ⟨rfl, hreceiver⟩
      · exact Or.inl hrest

theorem sameNode_step (h : net.step J event = some (net', effects)) (i : ι) :
    (net.router i).SameNode (net'.router i) := by
  refine (invariant_step (fun i r => (net.router i).SameNode r) (fun _ => True) ?_
    (fun i => .refl _) (fun _ _ => trivial) h).1 i
  intro node revent rest r sent calls hstep
  exact ⟨Router.sameNode_step hstep, fun _ _ => trivial⟩

theorem peer_step (h : net.step J event = some (net', effects)) : net'.Peer = net.Peer := by
  funext i j
  rw [Peer, Peer, (sameNode_step h j).localID, (sameNode_step h i).peers]

theorem Informed.step {i : ι} (hclean : net.noCleanup event)
    (h : net.step J event = some (net', effects)) (informed : net.Informed o least i) :
    net'.Informed o least i := by
  rcases informed with rfl | knows
  · exact Or.inl rfl
  · right
    rw [localID_step h]
    refine (invariant_step (fun i r => (net.router i).Knows (net.router o).localID least →
      r.Knows (net.router o).localID least) (fun _ => True) ?_ (fun _ => id)
      (fun _ _ => trivial) h).1 i knows
    intro node revent rest r sent calls hstep
    exact ⟨Router.Knows.step (calls.noCleanup hclean) hstep, fun _ _ => trivial⟩

/-! ### What spreads -/

/--
The beacons of the origin that are new enough are for everyone and come from
routers that know, and the neighbours of every router that knows are told.
-/
structure Flooding (J : JsonCodec Beacon) (o : ι) (least : UInt64) (net : Net P ι) : Prop where
  distinct : Function.Injective fun i => (net.router i).localID
  own : ∀ i, (net.router i).OwnBeacon
  heralds : ∀ packet ∈ net.flight, ∀ v : VerifiedBeacon P,
    readBeacon P J packet.payload = .ok v → v.Heralds (net.router o).localID least →
    v.hdr.getDst = broadcastAddr ∧
      ∃ k, (net.router k).localID = packet.sender ∧ net.Informed o least k
  spreading : Spreading net.Peer (net.Informed o least) (net.Told J o least)

theorem own_step (own : ∀ i, (net.router i).OwnBeacon)
    (h : net.step J event = some (net', effects)) (i : ι) : (net'.router i).OwnBeacon := by
  refine (invariant_step (fun _ r => r.OwnBeacon) (fun _ => True) ?_ own
    (fun _ _ => trivial) h).1 i
  intro node revent rest r sent calls hstep
  exact ⟨Router.ownBeacon_step (own node) hstep, fun _ _ => trivial⟩

theorem router_after (net : Net P ι) (node : ι) (r : Router P) (rest : Multiset Packet)
    (effects : List (Effect P)) : (net.after node r rest effects).router node = r := by
  simp [after]

theorem router_after_of_ne (net : Net P ι) {node i : ι} (r : Router P)
    (rest : Multiset Packet) (effects : List (Effect P)) (hne : i ≠ node) :
    (net.after node r rest effects).router i = net.router i := by
  simp [after, hne]

namespace Flooding

variable {node : ι} {revent : RouterEvent} {rest : Multiset Packet} {r : Router P}

omit [DecidableEq ι] in
/-- What a router sends is for everyone, and the router knows. -/
theorem sent (laws : LawfulKeys P) (flooding : net.Flooding J o least)
    (hcalm : net.calm J o event) (calls : net.Calls event node revent rest)
    (hstep : (net.router node).step J revent = some (r, effects)) {next : Addr}
    {payload : Bytes} (hsend : Effect.send next payload ∈ effects) {v : VerifiedBeacon P}
    (hread : readBeacon P J payload = .ok v)
    (herald : v.Heralds (net.router o).localID least) :
    v.hdr.getDst = broadcastAddr ∧ (node = o ∨ r.Knows (net.router o).localID least) := by
  have hlocal := (Router.sameNode_step hstep).localID
  rcases Router.sent_herald laws (flooding.own node) hstep hsend hread herald with
    ⟨horigin, -, hdst⟩ | ⟨sender, received, w, rfl, hw, heralded, hdst⟩
  · obtain rfl : node = o := flooding.distinct (hlocal.symm.trans horigin)
    refine ⟨?_, Or.inl rfl⟩
    rcases hdst with hdst | ⟨received, w, rfl, hw, hfirst⟩
    · exact hdst
    · -- the origin answers nobody
      obtain ⟨rfl, -⟩ := calls.below
      have hknown := hcalm rfl
      rw [Router.hearsNew_eq_isFirst hw, hfirst] at hknown
      cases hknown
  · obtain ⟨-, hflight⟩ := calls.below
    obtain ⟨hall, -⟩ := flooding.heralds _ (by rw [hflight]; exact Multiset.mem_cons_self _ _)
      w hw heralded
    exact ⟨hdst.trans hall, Or.inr (Router.knows_of_below hw heralded hstep)⟩

omit [DecidableEq ι] in
/-- A router that has come to know tells all its neighbours, or heard it from them. -/
theorem told (flooding : net.Flooding J o least) (calls : net.Calls event node revent rest)
    (hstep : (net.router node).step J revent = some (r, effects))
    (hnew : ¬ net.Informed o least node) (hknows : r.Knows (net.router o).localID least)
    {j : ι} (hpeer : net.Peer node j) :
    net.Informed o least j ∨
      ∃ payload v, Effect.send (net.router j).localID payload ∈ effects ∧
        readBeacon P J payload = .ok v ∧ v.Heralds (net.router o).localID least := by
  rcases Router.knows_of_step hstep hknows with hold |
    ⟨sender, payload, v, rfl, hread, herald, hnews⟩
  · exact absurd (Or.inr hold) hnew
  · obtain ⟨-, hflight⟩ := calls.below
    obtain ⟨hall, k, hk, informed⟩ := flooding.heralds _
      (by rw [hflight]; exact Multiset.mem_cons_self _ _) v hread herald
    by_cases hsender : (net.router j).localID = sender
    · obtain rfl : k = j := flooding.distinct (hk.trans hsender.symm)
      exact Or.inl informed
    · right
      have hbelow := toOption_eq_some.mp hstep
      rw [(net.router node).handleBelow_beacon sender hread] at hbelow
      cases hbelow
      obtain ⟨sent, w, hsend, hw, horigin, hcounter⟩ := Router.floods hread hnews hall hpeer hsender
      exact ⟨sent, w, hsend, hw, horigin.trans herald.1, hcounter ▸ herald.2⟩

theorem call (laws : LawfulKeys P) (flooding : net.Flooding J o least)
    (hcalm : net.calm J o event) (calls : net.Calls event node revent rest)
    (hstep : (net.router node).step J revent = some (r, effects))
    (h : net.step J event = some (net.after node r rest effects, effects)) :
    (net.after node r rest effects).Flooding J o least where
  distinct := by
    simp only [localID_step h]
    exact flooding.distinct
  own := own_step flooding.own h
  heralds := by
    intro packet hpacket v hread herald
    rw [localID_step h] at herald
    rcases Multiset.mem_add.mp hpacket with hrest | hsent
    · obtain ⟨hdst, k, hk, informed⟩ :=
        flooding.heralds packet (calls.mem_flight hrest) v hread herald
      exact ⟨hdst, k, (localID_step h k).trans hk, informed.step hcalm.noCleanup h⟩
    · obtain ⟨hsender, hsend⟩ := mem_packetsOf.mp hsent
      obtain ⟨hdst, hknows⟩ := flooding.sent laws hcalm calls hstep hsend hread herald
      refine ⟨hdst, node, by rw [hsender, router_after], ?_⟩
      rw [Informed, localID_step h, router_after]
      exact hknows
  spreading := by
    intro i j hinformed hpeer
    rw [peer_step h] at hpeer
    have hkeep : net.Informed o least j → (net.after node r rest effects).Informed o least j :=
      fun informed => informed.step hcalm.noCleanup h
    by_cases hold : net.Informed o least i
    · rcases flooding.spreading i j hold hpeer with hj |
        ⟨packet, hmem, hreceiver, v, hread, herald⟩
      · exact Or.inl (hkeep hj)
      · rcases calls.mem_or_delivered hmem with hrest | ⟨rfl, hnode⟩
        · refine Or.inr ⟨packet, Multiset.mem_add.mpr (Or.inl hrest), ?_, v, hread, ?_⟩
          · rw [localID_step h, hreceiver]
          · rwa [localID_step h]
        · -- the packet has arrived
          obtain rfl : j = node := flooding.distinct (hreceiver.symm.trans hnode)
          left
          right
          rw [localID_step h, router_after]
          exact Router.knows_of_below hread herald hstep
    · -- this router has just come to know
      obtain rfl : i = node := by
        by_contra hne
        apply hold
        rcases hinformed with rfl | hknows
        · exact Or.inl rfl
        · right
          rwa [localID_step h, router_after_of_ne net r rest effects hne] at hknows
      have hknows : r.Knows (net.router o).localID least := by
        rcases hinformed with rfl | hknows
        · exact absurd (Or.inl rfl) hold
        · rwa [localID_step h, router_after] at hknows
      rcases flooding.told calls hstep hold hknows hpeer with hj |
        ⟨payload, v, hsend, hread, herald⟩
      · exact Or.inl (hkeep hj)
      · refine Or.inr ⟨⟨r.localID, (net.router j).localID, payload⟩, ?_, ?_, v, hread, ?_⟩
        · exact Multiset.mem_add.mpr (Or.inr (mem_packetsOf.mpr ⟨rfl, hsend⟩))
        · rw [localID_step h]
        · rwa [localID_step h]

theorem step (laws : LawfulKeys P) (flooding : net.Flooding J o least)
    (hcalm : net.calm J o event) (h : net.step J event = some (net', effects)) :
    net'.Flooding J o least := by
  rcases step_cases h with ⟨node, revent, rest, r, calls, hstep, rfl⟩ |
    ⟨packet, hmem, -, ⟨rfl, -⟩ | ⟨-, rfl⟩⟩
  · exact flooding.call laws hcalm calls hstep h
  · cases hcalm
  · refine ⟨flooding.distinct, flooding.own, ?_, ?_⟩
    · intro other hother
      rcases Multiset.mem_cons.mp hother with rfl | hother
      · exact flooding.heralds _ hmem
      · exact flooding.heralds other hother
    · intro i j hinformed hpeer
      rcases flooding.spreading i j hinformed hpeer with hj | ⟨other, hother, htold⟩
      · exact Or.inl hj
      · exact Or.inr ⟨other, Multiset.mem_cons_of_mem hother, htold⟩

end Flooding

/-! ### Before the heartbeat -/

/-- The heartbeats of the origin are earlier. -/
def earlier (o : ι) (now : Time) (_ : Net P ι) : NetEvent ι → Prop
  | .heartbeat node time => node = o → time.unixNano < now.unixNano
  | _ => True

instance (o : ι) (now : Time) (net : Net P ι) (event : NetEvent ι) :
    Decidable (net.earlier o now event) :=
  match event with
  | .heartbeat _ _ => inferInstanceAs (Decidable (_ → _))
  | .above _ _ _ => inferInstanceAs (Decidable True)
  | .deliver _ _ => inferInstanceAs (Decidable True)
  | .lose _ => inferInstanceAs (Decidable True)
  | .duplicate _ => inferInstanceAs (Decidable True)

/-- No beacon of the origin is new enough. -/
structure Stale (J : JsonCodec Beacon) (o : ι) (least : UInt64) (net : Net P ι) : Prop where
  distinct : Function.Injective fun i => (net.router i).localID
  own : ∀ i, (net.router i).OwnBeacon
  tables : ∀ i, ¬ (net.router i).Knows (net.router o).localID least
  flight : ∀ packet ∈ net.flight, ∀ v : VerifiedBeacon P,
    readBeacon P J packet.payload = .ok v → ¬ v.Heralds (net.router o).localID least
  beacon : (net.router o).ourBeacon.counter < least

namespace Stale

variable {now : Time}

omit [DecidableEq ι] in
theorem of_started (started : net.Started) (hreset : (net.router o).ourBeacon.counter < least) :
    net.Stale J o least where
  distinct := started.distinct
  own := by
    intro i
    obtain ⟨base, params, hreset⟩ := started.reset i
    exact Router.ownBeacon_reset hreset
  tables := by
    rintro i ⟨ps, hps, -⟩
    obtain ⟨base, params, hreset⟩ := started.reset i
    obtain ⟨localID, -, hreset⟩ := Go.bind_eq_ok.mp hreset
    obtain ⟨ourBeacon, -, hreset⟩ := Go.bind_eq_ok.mp hreset
    rw [← Except.ok.inj hreset] at hps
    cases hps
  flight := by
    intro packet hpacket
    rw [started.idle] at hpacket
    cases hpacket
  beacon := hreset

theorem step (laws : LawfulKeys P) (stale : net.Stale J o now.unixNano)
    (hearlier : net.earlier o now event) (h : net.step J event = some (net', effects)) :
    net'.Stale J o now.unixNano := by
  have hheard : ∀ node rest sender payload v,
      net.Calls event node (.below sender payload) rest → readBeacon P J payload = .ok v →
      ¬ v.Heralds (net.router o).localID now.unixNano := by
    intro node rest sender payload v calls hread
    obtain ⟨-, hflight⟩ := calls.below
    exact stale.flight _ (by rw [hflight]; exact Multiset.mem_cons_self _ _) v hread
  obtain ⟨hrouters, hflight⟩ := invariant_step
    (fun i r => ¬ r.Knows (net.router o).localID now.unixNano ∧
      (i = o → r.ourBeacon.counter < now.unixNano))
    (fun packet => ∀ v : VerifiedBeacon P, readBeacon P J packet.payload = .ok v →
      ¬ v.Heralds (net.router o).localID now.unixNano)
    (by
      intro node revent rest r sent calls hstep
      have hbeacon : node = o → r.ourBeacon.counter < now.unixNano := by
        rintro rfl
        rcases Router.counter_step hstep with heq | ⟨time, rfl, heq⟩
        · rw [heq]
          exact stale.beacon
        · cases calls
          rw [heq]
          exact hearlier rfl
      refine ⟨⟨fun knows => ?_, hbeacon⟩, fun packet hpacket v hread herald => ?_⟩
      · rcases Router.knows_of_step hstep knows with hold | ⟨_, _, v, rfl, hread, herald, -⟩
        · exact stale.tables node hold
        · exact hheard _ _ _ _ v calls hread herald
      · obtain ⟨-, hsend⟩ := mem_packetsOf.mp hpacket
        have hlocal := (Router.sameNode_step hstep).localID
        rcases Router.sent_herald laws (stale.own node) hstep hsend hread herald with
          ⟨horigin, hle, -⟩ | ⟨_, _, w, rfl, hw, heralded, -⟩
        · have hnode : node = o := stale.distinct (hlocal.symm.trans horigin)
          exact UInt64.not_le.mpr (hbeacon hnode) hle
        · exact hheard _ _ _ _ w calls hw heralded)
    (fun i => ⟨stale.tables i, by rintro rfl; exact stale.beacon⟩) stale.flight h
  exact {
    distinct := by
      simp only [localID_step h]
      exact stale.distinct
    own := own_step stale.own h
    tables := by
      intro i
      rw [localID_step h]
      exact (hrouters i).1
    flight := by
      rw [localID_step h]
      exact hflight
    beacon := (hrouters o).2 rfl }

/-- The heartbeat is the first new beacon, and it is sent to every neighbour. -/
theorem heartbeat (laws : LawfulKeys P) (stale : net.Stale J o now.unixNano)
    (hdue : (net.router o).beaconPeriod ≤ now.sub (net.router o).lastBeacon)
    (h : net.step J (.heartbeat o now) = some (net', effects)) {key : PublicKey P}
    (hvalid : verifyBeacon P (net'.router o).ourBeacon = .ok key) :
    net'.Flooding J o now.unixNano := by
  have own := own_step stale.own h
  have hlocals := localID_step h
  obtain ⟨r, hstep, rfl⟩ := act_eq_some h
  rw [router_after] at hvalid
  have hr := own o
  rw [router_after] at hr
  obtain ⟨hcounter, rfl⟩ := Router.heartbeat_due hdue hstep
  have hlocal := (Router.sameNode_step hstep).localID
  refine ⟨?_, own, ?_, ?_⟩
  · simp only [hlocals]
    exact stale.distinct
  · intro packet hpacket v hread herald
    rw [hlocals] at herald
    rcases Multiset.mem_add.mp hpacket with hrest | hsent
    · exact absurd herald (stale.flight packet hrest v hread)
    · obtain ⟨hsender, hsend⟩ := mem_packetsOf.mp hsent
      rw [Router.send_mem_broadcast hsend] at hread
      obtain ⟨hhdr, -⟩ := readBeacon_make.mp hread
      refine ⟨by rw [hhdr, Header.getDst_make], o, ?_, Or.inl rfl⟩
      rw [hsender, router_after]
  · intro i j hinformed hpeer
    obtain rfl : i = o := by
      by_contra hne
      rcases hinformed with rfl | hknows
      · exact hne rfl
      · rw [hlocals, router_after_of_ne net r _ _ hne] at hknows
        exact stale.tables i hknows
    rw [peer_step h] at hpeer
    by_cases hj : (net.router j).localID = (net.router i).localID
    · exact Or.inl (Or.inl (stale.distinct hj))
    · right
      rw [Peer, ← (Router.sameNode_step hstep).peers] at hpeer
      rw [← hlocal] at hj
      have hsend := Router.mem_broadcast typeBeacon (J.marshal r.ourBeacon) hpeer hj
      have hkey : newID key = .ok r.localID := by
        obtain ⟨hid, time, hnew⟩ := hr
        rw [verifyBeacon_newBeacon laws hnew hvalid, hid]
      refine ⟨⟨r.localID, (net.router j).localID, _⟩, ?_, (hlocals j).symm,
        { hdr := Header.make r.localID broadcastAddr typeBeacon, beacon := r.ourBeacon,
          key, origin := r.localID }, readBeacon_make.mpr ⟨rfl, rfl, hvalid, hkey⟩, ?_⟩
      · exact Multiset.mem_add.mpr (Or.inr (mem_packetsOf.mpr ⟨rfl, hsend⟩))
      · rw [hlocals]
        exact ⟨hlocal, by rw [VerifiedBeacon.counter, hcounter]; exact UInt64.le_refl _⟩

end Stale

/-! ### After the heartbeat -/

/-- Only deliveries of beacons of the origin that are new enough, to the others. -/
def spreads (J : JsonCodec Beacon) (o : ι) (least : UInt64) (net : Net P ι) :
    NetEvent ι → Prop
  | .deliver node packet => node ≠ o ∧ ∃ v : VerifiedBeacon P,
      readBeacon P J packet.payload = .ok v ∧ v.Heralds (net.router o).localID least
  | _ => False

omit [DecidableEq ι] in
theorem spreads.calm (h : net.spreads J o least event) : net.calm J o event := by
  cases event with
  | deliver node packet => exact fun hnode => absurd hnode h.1
  | heartbeat => cases h
  | above => cases h
  | lose => cases h
  | duplicate => cases h

/-- A router that is told can be informed. -/
theorem exists_step_told {j : ι} (hj : ¬ net.Informed o least j) (told : net.Told J o least j) :
    ∃ event net' effects, net.spreads J o least event ∧
      net.step J event = some (net', effects) ∧ net'.Informed o least j := by
  obtain ⟨packet, hmem, hreceiver, v, hread, herald⟩ := told
  have hstep : (net.router j).step J (.below packet.sender packet.payload) = some
      ((net.router j).learn packet.sender v,
        (net.router j).beaconEffects J packet.sender v) := by
    rw [Router.step, (net.router j).handleBelow_beacon packet.sender hread]
    rfl
  have hdeliver : net.step J (.deliver j packet) = some (net.after j
      ((net.router j).learn packet.sender v) (net.flight.erase packet)
      ((net.router j).beaconEffects J packet.sender v),
        (net.router j).beaconEffects J packet.sender v) := by
    rw [Net.step, if_pos ⟨hmem, hreceiver⟩, Net.act, hstep]
    rfl
  refine ⟨.deliver j packet, _, _, ⟨fun hnode => hj (Or.inl hnode), v, hread, herald⟩, hdeliver,
    Or.inr ?_⟩
  rw [localID_step hdeliver, router_after]
  exact Router.knows_learn packet.sender herald

theorem Flooding.exists_run [Fintype ι] (laws : LawfulKeys P)
    (flooding : net.Flooding J o least) :
    ∃ trace net', Runs (Net.step J) (Net.spreads J o least) net trace net' ∧
      trace.length < Fintype.card ι ∧
      ∀ i, ReflTransGen net.Peer o i → net'.Informed o least i := by
  have hprogress : ∀ state : Net P ι, state.Flooding J o least ∧ state.Peer = net.Peer →
      (¬ ∀ i, ReflTransGen net.Peer o i → state.Informed o least i) →
      ∃ event state' effects, state.spreads J o least event ∧
        state.step J event = some (state', effects) ∧
        (state'.Flooding J o least ∧ state'.Peer = net.Peer) ∧
        ignorant (state'.Informed o least) < ignorant (state.Informed o least) := by
    rintro state ⟨flooding, hpeer⟩ hgoal
    rw [not_forall] at hgoal
    obtain ⟨i, hi⟩ := hgoal
    obtain ⟨hreach, hi⟩ := Classical.not_imp.mp hi
    rw [← hpeer] at hreach
    -- somebody on the way is being told
    obtain ⟨j, -, hj, told⟩ := (flooding.spreading.frontier (Or.inl rfl) hreach).resolve_left hi
    obtain ⟨event, next, effects, hspreads, hstep, hinformed⟩ := exists_step_told hj told
    refine ⟨event, next, effects, hspreads, hstep,
      ⟨flooding.step laws hspreads.calm hstep, (peer_step hstep).trans hpeer⟩, ?_⟩
    exact ignorant_lt (fun i informed => informed.step hspreads.calm.noCleanup hstep) hj hinformed
  obtain ⟨trace, net', run, hlength, -, hall⟩ := exists_run_of_progress _ _ _ hprogress
    ⟨flooding, rfl⟩
  have ho : net.Informed o least o := Or.inl rfl
  exact ⟨trace, net', run, hlength.trans_lt (ignorant_lt_card ho), hall⟩

end Net

/--
A heartbeat under a new time reaches every router that can be reached from its
origin, if nothing is lost or cleaned up and the origin hears of no router for
the first time.  After any events, a router without a route that is new enough
has the beacon on its way to somebody who waits for it; and deliveries of the
beacon alone, fewer than there are routers, bring it to everyone.
-/
theorem heartbeat_reaches_everyone [Fintype ι] (laws : LawfulKeys P)
    {net₀ net₁ net₂ net : Net P ι} {now : Time}
    {earlier later : List (NetEvent ι × List (Effect P))} (started : net₀.Started)
    (hreset : (net₀.router o).ourBeacon.counter < now.unixNano)
    (before : Runs (Net.step J) (Net.earlier o now) net₀ earlier net₁)
    (hdue : (net₁.router o).beaconPeriod ≤ now.sub (net₁.router o).lastBeacon)
    (hbeat : net₁.step J (.heartbeat o now) = some (net₂, effects)) {key : PublicKey P}
    (hvalid : verifyBeacon P (net₂.router o).ourBeacon = .ok key)
    (after : Runs (Net.step J) (Net.calm J o) net₂ later net) :
    (∀ i, ReflTransGen net.Peer o i → net.Informed o now.unixNano i ∨
      ∃ j, ReflTransGen net.Peer o j ∧ ¬ net.Informed o now.unixNano j ∧
        net.Told J o now.unixNano j) ∧
    ∃ rest net', Runs (Net.step J) (Net.spreads J o now.unixNano) net rest net' ∧
      rest.length < Fintype.card ι ∧
      ∀ i, ReflTransGen net.Peer o i → net'.Informed o now.unixNano i := by
  have stale : net₁.Stale J o now.unixNano :=
    before.invariant (Net.Stale.of_started started hreset)
      fun _ _ _ _ stale hearlier hstep => stale.step laws hearlier hstep
  have flooding : net.Flooding J o now.unixNano :=
    after.invariant (stale.heartbeat laws hdue hbeat hvalid)
      fun _ _ _ _ flooding hcalm hstep => flooding.step laws hcalm hstep
  exact ⟨fun i hreach => flooding.spreading.frontier (Or.inl rfl) hreach,
    flooding.exists_run laws⟩

end Network

def sampleLater : Time := ⟨Time.unixEpoch + 6 + second⟩

def sampleLaterBeacon : Beacon := { sampleBeacon 3 with counter := sampleLater.unixNano }

theorem heartbeat_reaches_everyone_relayed :
    ∃ (earlier : List (NetEvent (Fin 3) × List (Effect samplePrimitives)))
      (net₁ net₂ : Net samplePrimitives (Fin 3)) (effects : List (Effect samplePrimitives))
      (later : List (NetEvent (Fin 3) × List (Effect samplePrimitives)))
      (net : Net samplePrimitives (Fin 3)),
      earlier.map Prod.fst = sampleRelay ∧
      Runs (Net.step sampleJson) (Net.earlier sampleThird sampleLater) sampleLine earlier net₁ ∧
      net₁.step sampleJson (.heartbeat sampleThird sampleLater) = some (net₂, effects) ∧
      later.map Prod.fst =
        [.deliver sampleSecond (samplePacket 3 2 broadcastAddr sampleLaterBeacon)] ∧
      Runs (Net.step sampleJson) (Net.calm sampleJson sampleThird) net₂ later net ∧
      ∃ rest net', Runs (Net.step sampleJson)
          (Net.spreads sampleJson sampleThird sampleLater.unixNano) net rest net' ∧
        rest.length < 3 ∧ ∀ i, Relation.ReflTransGen net.Peer sampleThird i →
          net'.Informed sampleThird sampleLater.unixNano i := by
  have hreplay : ((replay (Net.step sampleJson) (Net.earlier sampleThird sampleLater)
      sampleLine sampleRelay).bind fun first =>
        (first.1.step sampleJson (.heartbeat sampleThird sampleLater)).bind fun beat =>
          (replay (Net.step sampleJson) (Net.calm sampleJson sampleThird) beat.1
            [.deliver sampleSecond (samplePacket 3 2 broadcastAddr sampleLaterBeacon)]).map
              fun _ => (decide ((first.1.router sampleThird).beaconPeriod ≤
                  sampleLater.sub (first.1.router sampleThird).lastBeacon),
                (verifyBeacon samplePrimitives
                  (beat.1.router sampleThird).ourBeacon).toOption.isSome)) =
      some (true, true) := by decide +kernel
  obtain ⟨⟨net₁, earlier⟩, hfirst, hreplay⟩ := Option.bind_eq_some_iff.mp hreplay
  obtain ⟨⟨net₂, effects⟩, hbeat, hreplay⟩ := Option.bind_eq_some_iff.mp hreplay
  obtain ⟨⟨net, later⟩, hlast, hboth⟩ := Option.map_eq_some_iff.mp hreplay
  obtain ⟨hdue, hvalid⟩ := Prod.mk.inj hboth
  obtain ⟨before, hearlier⟩ := runs_of_replay hfirst
  obtain ⟨after, hlater⟩ := runs_of_replay hlast
  obtain ⟨key, hkey⟩ := Option.isSome_iff_exists.mp hvalid
  have hreset : (sampleLine.router sampleThird).ourBeacon.counter < sampleLater.unixNano := by
    decide +kernel
  exact ⟨earlier, net₁, net₂, effects, later, net, hearlier, before, hbeat, hlater, after,
    (heartbeat_reaches_everyone samplePrimitives_lawfulKeys sampleLine_started hreset before
      (of_decide_eq_true hdue) hbeat (toOption_eq_some.mp hkey) after).2⟩

/--
The third router hears of the second for the first time and answers.  The answer
overtakes the heartbeat, and the first router never hears of the third.
-/
example : (replay (Net.step sampleJson) Net.noCleanup sampleLine
    [.heartbeat sampleThird ⟨Time.unixEpoch + 6⟩, .heartbeat sampleSecond ⟨Time.unixEpoch + 6⟩,
      .deliver sampleThird (samplePacket 2 3 broadcastAddr { sampleBeacon 2 with counter := 6 }),
      .deliver sampleSecond (samplePacket 3 2 (sampleID 2) { sampleBeacon 3 with counter := 6 }),
      .deliver sampleSecond
        (samplePacket 3 2 broadcastAddr { sampleBeacon 3 with counter := 6 })]).map
      (fun result => (((result.1.router sampleFirst).lookupPeerState (sampleID 3)).isSome,
        (result.1.flight.filterMap fun packet =>
          (readBeacon samplePrimitives sampleJson packet.payload).toOption.map
            VerifiedBeacon.origin).count (sampleID 3))) = some (false, 0) := by
  decide +kernel

end Inet256.Beaconnet
