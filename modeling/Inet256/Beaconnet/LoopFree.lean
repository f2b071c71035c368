import Inet256.Beaconnet.Network
import Inet256.Foundation.Flood

/-!
# Loop freedom

A network of routers refines the protocol of numbered announcements: the
tables are its routes, the beacons in flight its announcements, and the
counters its numbers.  Next hops therefore never form a cycle.
-/

namespace Inet256.Beaconnet

open Inet256.Foundation
open Inet256.Crypto

variable {P : Primitives} {J : JsonCodec Beacon}

/-! ## A router's own beacon -/

def Router.OwnBeacon (r : Router P) : Prop :=
  newID r.privateKey.public = .ok r.localID ∧
    ∃ now, newBeacon r.privateKey now = .ok r.ourBeacon

theorem Router.ownBeacon_reset {base : RouterBase} {params : RouterParams P} {r : Router P}
    (h : base.reset params = .ok r) : r.OwnBeacon := by
  obtain ⟨localID, hid, h⟩ := Go.bind_eq_ok.mp h
  obtain ⟨ourBeacon, hbeacon, h⟩ := Go.bind_eq_ok.mp h
  cases h
  exact ⟨hid, params.now, hbeacon⟩

theorem Router.ownBeacon_step {r r' : Router P} {event : RouterEvent}
    {effects : List (Effect P)} (own : r.OwnBeacon)
    (h : r.step J event = some (r', effects)) : r'.OwnBeacon := by
  obtain ⟨hid, now, hbeacon⟩ := own
  have same := Router.sameNode_step h
  refine ⟨by rw [same.privateKey, same.localID, hid], ?_⟩
  rw [same.privateKey]
  rcases Router.step_cases h with ⟨sender, _, v, -, -, rfl, -⟩ | ⟨_, _, -, -, rfl, -⟩ |
    ⟨_, _, -, rfl, -⟩ | ⟨beat, -, hbeat⟩
  · exact ⟨now, by rw [hbeacon, r.learn_ourBeacon sender v]⟩
  · exact ⟨now, hbeacon⟩
  · exact ⟨now, hbeacon⟩
  · have hclean := r.sameNode_cleanupIfDue beat
    rcases Router.heartbeat_cases hbeat with ⟨rfl, -⟩ | ⟨b, hnew, rfl, -⟩
    · refine ⟨now, ?_⟩
      rw [hbeacon]
      unfold Router.cleanupIfDue
      split <;> rfl
    · rw [hclean.privateKey] at hnew
      exact ⟨beat, hnew⟩

theorem Router.OwnBeacon.origin (laws : LawfulKeys P) {r : Router P} (own : r.OwnBeacon)
    {v : VerifiedBeacon P} (hverify : verifyBeacon P r.ourBeacon = .ok v.key)
    (hid : newID v.key = .ok v.origin) : v.origin = r.localID := by
  obtain ⟨hlocal, now, hbeacon⟩ := own
  have hkey := verifyBeacon_newBeacon laws hbeacon hverify
  rw [hkey, hlocal] at hid
  exact (Except.ok.inj hid).symm

theorem Router.lookup_learn_origin (r : Router P) (sender : Addr) (v : VerifiedBeacon P) :
    ∃ ps, (r.learn sender v).lookupPeerState v.origin = some ps ∧
      v.counter.toNat ≤ ps.counter.toNat := by
  rw [Router.lookup_learn]
  by_cases hnews : r.isNews v = true
  · rw [if_pos ⟨hnews, rfl⟩]
    exact ⟨_, rfl, le_rfl⟩
  · rw [if_neg fun h => hnews h.1]
    unfold Router.isNews at hnews
    split at hnews
    · simp at hnews
    · next ps hps =>
        refine ⟨ps, hps, ?_⟩
        rw [decide_eq_true_iff, UInt64.lt_iff_toNat_lt] at hnews
        omega

/-- A router sends its own beacon, or one that is not newer than its table. -/
theorem Router.sent_beacon (laws : LawfulKeys P) {r r' : Router P} {event : RouterEvent}
    {effects : List (Effect P)} (own : r.OwnBeacon)
    (hstep : r.step J event = some (r', effects)) {next : Addr} {payload : Bytes}
    (hsend : Effect.send next payload ∈ effects) {v : VerifiedBeacon P}
    (hread : readBeacon P J payload = .ok v) :
    v.origin = r'.localID ∨ ∃ ps, r'.lookupPeerState v.origin = some ps ∧
      v.counter.toNat ≤ ps.counter.toNat := by
  have own' := Router.ownBeacon_step own hstep
  have relayed : ∀ sender received w, event = .below sender received →
      readBeacon P J received = .ok w → v.beacon = w.beacon →
      verifyBeacon P w.beacon = .ok v.key → newID v.key = .ok v.origin →
      ∃ ps, r'.lookupPeerState v.origin = some ps ∧
        v.counter.toNat ≤ ps.counter.toNat := by
    rintro sender received w rfl hw hbeacon hverify hid
    obtain ⟨_, -, -, -, hverify', hid'⟩ := readBeacon_eq_ok.mp hw
    rw [hverify'] at hverify
    rw [← Except.ok.inj hverify, hid'] at hid
    have hstep' := toOption_eq_some.mp hstep
    rw [r.handleBelow_beacon sender hw] at hstep'
    cases hstep'
    obtain ⟨ps, hps, hle⟩ := r.lookup_learn_origin sender w
    rw [← Except.ok.inj hid, VerifiedBeacon.counter, hbeacon]
    exact ⟨ps, hps, hle⟩
  cases Router.sent_of_step hstep hsend with
  | announce now hevent =>
      obtain ⟨-, -, hverify, hid⟩ := readBeacon_make.mp hread
      exact Or.inl (own'.origin laws hverify hid)
  | reply received w hevent hw hfirst =>
      obtain ⟨-, -, hverify, hid⟩ := readBeacon_make.mp hread
      exact Or.inl (own'.origin laws hverify hid)
  | flood sender received w hevent hw hnews hdst =>
      obtain ⟨-, hbeacon, hverify, hid⟩ := readBeacon_make.mp hread
      exact Or.inr (relayed sender received w hevent hw hbeacon hverify hid)
  | forward sender received w ps hevent hw hdst hroute =>
      obtain ⟨-, hbeacon, hverify, hid⟩ := readBeacon_make.mp hread
      exact Or.inr (relayed sender received w hevent hw hbeacon hverify hid)
  | data hdr body htype hother => exact absurd hread (readBeacon_data htype v)

/-! ## The network refines the protocol of numbered announcements -/

variable {ι : Type} [DecidableEq ι]

def PeerState.route (ps : PeerState P) : Flood.Route Addr where
  next := ps.next
  number := ps.counter.toNat

def VerifiedBeacon.news (v : VerifiedBeacon P) (teller : Addr) : Flood.News Addr where
  teller := teller
  dest := v.origin
  number := v.counter.toNat

def Net.routes (net : Net P ι) (i : ι) (d : Addr) : Option (Flood.Route Addr) :=
  ((net.router i).lookupPeerState d).map PeerState.route

structure Refines (J : JsonCodec Beacon) (addr : ι → Addr) (net : Net P ι)
    (s : Flood.State ι Addr) : Prop where
  localID : ∀ i, (net.router i).localID = addr i
  own : ∀ i, (net.router i).OwnBeacon
  table : s.table = net.routes
  news : ∀ packet ∈ net.flight, ∀ v : VerifiedBeacon P,
    readBeacon P J packet.payload = .ok v → v.news packet.sender ∈ s.news

omit [DecidableEq ι] in
theorem refines_started {net : Net P ι} (started : net.Started) :
    Refines J (fun i => (net.router i).localID) net ⟨fun _ _ => none, ∅⟩ where
  localID := fun _ => rfl
  own := by
    intro i
    obtain ⟨base, params, hreset⟩ := started.reset i
    exact Router.ownBeacon_reset hreset
  table := by
    funext i d
    obtain ⟨base, params, hreset⟩ := started.reset i
    obtain ⟨localID, -, h⟩ := Go.bind_eq_ok.mp hreset
    obtain ⟨ourBeacon, -, h⟩ := Go.bind_eq_ok.mp h
    have hempty : (net.router i).peerStates = ∅ := by
      rw [← Except.ok.inj h]
    simp [Net.routes, Router.lookupPeerState, hempty]
  news := by simp [started.idle]

/-- Learning from a delivered beacon is an adoption, or changes no route. -/
theorem routes_learn {addr : ι → Addr} {net : Net P ι} {s : Flood.State ι Addr}
    (refines : Refines J addr net s) {node : ι} {packet : Packet} {v : VerifiedBeacon P}
    (hmem : packet ∈ net.flight) (hread : readBeacon P J packet.payload = .ok v)
    (rest : Multiset Packet) (effects : List (Effect P)) :
    ∃ s₁, Relation.ReflTransGen (Flood.Step addr) s s₁ ∧ s₁.news = s.news ∧
      s₁.table =
        (net.after node ((net.router node).learn packet.sender v) rest effects).routes := by
  by_cases hnews : (net.router node).isNews v = true
  · refine ⟨s.adopt node (v.news packet.sender), .single (.adopt node _ ?_ ?_), rfl, ?_⟩
    · exact refines.news packet hmem v hread
    · intro route hroute
      rw [refines.table] at hroute
      obtain ⟨ps, hps, rfl⟩ := Option.map_eq_some_iff.mp hroute
      change (net.router node).lookupPeerState v.origin = some ps at hps
      rw [Router.isNews, hps, decide_eq_true_iff, UInt64.lt_iff_toNat_lt] at hnews
      exact hnews
    · funext i d
      rw [Flood.table_adopt, refines.table]
      by_cases hi : i = node
      · subst hi
        by_cases hd : d = v.origin
        · subst hd
          simp [Net.routes, Net.after, Router.lookup_learn, hnews, VerifiedBeacon.news,
            PeerState.route]
        · simp [Net.routes, Net.after, Router.lookup_learn, hd, VerifiedBeacon.news]
      · simp [Net.routes, Net.after, hi]
  · refine ⟨s, .refl, rfl, ?_⟩
    rw [refines.table]
    funext i d
    by_cases hi : i = node
    · subst hi
      simp [Net.routes, Net.after, Router.lookup_learn, hnews]
    · simp [Net.routes, Net.after, hi]

section Call

variable {addr : ι → Addr} {net : Net P ι} {s : Flood.State ι Addr} {event : NetEvent ι}
  {node : ι} {revent : RouterEvent} {rest : Multiset Packet} {r : Router P}
  {effects : List (Effect P)}

theorem Refines.adopt (refines : Refines J addr net s) (hclean : net.noCleanup event)
    (calls : net.Calls event node revent rest)
    (hstep : (net.router node).step J revent = some (r, effects)) :
    ∃ s₁, Relation.ReflTransGen (Flood.Step addr) s s₁ ∧ s₁.news = s.news ∧
      s₁.table = (net.after node r rest effects).routes := by
  rcases Router.lookup_step (calls.noCleanup hclean) hstep with
    ⟨sender, payload, v, rfl, hread, rfl⟩ | ⟨-, hlookup⟩
  · cases calls with
    | deliver _ packet _ hflight _ =>
        exact routes_learn refines (by simp [hflight]) hread rest effects
  · refine ⟨s, .refl, rfl, ?_⟩
    rw [refines.table]
    funext i d
    by_cases hi : i = node
    · subst hi
      simp [Net.routes, Net.after, hlookup]
    · simp [Net.routes, Net.after, hi]

def toldBy (J : JsonCodec Beacon) (r : Router P) (effects : List (Effect P)) :
    Set (Flood.News Addr) :=
  {n | ∃ packet ∈ packetsOf r.localID effects, ∃ v : VerifiedBeacon P,
    readBeacon P J packet.payload = .ok v ∧ v.news packet.sender = n}

theorem Refines.entitled (laws : LawfulKeys P) (refines : Refines J addr net s)
    (hstep : (net.router node).step J revent = some (r, effects))
    {s₁ : Flood.State ι Addr} (htable : s₁.table = (net.after node r rest effects).routes) :
    ∀ n ∈ toldBy J r effects, Flood.Entitled addr s₁ n := by
  rintro n ⟨packet, hpacket, v, hread, rfl⟩
  have hlocal : r.localID = addr node :=
    (Router.sameNode_step hstep).localID.trans (refines.localID node)
  obtain ⟨hsender, hsend⟩ := mem_packetsOf.mp hpacket
  rcases Router.sent_beacon laws (refines.own node) hstep hsend hread with
    horigin | ⟨ps, hps, hle⟩
  · exact Or.inl (hsender.trans horigin.symm)
  · refine Or.inr ⟨node, ps.route, ?_, ?_, hle⟩
    · exact hlocal.symm.trans hsender.symm
    · rw [htable]
      simp [Net.routes, Net.after, VerifiedBeacon.news, hps]

/-- One event is at most one adoption, followed by announcements. -/
theorem Refines.step (laws : LawfulKeys P) {net' : Net P ι}
    (refines : Refines J addr net s) (hclean : net.noCleanup event)
    (h : net.step J event = some (net', effects)) :
    ∃ s', Relation.ReflTransGen (Flood.Step addr) s s' ∧ Refines J addr net' s' := by
  obtain ⟨hrouters, -⟩ := Net.invariant_step
    (fun i r => r.localID = addr i ∧ r.OwnBeacon) (fun _ => True)
    (by
      intro node revent _ r _ _ hstep
      exact ⟨⟨(Router.sameNode_step hstep).localID.trans (refines.localID node),
        Router.ownBeacon_step (refines.own node) hstep⟩, fun _ _ => trivial⟩)
    (fun i => ⟨refines.localID i, refines.own i⟩) (fun _ _ => trivial) h
  rcases Net.step_cases h with ⟨node, revent, rest, r, calls, hstep, rfl⟩ |
    ⟨packet, hmem, -, ⟨-, rfl⟩ | ⟨-, rfl⟩⟩
  · obtain ⟨s₁, hsteps, hnews, htable⟩ := refines.adopt hclean calls hstep
    refine ⟨_, hsteps.tail (.tell _ (refines.entitled laws hstep htable)),
      fun i => (hrouters i).1, fun i => (hrouters i).2, htable, ?_⟩
    intro packet hpacket v hread
    rcases Multiset.mem_add.mp hpacket with hpacket | hpacket
    · left
      rw [hnews]
      exact refines.news packet (calls.mem_flight hpacket) v hread
    · exact Or.inr ⟨packet, hpacket, v, hread, rfl⟩
  · refine ⟨s, .refl, refines.localID, refines.own, refines.table, ?_⟩
    intro other hother
    exact refines.news other (Multiset.mem_of_mem_erase hother)
  · refine ⟨s, .refl, refines.localID, refines.own, refines.table, ?_⟩
    intro other hother
    rcases Multiset.mem_cons.mp hother with rfl | hother
    · exact refines.news _ hmem
    · exact refines.news other hother

end Call

theorem refines_run (laws : LawfulKeys P) {net₀ net : Net P ι}
    {trace : List (NetEvent ι × List (Effect P))} (started : net₀.Started)
    (run : Runs (Net.step J) Net.noCleanup net₀ trace net) :
    ∃ s, Relation.ReflTransGen (Flood.Step fun i => (net₀.router i).localID)
        ⟨fun _ _ => none, ∅⟩ s ∧
      Refines J (fun i => (net₀.router i).localID) net s := by
  refine run.invariant (motive := fun net => ∃ s, Relation.ReflTransGen
    (Flood.Step fun i => (net₀.router i).localID) ⟨fun _ _ => none, ∅⟩ s ∧
    Refines J (fun i => (net₀.router i).localID) net s) ?_ ?_
  · exact ⟨_, .refl, refines_started started⟩
  · rintro net event net' effects ⟨s, hsteps, refines⟩ hclean hstep
    obtain ⟨s', hmore, refines'⟩ := refines.step laws hclean hstep
    exact ⟨s', hsteps.trans hmore, refines'⟩

/-! ## No loops -/

def Net.NextHop (net : Net P ι) (d : Addr) (u v : ι) : Prop :=
  (net.router u).localID ≠ d ∧ (net.router u).nextHop d = some (net.router v).localID

/--
Next hops never form a cycle, in any run without a cleanup.  The keys' binary
form is assumed to be read back as it was written.
-/
theorem next_hops_acyclic (laws : LawfulKeys P) {net₀ net : Net P ι}
    {trace : List (NetEvent ι × List (Effect P))} (started : net₀.Started)
    (run : Runs (Net.step J) Net.noCleanup net₀ trace net) (d : Addr) (u : ι) :
    ¬ Relation.TransGen (net.NextHop d) u u := by
  obtain ⟨s, hsteps, refines⟩ := refines_run laws started run
  obtain ⟨clock, age, ordered⟩ :=
    Flood.Ordered.steps (Flood.ordered_empty _ _ (fun _ _ => rfl) rfl) hsteps
  refine ordered.no_cycle (d := d) started.distinct ?_ u
  rintro i j ⟨hdest, hnext⟩
  rw [← refines.localID i, ← refines.localID j]
  refine ⟨hdest, ?_⟩
  unfold Router.nextHop at hnext
  split at hnext
  · exact Or.inl (Option.some.inj hnext).symm
  · obtain ⟨ps, hps, hnext⟩ := Option.map_eq_some_iff.mp hnext
    refine Or.inr ⟨ps.route, ?_, ?_⟩
    · rw [refines.table]
      simp [Net.routes, hps]
    · exact hnext.trans (refines.localID j)

theorem next_hops_acyclic_after_round :
    ∃ trace net, trace.map Prod.fst = sampleRound ∧
      Runs (Net.step sampleJson) Net.noCleanup sampleNet trace net ∧
      ∀ d u, ¬ Relation.TransGen (net.NextHop d) u u := by
  have hsome : (replay (Net.step sampleJson) Net.noCleanup sampleNet
      sampleRound).isSome = true := by decide +kernel
  obtain ⟨trace, net, hevents, run⟩ := exists_run_of_isSome hsome
  exact ⟨trace, net, hevents, run,
    next_hops_acyclic samplePrimitives_lawfulKeys sampleNet_started run⟩

end Inet256.Beaconnet
