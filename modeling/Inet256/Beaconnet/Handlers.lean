import Inet256.Beaconnet.Router

/-!
# What the handlers do

One statement per handler, from which every invariant of the router and of a
network of routers is derived.  A payload is either a verified beacon, which
the router learns from and answers, or it leaves the tables alone.
-/

namespace Inet256.Beaconnet

open Inet256.Foundation
open Inet256.Crypto

variable {P : Primitives}

structure VerifiedBeacon (P : Primitives) where
  hdr : Header
  beacon : Beacon
  key : PublicKey P
  origin : Addr

def VerifiedBeacon.counter (v : VerifiedBeacon P) : UInt64 := v.beacon.counter

def readBeacon (P : Primitives) (J : JsonCodec Beacon) (payload : Bytes) :
    Go (VerifiedBeacon P) := do
  let (hdr, body) ← parseMessage payload
  if hdr.getType = typeBeacon then
    let beacon ← J.unmarshal body
    let key ← verifyBeacon P beacon
    let origin ← newID key
    return { hdr, beacon, key, origin }
  else fail "not a beacon"

theorem readBeacon_eq_ok {J : JsonCodec Beacon} {payload : Bytes} {v : VerifiedBeacon P} :
    readBeacon P J payload = .ok v ↔
      ∃ body, parseMessage payload = .ok (v.hdr, body) ∧ v.hdr.getType = typeBeacon ∧
        J.unmarshal body = .ok v.beacon ∧ verifyBeacon P v.beacon = .ok v.key ∧
        newID v.key = .ok v.origin := by
  unfold readBeacon
  constructor
  · intro h
    obtain ⟨⟨hdr, body⟩, hparse, h⟩ := Go.bind_eq_ok.mp h
    simp only at h
    split at h
    · next htype =>
        obtain ⟨beacon, hjson, h⟩ := Go.bind_eq_ok.mp h
        obtain ⟨key, hverify, h⟩ := Go.bind_eq_ok.mp h
        obtain ⟨origin, hid, h⟩ := Go.bind_eq_ok.mp h
        cases h
        exact ⟨body, hparse, htype, hjson, hverify, hid⟩
    · cases h
  · rintro ⟨body, hparse, htype, hjson, hverify, hid⟩
    rw [hparse]
    simp only [Go.ok_bind, htype, if_true, hjson, hverify, hid, Go.pure_eq_ok]

/-! ## Learning from a beacon -/

namespace Router

def isNews (r : Router P) (v : VerifiedBeacon P) : Bool :=
  match r.lookupPeerState v.origin with
  | none => true
  | some ps => decide (ps.counter < v.counter)

def isFirst (r : Router P) (v : VerifiedBeacon P) : Bool :=
  (r.lookupPeerState v.origin).isNone

def learn (r : Router P) (sender : Addr) (v : VerifiedBeacon P) : Router P :=
  if r.isNews v then
    { r with
      peerStates := r.peerStates.insert v.origin
        { next := sender, counter := v.counter, publicKey := v.key } }
  else r

@[simp] theorem learn_localID (r : Router P) (sender : Addr) (v : VerifiedBeacon P) :
    (r.learn sender v).localID = r.localID := by
  unfold learn
  split <;> rfl

@[simp] theorem learn_peers (r : Router P) (sender : Addr) (v : VerifiedBeacon P) :
    (r.learn sender v).peers = r.peers := by
  unfold learn
  split <;> rfl

@[simp] theorem learn_privateKey (r : Router P) (sender : Addr) (v : VerifiedBeacon P) :
    (r.learn sender v).privateKey = r.privateKey := by
  unfold learn
  split <;> rfl

@[simp] theorem learn_ourBeacon (r : Router P) (sender : Addr) (v : VerifiedBeacon P) :
    (r.learn sender v).ourBeacon = r.ourBeacon := by
  unfold learn
  split <;> rfl

@[simp] theorem learn_toRouterBase (r : Router P) (sender : Addr) (v : VerifiedBeacon P) :
    (r.learn sender v).toRouterBase = r.toRouterBase := by
  unfold learn
  split <;> rfl

theorem lookup_learn (r : Router P) (sender : Addr) (v : VerifiedBeacon P) (dst : Addr) :
    (r.learn sender v).lookupPeerState dst =
      if r.isNews v = true ∧ dst = v.origin then
        some { next := sender, counter := v.counter, publicKey := v.key }
      else r.lookupPeerState dst := by
  unfold learn
  by_cases hnews : r.isNews v = true
  · rw [if_pos hnews]
    simp only [lookupPeerState, hnews, true_and]
    exact GoMap.lookup_insert_eq _ _ _ _
  · rw [if_neg hnews, if_neg fun h => hnews h.1]

theorem updatePeerState_eq (r : Router P) (sender : Addr) {v : VerifiedBeacon P}
    (hid : newID v.key = .ok v.origin) :
    r.updatePeerState sender v.key v.counter =
      .ok (r.learn sender v, r.isNews v, r.isFirst v) := by
  unfold updatePeerState learn isNews isFirst lookupPeerState
  simp only [hid, Go.ok_bind, Go.pure_eq_ok]
  cases hlookup : r.peerStates.lookup v.origin with
  | none => rfl
  | some ps =>
      by_cases hcounter : ps.counter < v.counter
      · simp [hcounter]
      · -- the stored entry is written back as it was
        simp [hcounter, GoMap.insert_of_lookup hlookup]

/-- What a router sends and reports on a verified beacon, after learning from it. -/
def beaconEffects (J : JsonCodec Beacon) (r : Router P) (sender : Addr)
    (v : VerifiedBeacon P) : List (Effect P) :=
  let r' := r.learn sender v
  (if r.isNews v = true ∧ v.hdr.getDst = broadcastAddr then
    r'.broadcast sender typeBeacon (J.marshal v.beacon) else []) ++
  (if v.hdr.getDst ≠ broadcastAddr then
    match r'.lookupPeerState v.hdr.getDst with
    | none => []
    | some ps => [r'.send ps.next v.hdr.getDst typeBeacon (J.marshal v.beacon)]
  else []) ++
  (if r.isFirst v = true then
    [r'.send sender v.hdr.getSrc typeBeacon (J.marshal r'.ourBeacon)] else []) ++
  [.onAddr v.origin, .onPublicKey v.origin v.key]

theorem handleBelow_beacon {J : JsonCodec Beacon} (r : Router P) (sender : Addr)
    {payload : Bytes} {v : VerifiedBeacon P} (h : readBeacon P J payload = .ok v) :
    r.handleBelow J sender payload = .ok (r.learn sender v, r.beaconEffects J sender v) := by
  obtain ⟨body, hparse, htype, hjson, hverify, hid⟩ := readBeacon_eq_ok.mp h
  have hupdate := r.updatePeerState_eq sender hid
  unfold VerifiedBeacon.counter at hupdate
  have hmessage : r.handleMessage J sender payload =
      .ok (r.learn sender v, r.beaconEffects J sender v) := by
    unfold handleMessage handleBeacon
    rw [hparse]
    simp only [Go.ok_bind, htype, if_true, hjson, hverify, hupdate, hid, Go.pure_eq_ok]
    rfl
  rw [handleBelow, hmessage]

theorem handleBelow_other {J : JsonCodec Beacon} {r r' : Router P} {sender : Addr}
    {payload : Bytes} {effects : List (Effect P)}
    (hread : ∀ v, readBeacon P J payload ≠ .ok v)
    (h : r.handleBelow J sender payload = .ok (r', effects)) :
    r' = r ∧ (effects = [] ∨ ∃ hdr body, parseMessage payload = .ok (hdr, body) ∧
      hdr.getType = typeData ∧ r.handleData hdr body = .ok effects) := by
  unfold handleBelow at h
  split at h
  · cases h
    exact ⟨rfl, Or.inl rfl⟩
  · cases h
  · next result hmessage =>
      cases h
      obtain ⟨⟨hdr, body⟩, hparse, hmessage⟩ := Go.bind_eq_ok.mp hmessage
      simp only at hmessage
      split at hmessage
      · next htype =>
          obtain ⟨b, hjson, hmessage⟩ := Go.bind_eq_ok.mp hmessage
          obtain ⟨key, hverify, hmessage⟩ := Go.bind_eq_ok.mp hmessage
          obtain ⟨update, hupdate, -⟩ := Go.bind_eq_ok.mp hmessage
          obtain ⟨origin, hid, -⟩ := Go.bind_eq_ok.mp hupdate
          apply absurd _ (hread { hdr, beacon := b, key, origin })
          exact readBeacon_eq_ok.mpr ⟨body, hparse, htype, hjson, hverify, hid⟩
      · split at hmessage
        · next htype =>
            obtain ⟨sent, hdata, hmessage⟩ := Go.bind_eq_ok.mp hmessage
            cases hmessage
            exact ⟨rfl, Or.inr ⟨hdr, body, hparse, htype, hdata⟩⟩
        · cases hmessage

theorem heartbeat_cases {J : JsonCodec Beacon} {r r' : Router P} {now : Time}
    {effects : List (Effect P)} (h : r.heartbeat J now = .ok (r', effects)) :
    (r' = r.cleanupIfDue now ∧ effects = []) ∨
    ∃ b, newBeacon (r.cleanupIfDue now).privateKey now = .ok b ∧
      r' = (r.cleanupIfDue now).announced b now ∧
      effects = (r.cleanupIfDue now).broadcast (r.cleanupIfDue now).localID
        typeBeacon (J.marshal b) := by
  unfold heartbeat at h
  dsimp only at h
  split at h
  · obtain ⟨b, hbeacon, h⟩ := Go.bind_eq_ok.mp h
    cases h
    exact Or.inr ⟨b, hbeacon, rfl, rfl⟩
  · cases h
    exact Or.inl ⟨rfl, rfl⟩

/-! ## What stays with the node -/

/-- What no event changes without a reset. -/
structure SameNode (r r' : Router P) : Prop where
  localID : r'.localID = r.localID
  peers : r'.peers = r.peers
  privateKey : r'.privateKey = r.privateKey

theorem SameNode.refl (r : Router P) : SameNode r r := ⟨rfl, rfl, rfl⟩

theorem SameNode.trans {r r' r'' : Router P} (first : SameNode r r')
    (second : SameNode r' r'') : SameNode r r'' :=
  ⟨second.localID.trans first.localID, second.peers.trans first.peers,
    second.privateKey.trans first.privateKey⟩

theorem sameNode_cleanupIfDue (r : Router P) (now : Time) :
    SameNode r (r.cleanupIfDue now) := by
  unfold cleanupIfDue
  split
  · exact ⟨rfl, rfl, rfl⟩
  · exact SameNode.refl r

theorem cleanupIfDue_of_not {r : Router P} {now : Time} (h : ¬ r.cleanupDue now) :
    r.cleanupIfDue now = r := if_neg h

end Router

/-! ## One router as a machine -/

inductive RouterEvent where
  | below (sender : Addr) (payload : Bytes)
  | above (dst : Addr) (data : Bytes)
  | heartbeat (now : Time)
  deriving DecidableEq

/-- A handler call; a call that panics has no next state. -/
def Router.step (J : JsonCodec Beacon) (r : Router P) :
    RouterEvent → Option (Router P × List (Effect P))
  | .below sender payload => (r.handleBelow J sender payload).toOption
  | .above dst data => some (r, (r.handleAbove dst data).2)
  | .heartbeat now => (r.heartbeat J now).toOption

/-- Every event but a heartbeat that would run the cleanup. -/
def Router.noCleanup (r : Router P) : RouterEvent → Prop
  | .heartbeat now => ¬ r.cleanupDue now
  | .below _ _ => True
  | .above _ _ => True

instance (r : Router P) (event : RouterEvent) : Decidable (r.noCleanup event) :=
  match event with
  | .heartbeat now => inferInstanceAs (Decidable (¬ r.cleanupDue now))
  | .below _ _ => isTrue trivial
  | .above _ _ => isTrue trivial

/--
Everything one event can do: learn from a verified beacon, handle some other
message, send application data, or beat.
-/
theorem Router.step_cases {J : JsonCodec Beacon} {r r' : Router P} {event : RouterEvent}
    {effects : List (Effect P)} (h : r.step J event = some (r', effects)) :
    (∃ sender payload v, event = .below sender payload ∧
      readBeacon P J payload = .ok v ∧ r' = r.learn sender v ∧
      effects = r.beaconEffects J sender v) ∨
    (∃ sender payload, event = .below sender payload ∧
      (∀ v, readBeacon P J payload ≠ .ok v) ∧ r' = r ∧
      (effects = [] ∨ ∃ hdr body, parseMessage payload = .ok (hdr, body) ∧
        hdr.getType = typeData ∧ r.handleData hdr body = .ok effects)) ∨
    (∃ dst data, event = .above dst data ∧ r' = r ∧
      effects = (r.handleAbove dst data).2) ∨
    (∃ now, event = .heartbeat now ∧ r.heartbeat J now = .ok (r', effects)) := by
  cases event with
  | below sender payload =>
      have hbelow := toOption_eq_some.mp h
      cases hread : readBeacon P J payload with
      | ok v =>
          rw [r.handleBelow_beacon sender hread] at hbelow
          cases hbelow
          exact Or.inl ⟨sender, payload, v, rfl, hread, rfl, rfl⟩
      | error fault =>
          have hother : ∀ v, readBeacon P J payload ≠ .ok v := by simp [hread]
          obtain ⟨rfl, heffects⟩ := Router.handleBelow_other hother hbelow
          exact Or.inr (Or.inl ⟨sender, payload, rfl, by simp [hread], rfl, heffects⟩)
  | above dst data =>
      cases h
      exact Or.inr (Or.inr (Or.inl ⟨dst, data, rfl, rfl, rfl⟩))
  | heartbeat now =>
      exact Or.inr (Or.inr (Or.inr ⟨now, rfl, toOption_eq_some.mp h⟩))

theorem Router.sameNode_step {J : JsonCodec Beacon} {r r' : Router P} {event : RouterEvent}
    {effects : List (Effect P)} (h : r.step J event = some (r', effects)) :
    Router.SameNode r r' := by
  rcases Router.step_cases h with ⟨sender, _, v, -, -, rfl, -⟩ | ⟨_, _, -, -, rfl, -⟩ |
    ⟨_, _, -, rfl, -⟩ | ⟨now, -, hbeat⟩
  · exact ⟨r.learn_localID sender v, r.learn_peers sender v, r.learn_privateKey sender v⟩
  · exact Router.SameNode.refl _
  · exact Router.SameNode.refl _
  · have hclean := r.sameNode_cleanupIfDue now
    rcases Router.heartbeat_cases hbeat with ⟨rfl, -⟩ | ⟨b, -, rfl, -⟩
    · exact hclean
    · exact ⟨hclean.localID, hclean.peers, hclean.privateKey⟩

theorem Router.lookup_step {J : JsonCodec Beacon} {r r' : Router P} {event : RouterEvent}
    {effects : List (Effect P)} (hclean : r.noCleanup event)
    (h : r.step J event = some (r', effects)) :
    (∃ sender payload v, event = .below sender payload ∧
      readBeacon P J payload = .ok v ∧ r' = r.learn sender v) ∨
    ((∀ sender payload v, event = .below sender payload →
      readBeacon P J payload ≠ .ok v) ∧
      ∀ dst, r'.lookupPeerState dst = r.lookupPeerState dst) := by
  rcases Router.step_cases h with ⟨sender, payload, v, rfl, hread, rfl, -⟩ |
    ⟨sender, payload, rfl, hread, rfl, -⟩ | ⟨dst, data, rfl, rfl, -⟩ | ⟨now, rfl, hbeat⟩
  · exact Or.inl ⟨sender, payload, v, rfl, hread, rfl⟩
  · refine Or.inr ⟨?_, fun _ => rfl⟩
    intro other payload' v heq
    cases heq
    exact hread v
  · exact Or.inr ⟨by simp, fun _ => rfl⟩
  · refine Or.inr ⟨by simp, fun dst => ?_⟩
    rcases Router.heartbeat_cases hbeat with ⟨rfl, -⟩ | ⟨b, -, rfl, -⟩
    · rw [Router.cleanupIfDue_of_not hclean]
    · rw [Router.cleanupIfDue_of_not hclean]
      rfl

/-- An entry of the table was there before, or it is what a newer beacon said. -/
theorem Router.lookup_of_step {J : JsonCodec Beacon} {r r' : Router P} {event : RouterEvent}
    {effects : List (Effect P)} (h : r.step J event = some (r', effects)) {addr : Addr}
    {ps : PeerState P} (hps : r'.lookupPeerState addr = some ps) :
    r.lookupPeerState addr = some ps ∨
    ∃ sender payload v, event = .below sender payload ∧ readBeacon P J payload = .ok v ∧
      r.isNews v = true ∧ addr = v.origin ∧
      ps = { next := sender, counter := v.counter, publicKey := v.key } := by
  rcases Router.step_cases h with ⟨sender, payload, v, rfl, hread, rfl, -⟩ |
    ⟨_, _, -, -, rfl, -⟩ | ⟨_, _, -, rfl, -⟩ | ⟨now, rfl, hbeat⟩
  · rw [Router.lookup_learn] at hps
    split at hps
    · next hnews =>
        cases hps
        exact Or.inr ⟨sender, payload, v, rfl, hread, hnews.1, hnews.2, rfl⟩
    · exact Or.inl hps
  · exact Or.inl hps
  · exact Or.inl hps
  · left
    have hkept : (r.cleanupIfDue now).lookupPeerState addr = some ps := by
      rcases Router.heartbeat_cases hbeat with ⟨rfl, -⟩ | ⟨b, -, rfl, -⟩
      · exact hps
      · exact hps
    unfold Router.cleanupIfDue at hkept
    split at hkept
    · exact (GoMap.lookup_filter_iff.mp hkept).1
    · exact hkept

/-! ## Everything a router sends -/

/-- A message a router sends in one event, with the router before and after it. -/
inductive Router.Sent (J : JsonCodec Beacon) (r r' : Router P) (event : RouterEvent)
    (next : Addr) : Bytes → Prop
  | announce (now : Time) (hevent : event = .heartbeat now) :
      Sent J r r' event next
        ((Header.make r'.localID broadcastAddr typeBeacon).toList ++ J.marshal r'.ourBeacon)
  | flood (sender : Addr) (payload : Bytes) (v : VerifiedBeacon P)
      (hevent : event = .below sender payload) (hread : readBeacon P J payload = .ok v)
      (hnews : r.isNews v = true) (hdst : v.hdr.getDst = broadcastAddr) :
      Sent J r r' event next
        ((Header.make r'.localID broadcastAddr typeBeacon).toList ++ J.marshal v.beacon)
  | forward (sender : Addr) (payload : Bytes) (v : VerifiedBeacon P) (ps : PeerState P)
      (hevent : event = .below sender payload) (hread : readBeacon P J payload = .ok v)
      (hdst : v.hdr.getDst ≠ broadcastAddr)
      (hroute : r'.lookupPeerState v.hdr.getDst = some ps) :
      Sent J r r' event next
        ((Header.make r'.localID v.hdr.getDst typeBeacon).toList ++ J.marshal v.beacon)
  | reply (payload : Bytes) (v : VerifiedBeacon P)
      (hevent : event = .below next payload) (hread : readBeacon P J payload = .ok v)
      (hfirst : r.isFirst v = true) :
      Sent J r r' event next
        ((Header.make r'.localID v.hdr.getSrc typeBeacon).toList ++ J.marshal r'.ourBeacon)
  | data (hdr : Header) (body : Bytes) (htype : hdr.getType = typeData)
      (hother : ∀ sender payload v, event = .below sender payload →
        readBeacon P J payload ≠ .ok v) :
      Sent J r r' event next (hdr.toList ++ body)

theorem Router.send_mem_broadcast {r : Router P} {exclude next : Addr} {mtype : UInt8}
    {body payload : Bytes} (h : Effect.send next payload ∈ r.broadcast exclude mtype body) :
    payload = (Header.make r.localID broadcastAddr mtype).toList ++ body := by
  obtain ⟨peer, -, heq⟩ := List.mem_map.mp h
  cases heq
  rfl

theorem Router.sent_of_beaconEffects {J : JsonCodec Beacon} {r : Router P} {sender next : Addr}
    {payload sent : Bytes} {v : VerifiedBeacon P} (hread : readBeacon P J payload = .ok v)
    (h : Effect.send next sent ∈ r.beaconEffects J sender v) :
    Router.Sent J r (r.learn sender v) (.below sender payload) next sent := by
  simp only [Router.beaconEffects, List.mem_append] at h
  rcases h with ((hflood | hforward) | hreply) | hreport
  · split at hflood
    · next hnews =>
        rw [Router.send_mem_broadcast hflood]
        exact .flood sender payload v rfl hread hnews.1 hnews.2
    · cases hflood
  · split at hforward
    · next hdst =>
        split at hforward
        · cases hforward
        · next ps hroute =>
            cases List.mem_singleton.mp hforward
            exact .forward sender payload v ps rfl hread hdst hroute
    · cases hforward
  · split at hreply
    · next hfirst =>
        cases List.mem_singleton.mp hreply
        exact .reply payload v rfl hread hfirst
    · cases hreply
  · simp at hreport

theorem Router.sent_of_handleData {J : JsonCodec Beacon} {r r' : Router P}
    {event : RouterEvent} {next : Addr} {hdr : Header} {body sent : Bytes}
    {effects : List (Effect P)} (htype : hdr.getType = typeData)
    (hother : ∀ sender payload v, event = .below sender payload →
      readBeacon P J payload ≠ .ok v)
    (hdata : r.handleData hdr body = .ok effects) (h : Effect.send next sent ∈ effects) :
    Router.Sent J r r' event next sent := by
  unfold Router.handleData at hdata
  split at hdata
  · cases hdata
    simp at h
  · split at hdata
    · cases hdata
      cases List.mem_singleton.mp h
      exact .data hdr body htype hother
    · split at hdata
      · cases hdata
      · cases hdata
        cases List.mem_singleton.mp h
        exact .data hdr body htype hother

theorem Router.sent_of_step {J : JsonCodec Beacon} {r r' : Router P} {event : RouterEvent}
    {effects : List (Effect P)} {next : Addr} {sent : Bytes}
    (hstep : r.step J event = some (r', effects)) (h : Effect.send next sent ∈ effects) :
    Router.Sent J r r' event next sent := by
  rcases Router.step_cases hstep with ⟨sender, payload, v, rfl, hread, rfl, rfl⟩ |
    ⟨sender, payload, rfl, hread, rfl, rfl | ⟨hdr, body, -, htype, hdata⟩⟩ |
    ⟨dst, data, rfl, rfl, rfl⟩ | ⟨now, rfl, hbeat⟩
  · exact Router.sent_of_beaconEffects hread h
  · cases h
  · refine Router.sent_of_handleData htype ?_ hdata h
    intro sender' payload' v hevent
    cases hevent
    exact hread v
  · unfold Router.handleAbove at h
    split at h
    · cases h
    · cases List.mem_singleton.mp h
      exact .data _ data (Header.getType_make _ _ _) (by simp)
  · rcases Router.heartbeat_cases hbeat with ⟨-, rfl⟩ | ⟨b, -, rfl, rfl⟩
    · cases h
    · rw [Router.send_mem_broadcast h]
      exact .announce now rfl

/-! ### Reading back what was sent -/

theorem readBeacon_make {J : JsonCodec Beacon} {src dst : Addr} {b : Beacon}
    {v : VerifiedBeacon P} :
    readBeacon P J ((Header.make src dst typeBeacon).toList ++ J.marshal b) = .ok v ↔
      v.hdr = Header.make src dst typeBeacon ∧ v.beacon = b ∧
        verifyBeacon P b = .ok v.key ∧ newID v.key = .ok v.origin := by
  rw [readBeacon_eq_ok]
  constructor
  · rintro ⟨body, hparse, -, hjson, hverify, hid⟩
    rw [parseMessage_append] at hparse
    obtain ⟨hhdr, rfl⟩ := Prod.mk.inj (Except.ok.inj hparse)
    rw [J.unmarshal_marshal] at hjson
    cases hjson
    exact ⟨hhdr.symm, rfl, hverify, hid⟩
  · rintro ⟨hhdr, rfl, hverify, hid⟩
    refine ⟨J.marshal v.beacon, ?_, ?_, J.unmarshal_marshal _, hverify, hid⟩
    · rw [parseMessage_append, hhdr]
    · rw [hhdr, Header.getType_make]

theorem readBeacon_data {J : JsonCodec Beacon} {hdr : Header} {body : Bytes}
    (htype : hdr.getType = typeData) (v : VerifiedBeacon P) :
    readBeacon P J (hdr.toList ++ body) ≠ .ok v := by
  intro h
  obtain ⟨_, hparse, hbeacon, -⟩ := readBeacon_eq_ok.mp h
  rw [parseMessage_append] at hparse
  cases hparse
  rw [htype] at hbeacon
  exact absurd hbeacon (by decide)

end Inet256.Beaconnet
