import Inet256.Beaconnet.Network
import Inet256.Routers.FindAddr

/-!
# Where the answers come from

A mesh network on top of a beaconnet router.  The workers that read from the
swarm pass messages to the router, which calls back with every address and
public key it hears of; requests ask the router's table and wait for such a
call.  Workers, callbacks and requests interleave in any way.  The public key of
a peer is whatever the swarm says it is.  Everything else that a request returns
was announced in a beacon that verified: an address found has the prefix that was
asked for, and a public key has the address it was looked up under.
-/

namespace Inet256.Routers

open Inet256.Foundation
open Inet256.Crypto
open Inet256.Bitstr
open Inet256.Beaconnet (Router RouterBase RouterParams RouterEvent Effect PeerSet Beacon
  PeerState VerifiedBeacon readBeacon)

variable {P : Primitives} {F : FutureStore BitString Addr} {G : FutureStore Addr (PublicKey P)}

/-! ## Requests with true outcomes -/

namespace Requests

variable {K V : Type} {F : FutureStore K V}

/-- Whatever settled a future fits the key of every call that holds it. -/
def Truthful (s : Requests F) (good : K → V → Prop) : Prop :=
  ∃ label, F.Labelled s.store label good ∧
    ∀ call c, s.calls.lookup call = some c → F.Made s.store c.future ∧ label c.future = c.key

variable {s s' : Requests F} {good good' : K → V → Prop}

theorem truthful_new (key : K) (good : K → V → Prop) : (new : Requests F).Truthful good :=
  ⟨fun _ => key, FutureStore.labelled_new _ good, by simp [new]⟩

theorem Truthful.mono (h : s.Truthful good)
    (himp : ∀ key value, good key value → good' key value) : s.Truthful good' := by
  obtain ⟨label, hlabel, hcalls⟩ := h
  exact ⟨label, hlabel.mono himp, hcalls⟩

theorem Truthful.outcome (h : s.Truthful good) {call : Nat} {c : Call K} {value : V}
    (hc : s.calls.lookup call = some c) (hvalue : F.outcome s.store c.future = some value) :
    good c.key value := by
  obtain ⟨label, hlabel, hcalls⟩ := h
  rw [← (hcalls call c hc).2]
  exact hlabel.outcome c.future value hvalue

theorem Truthful.start (h : s.Truthful good) {call : Nat} {key : K}
    (hstart : s.start call key = some s') : s'.Truthful good := by
  obtain ⟨label, hlabel, hcalls⟩ := h
  obtain ⟨label', hlabel', hkey, hold⟩ := hlabel.getOrCreate key
  unfold Requests.start at hstart
  split at hstart
  · cases hstart
  · cases hstart
    refine ⟨label', hlabel', ?_⟩
    intro other c hlookup
    rcases GoMap.lookup_insert_cases hlookup with ⟨-, rfl⟩ | ⟨-, hlookup⟩
    · exact ⟨F.made_of_get _ _ _ (F.get_getOrCreate_self s.store key), hkey⟩
    · obtain ⟨hmade, hc⟩ := hcalls other c hlookup
      exact ⟨(F.made_getOrCreate _ _ _).mpr (Or.inr hmade), (hold c.future hmade).trans hc⟩

theorem Truthful.enter (h : s.Truthful good) {call : Nat} {c : Call K}
    (hc : s.calls.lookup call = some c) (phase : Phase) :
    (s.enter call c phase).Truthful good := by
  obtain ⟨label, hlabel, hcalls⟩ := h
  refine ⟨label, hlabel, ?_⟩
  intro other c' hlookup
  rcases GoMap.lookup_insert_cases hlookup with ⟨-, rfl⟩ | ⟨-, hlookup⟩
  · exact hcalls call c hc
  · exact hcalls other c' hlookup

theorem Truthful.leave (h : s.Truthful good) (call : Nat) (c : Call K) :
    (s.leave call c).Truthful good := by
  obtain ⟨label, hlabel, hcalls⟩ := h
  unfold Requests.leave
  refine ⟨label, ?_, ?_⟩
  · dsimp only
    split
    · exact hlabel.delete c.key c.future
    · exact hlabel
  · intro other c' hlookup
    have hold := hcalls other c' (GoMap.lookup_erase_cases hlookup).2
    dsimp only
    split
    · rw [F.made_delete]
      exact hold
    · exact hold

theorem Truthful.settle (h : s.Truthful good) {call : Nat} {c : Call K}
    (hc : s.calls.lookup call = some c) {answer : Option V}
    (hgood : ∀ value, answer = some value → good c.key value) :
    (s.settle c.future answer).Truthful good := by
  obtain ⟨label, hlabel, hcalls⟩ := h
  cases answer with
  | none => exact ⟨label, hlabel, hcalls⟩
  | some value =>
      obtain ⟨hmade, hkey⟩ := hcalls call c hc
      refine ⟨label, hlabel.settle hmade (by rw [hkey]; exact hgood value rfl), ?_⟩
      intro other c' hlookup
      change F.Made (F.settle s.store c.future value).1 _ ∧ _
      rw [F.made_settle]
      exact hcalls other c' hlookup

/-- The future registered under a key is settled. -/
theorem Truthful.settle_registered (h : s.Truthful good) {key : K} {future : Nat} {value : V}
    (hget : F.get s.store key = some future) (hgood : good key value) :
    (s.settle future (some value)).Truthful good := by
  obtain ⟨label, hlabel, hcalls⟩ := h
  have hkey := hlabel.registered key future hget
  refine ⟨label, hlabel.settle (F.made_of_get _ _ _ hget) (by rw [hkey]; exact hgood), ?_⟩
  intro other c' hlookup
  change F.Made (F.settle s.store future value).1 _ ∧ _
  rw [F.made_settle]
  exact hcalls other c' hlookup

theorem Truthful.answerEach (h : s.Truthful good) {answer : K → Option V}
    (hgood : ∀ key value, answer key = some value → good key value) :
    (s.answerEach answer).1.Truthful good := by
  obtain ⟨label, hlabel, hcalls⟩ := h
  refine ⟨label, hlabel.settleEach hgood, ?_⟩
  intro other c' hlookup
  change F.Made (F.settleEach s.store answer).1 _ ∧ _
  rw [FutureStore.made_settleEach]
  exact hcalls other c' hlookup

/-- Everything an act can do to the call it is about. -/
theorem act_cases {a : Act V} {returned : Option V} (h : s.act a = some (s', returned)) :
    ∃ call c, s.calls.lookup call = some c ∧
      ((∃ answer, a = .attempt call answer ∧ returned = none ∧
          s' = (s.settle c.future answer).enter call c .await) ∨
        (a = .succeed call ∧ ∃ value, F.outcome s.store c.future = some value ∧
          returned = some value ∧ s' = s.leave call c) ∨
        (a = .cancel call ∧ returned = none ∧ s' = s.leave call c) ∨
        (a = .again call ∧ returned = none ∧ s' = s.enter call c .attempt)) := by
  unfold Requests.act at h
  cases a with
  | attempt call answer =>
      dsimp only at h
      split at h
      · next c hc =>
          split at h
          · cases h
            exact ⟨call, c, hc, Or.inl ⟨answer, rfl, rfl, rfl⟩⟩
          · cases h
      · cases h
  | succeed call =>
      dsimp only at h
      split at h
      · next c hc =>
          split at h
          · obtain ⟨value, hvalue, h⟩ := Option.map_eq_some_iff.mp h
            cases h
            exact ⟨call, c, hc, Or.inr (Or.inl ⟨rfl, value, hvalue, rfl, rfl⟩)⟩
          · cases h
      · cases h
  | cancel call =>
      dsimp only at h
      split at h
      · next c hc =>
          split at h
          · cases h
            exact ⟨call, c, hc, Or.inr (Or.inr (Or.inl ⟨rfl, rfl, rfl⟩))⟩
          · cases h
      · cases h
  | again call =>
      dsimp only at h
      split at h
      · next c hc =>
          split at h
          · cases h
            exact ⟨call, c, hc, Or.inr (Or.inr (Or.inr ⟨rfl, rfl, rfl⟩))⟩
          · cases h
      · cases h

/-- An act keeps the outcomes true, if what the router answers is, and returns a true one. -/
theorem Truthful.act (h : s.Truthful good) {a : Act V} {returned : Option V}
    (hact : s.act a = some (s', returned))
    (hgood : ∀ call c value, a = .attempt call (some value) →
      s.calls.lookup call = some c → good c.key value) :
    s'.Truthful good ∧ ∀ value, returned = some value →
      ∃ call c, a = .succeed call ∧ s.calls.lookup call = some c ∧ good c.key value := by
  obtain ⟨call, c, hc, ⟨answer, rfl, rfl, rfl⟩ | ⟨rfl, value, hvalue, rfl, rfl⟩ |
    ⟨rfl, rfl, rfl⟩ | ⟨rfl, rfl, rfl⟩⟩ := act_cases hact
  · have hanswer : ∀ value, answer = some value → good c.key value := by
      rintro value rfl
      exact hgood call c value rfl hc
    refine ⟨(h.settle hc hanswer).enter ?_ .await, by simp⟩
    cases answer <;> exact hc
  · refine ⟨h.leave call c, ?_⟩
    rintro value' hsame
    cases hsame
    exact ⟨call, c, rfl, hc, h.outcome hc hvalue⟩
  · exact ⟨h.leave call c, by simp⟩
  · exact ⟨h.enter hc .attempt, by simp⟩

/-- After a start, a call is the new one or was in progress before. -/
theorem call_of_start {call : Nat} {key : K} (hstart : s.start call key = some s')
    {other : Nat} {c : Call K} (hlookup : s'.calls.lookup other = some c) :
    (other = call ∧ c.key = key) ∨ (other ≠ call ∧ s.calls.lookup other = some c) := by
  unfold Requests.start at hstart
  split at hstart
  · cases hstart
  · cases hstart
    rcases GoMap.lookup_insert_cases hlookup with ⟨rfl, rfl⟩ | ⟨hother, hlookup⟩
    · exact Or.inl ⟨rfl, rfl⟩
    · exact Or.inr ⟨hother, hlookup⟩

/-- After an act, every call in progress was in progress before, for the same key. -/
theorem call_of_act {a : Act V} {returned : Option V} (hact : s.act a = some (s', returned))
    {other : Nat} {c' : Call K} (hlookup : s'.calls.lookup other = some c') :
    ∃ c, s.calls.lookup other = some c ∧ c.key = c'.key := by
  have hentered : ∀ {calls : GoMap Nat (Call K)} {call : Nat} {c : Call K} {phase : Phase},
      calls.lookup call = some c →
      (calls.insert call { c with phase }).lookup other = some c' →
      ∃ c, calls.lookup other = some c ∧ c.key = c'.key := by
    intro calls call c phase hc h
    rcases GoMap.lookup_insert_cases h with ⟨rfl, rfl⟩ | ⟨-, hold⟩
    · exact ⟨c, hc, rfl⟩
    · exact ⟨c', hold, rfl⟩
  obtain ⟨call, c, hc, ⟨answer, rfl, rfl, rfl⟩ | ⟨rfl, value, hvalue, rfl, rfl⟩ |
    ⟨rfl, rfl, rfl⟩ | ⟨rfl, rfl, rfl⟩⟩ := act_cases hact
  · cases answer <;> exact hentered hc hlookup
  · exact ⟨c', (GoMap.lookup_erase_cases hlookup).2, rfl⟩
  · exact ⟨c', (GoMap.lookup_erase_cases hlookup).2, rfl⟩
  · exact hentered hc hlookup

end Requests

/-! ## The node -/

/--
The network with its router.  `queries` has the arguments of every `FindAddr`
call, and `todo` the calls that a worker's message still makes on its context.
-/
structure Node (P : Primitives) (F : FutureStore BitString Addr)
    (G : FutureStore Addr (PublicKey P)) where
  network : Network P F G
  router : Router P
  queries : GoMap Nat (Bytes × Int)
  todo : Nat → List (Effect P)

inductive AwaitTurn where
  | succeed
  | cancel
  | again
  deriving DecidableEq

def AwaitTurn.act {V : Type} (turn : AwaitTurn) (call : Nat) : Act V :=
  match turn with
  | .succeed => .succeed call
  | .cancel => .cancel call
  | .again => .again call

/-- `lookupPublicKey` comes with what the swarm answers, should it be asked. -/
inductive NodeEvent (P : Primitives) where
  | handle (worker : Nat) (event : RouterEvent)
  | callback (worker : Nat)
  | findAddr (call : Nat) (query : Bytes) (nbits : Int)
  | askFindAddr (call : Nat) (order : List Addr)
  | onFindAddr (call : Nat) (turn : AwaitTurn)
  | lookupPublicKey (call : Nat) (target : Addr) (swarm : Go (PublicKey P))
  | askLookupPublicKey (call : Nat)
  | onLookupPublicKey (call : Nat) (turn : AwaitTurn)

/-- What a request returns, with what was asked for. -/
inductive Answer (P : Primitives) where
  | nothing
  | addr (query : Bytes) (nbits : Int) (value : Addr)
  | publicKey (target : Addr) (value : PublicKey P)
  | fromSwarm (target : Addr) (value : Go (PublicKey P))

/-- The call that a router makes on its context, as far as it is about requests. -/
def Network.report (n : Network P F G) : Effect P → Option (Network P F G)
  | .onAddr addr => ((n.handleAddr addr).toOption).map Prod.fst
  | .onPublicKey addr key => some (n.handlePublicKey addr key).1
  | .send _ _ => some n
  | .onData _ _ => some n

namespace Node

def start (params : RouterParams P) (router : Router P) : Node P F G where
  network := Network.new params.peers
  router := router
  queries := ∅
  todo := fun _ => []

def step (J : JsonCodec Beacon) (node : Node P F G) :
    NodeEvent P → Option (Node P F G × Answer P)
  | .handle worker event =>
      match node.todo worker with
      | _ :: _ => none
      | [] => do
          let (router, effects) ← node.router.step J event
          some ({ node with
            router
            todo := Function.update node.todo worker effects }, .nothing)
  | .callback worker =>
      match node.todo worker with
      | [] => none
      | effect :: rest => do
          let network ← node.network.report effect
          some ({ node with
            network
            todo := Function.update node.todo worker rest }, .nothing)
  | .findAddr call query nbits => do
      let (network, _) ← node.network.step (.findAddr call query nbits)
      some ({ node with
        network
        queries := node.queries.insert call (query, nbits) }, .nothing)
  | .askFindAddr call order => do
      let (query, nbits) ← node.queries.lookup call
      let (requests, _) ← node.network.findAddr.act
        (.attempt call (Router.findAddr order query nbits))
      some ({ node with network := { node.network with findAddr := requests } }, .nothing)
  | .onFindAddr call turn => do
      let (query, nbits) ← node.queries.lookup call
      let (requests, value) ← node.network.findAddr.act (turn.act call)
      some ({ node with network := { node.network with findAddr := requests } },
        value.elim .nothing (.addr query nbits))
  | .lookupPublicKey call target swarm => do
      let (network, returned) ← node.network.step (.lookupPublicKey call target)
      some ({ node with network },
        match returned with
        | .fromSwarm => .fromSwarm target swarm
        | _ => .nothing)
  | .askLookupPublicKey call => do
      let c ← node.network.lookupPubKey.calls.lookup call
      let (requests, _) ← node.network.lookupPubKey.act
        (.attempt call (node.router.lookupPublicKey c.key))
      some ({ node with network := { node.network with lookupPubKey := requests } }, .nothing)
  | .onLookupPublicKey call turn => do
      let c ← node.network.lookupPubKey.calls.lookup call
      let (requests, value) ← node.network.lookupPubKey.act (turn.act call)
      some ({ node with network := { node.network with lookupPubKey := requests } },
        value.elim .nothing (.publicKey c.key))

/-- Requests are for at least one bit and no more than there are. -/
def sensible (node : Node P F G) : NodeEvent P → Prop
  | .findAddr _ query nbits => 0 < nbits ∧ nbits ≤ 8 * query.length
  | .askFindAddr _ order => node.router.peerStates.Ranges order
  | _ => True

end Node

/-! ## What the router reports -/

section Reports

variable {J : JsonCodec Beacon} {r r' : Router P} {event : RouterEvent}
  {effects : List (Effect P)}

/-- A message that is a verified beacon of the address, with the key. -/
def Announces (J : JsonCodec Beacon) (event : RouterEvent) (addr : Addr)
    (key : PublicKey P) : Prop :=
  ∃ sender payload v, event = .below sender payload ∧ readBeacon P J payload = .ok v ∧
    v.origin = addr ∧ v.key = key

theorem lookup_of_step (h : r.step J event = some (r', effects)) {addr : Addr}
    {ps : PeerState P} (hps : r'.lookupPeerState addr = some ps) :
    r.lookupPeerState addr = some ps ∨ Announces J event addr ps.publicKey := by
  rcases Router.lookup_of_step h hps with hold | ⟨sender, payload, v, hevent, hread, -, rfl, rfl⟩
  · exact Or.inl hold
  · exact Or.inr ⟨sender, payload, v, hevent, hread, rfl, rfl⟩

/-- What a router's call on its context tells of the network. -/
def Reported (J : JsonCodec Beacon) (event : RouterEvent) : Effect P → Prop
  | .onAddr addr => ∃ key : PublicKey P, Announces J event addr key
  | .onPublicKey addr key => Announces J event addr key
  | .send _ _ => True
  | .onData _ _ => True

theorem reported_of_step (h : r.step J event = some (r', effects)) {effect : Effect P}
    (hmem : effect ∈ effects) : Reported J event effect := by
  have hbroadcast : ∀ {r : Router P} {exclude : Addr} {mtype : UInt8} {body : Bytes},
      effect ∈ r.broadcast exclude mtype body → Reported J event effect := by
    intro r exclude mtype body hsent
    obtain ⟨peer, -, rfl⟩ := List.mem_map.mp hsent
    trivial
  rcases Router.step_cases h with ⟨sender, payload, v, rfl, hread, rfl, rfl⟩ |
    ⟨_, _, rfl, -, rfl, rfl | ⟨hdr, body, -, -, hdata⟩⟩ | ⟨_, _, rfl, rfl, rfl⟩ |
    ⟨now, rfl, hbeat⟩
  · simp only [Router.beaconEffects, List.mem_append] at hmem
    rcases hmem with ((hflood | hforward) | hreply) | hreport
    · split at hflood
      · exact hbroadcast hflood
      · cases hflood
    · split at hforward
      · split at hforward
        · cases hforward
        · cases List.mem_singleton.mp hforward
          trivial
      · cases hforward
    · split at hreply
      · cases List.mem_singleton.mp hreply
        trivial
      · cases hreply
    · simp only [List.mem_cons, List.not_mem_nil, or_false] at hreport
      rcases hreport with rfl | rfl
      · exact ⟨v.key, sender, payload, v, rfl, hread, rfl, rfl⟩
      · exact ⟨sender, payload, v, rfl, hread, rfl, rfl⟩
  · cases hmem
  · unfold Router.handleData at hdata
    split at hdata
    · cases hdata
      cases List.mem_singleton.mp hmem
      trivial
    · split at hdata
      · cases hdata
        cases List.mem_singleton.mp hmem
        trivial
      · split at hdata
        · cases hdata
        · cases hdata
          cases List.mem_singleton.mp hmem
          trivial
  · unfold Router.handleAbove at hmem
    split at hmem
    · cases hmem
    · cases List.mem_singleton.mp hmem
      trivial
  · rcases Router.heartbeat_cases hbeat with ⟨-, rfl⟩ | ⟨b, -, -, rfl⟩
    · cases hmem
    · exact hbroadcast hmem

end Reports

/-! ## The invariant -/

abbrev NodeTrace (P : Primitives) := List (NodeEvent P × Answer P)

/-- A worker has handled a verified beacon of the address, with the key. -/
def Heard (J : JsonCodec Beacon) (trace : NodeTrace P) (addr : Addr) (key : PublicKey P) :
    Prop :=
  ∃ worker event answer, (.handle worker event, answer) ∈ trace ∧ Announces J event addr key

def HeardOf (J : JsonCodec Beacon) (trace : NodeTrace P) (addr : Addr) : Prop :=
  ∃ key : PublicKey P, Heard J trace addr key

/-- The address starts with the bits of the request, and was heard of. -/
def Fits (J : JsonCodec Beacon) (trace : NodeTrace P) (key : BitString) (addr : Addr) : Prop :=
  key.bits <+: msbOrder.bits addr.toList (addr.toList.length * 8) ∧ HeardOf J trace addr

structure Node.Sound (J : JsonCodec Beacon) (peers : PeerSet) (trace : NodeTrace P)
    (node : Node P F G) : Prop where
  peers_eq : node.network.peers = peers
  table : ∀ addr ps, node.router.lookupPeerState addr = some ps →
    Heard J trace addr ps.publicKey
  addrs : ∀ worker addr, .onAddr addr ∈ node.todo worker → HeardOf J trace addr
  keys : ∀ worker addr key, .onPublicKey addr key ∈ node.todo worker → Heard J trace addr key
  findAddr : node.network.findAddr.Truthful (Fits J trace)
  lookupPubKey : node.network.lookupPubKey.Truthful (Heard J trace)
  strangers : ∀ call c, node.network.lookupPubKey.calls.lookup call = some c →
    peers.contains c.key = false
  queries : ∀ call c, node.network.findAddr.calls.lookup call = some c →
    ∃ query nbits, node.queries.lookup call = some (query, nbits) ∧ 0 < nbits ∧
      nbits ≤ 8 * query.length ∧ Network.findAddrKey query nbits = .ok c.key

section Sound

variable {J : JsonCodec Beacon} {peers : PeerSet} {trace : NodeTrace P}
  {node node' : Node P F G}

theorem Heard.concat {addr : Addr} {key : PublicKey P} (h : Heard J trace addr key)
    (entry : NodeEvent P × Answer P) : Heard J (trace ++ [entry]) addr key := by
  obtain ⟨worker, event, answer, hmem, hannounces⟩ := h
  exact ⟨worker, event, answer, List.mem_append_left _ hmem, hannounces⟩

theorem HeardOf.concat {addr : Addr} (h : HeardOf J trace addr)
    (entry : NodeEvent P × Answer P) : HeardOf J (trace ++ [entry]) addr := by
  obtain ⟨key, hkey⟩ := h
  exact ⟨key, hkey.concat entry⟩

theorem Node.Sound.concat (sound : node.Sound J peers trace) (entry : NodeEvent P × Answer P) :
    node.Sound J peers (trace ++ [entry]) where
  peers_eq := sound.peers_eq
  table := fun addr ps hps => (sound.table addr ps hps).concat entry
  addrs := fun worker addr hmem => (sound.addrs worker addr hmem).concat entry
  keys := fun worker addr key hmem => (sound.keys worker addr key hmem).concat entry
  findAddr := sound.findAddr.mono fun _ _ hfits => ⟨hfits.1, hfits.2.concat entry⟩
  lookupPubKey := sound.lookupPubKey.mono fun _ _ hheard => hheard.concat entry
  strangers := sound.strangers
  queries := sound.queries

/-! ### Messages and callbacks -/

theorem Node.Sound.handle {worker : Nat} {event : RouterEvent} {router : Router P}
    {effects : List (Effect P)} (sound : node.Sound J peers trace)
    (h : node.router.step J event = some (router, effects)) :
    Node.Sound J peers (trace ++ [(.handle worker event, .nothing)]) { node with
      router
      todo := Function.update node.todo worker effects } := by
  have sound' := sound.concat (.handle worker event, .nothing)
  have hannounced : ∀ addr key, Announces J event addr key →
      Heard J (trace ++ [(.handle worker event, .nothing)]) addr key :=
    fun addr key hannounces => ⟨worker, event, .nothing, by simp, hannounces⟩
  refine { sound' with table := ?_, addrs := ?_, keys := ?_ }
  · intro addr ps hps
    rcases lookup_of_step h hps with hold | hannounces
    · exact sound'.table addr ps hold
    · exact hannounced addr ps.publicKey hannounces
  · intro other addr hmem
    by_cases hother : other = worker
    · subst hother
      dsimp only at hmem
      rw [Function.update_self] at hmem
      obtain ⟨key, hannounces⟩ := reported_of_step h hmem
      exact ⟨key, hannounced addr key hannounces⟩
    · dsimp only at hmem
      rw [Function.update_of_ne hother] at hmem
      exact sound'.addrs other addr hmem
  · intro other addr key hmem
    by_cases hother : other = worker
    · subst hother
      dsimp only at hmem
      rw [Function.update_self] at hmem
      exact hannounced addr key (reported_of_step h hmem)
    · dsimp only at hmem
      rw [Function.update_of_ne hother] at hmem
      exact sound'.keys other addr key hmem

/-- Everything a router's call on its context can do to the requests. -/
theorem Network.report_cases {n n' : Network P F G} {effect : Effect P}
    (h : n.report effect = some n') :
    n' = n ∨
    (∃ addr bits, effect = .onAddr addr ∧ Network.addrBits addr = .ok bits ∧
      n' = { n with findAddr := (n.findAddr.answerEach fun key =>
        if hasPrefix bits key then some addr else none).1 }) ∨
    (∃ addr key future, effect = .onPublicKey addr key ∧
      G.get n.lookupPubKey.store addr = some future ∧
      n' = { n with lookupPubKey := n.lookupPubKey.settle future (some key) }) := by
  cases effect with
  | send => exact Or.inl (Option.some.inj h).symm
  | onData => exact Or.inl (Option.some.inj h).symm
  | onAddr addr =>
      obtain ⟨⟨handled, fulfilled⟩, hhandle, rfl⟩ := Option.map_eq_some_iff.mp h
      obtain ⟨bits, hbits, hequal⟩ := Go.bind_eq_ok.mp (toOption_eq_some.mp hhandle)
      cases hequal
      exact Or.inr (Or.inl ⟨addr, bits, rfl, hbits, rfl⟩)
  | onPublicKey addr key =>
      cases h
      unfold Network.handlePublicKey
      split
      · next future hget => exact Or.inr (Or.inr ⟨addr, key, future, rfl, hget, rfl⟩)
      · exact Or.inl rfl

theorem handleAddr_fits {addr : Addr} (hheard : HeardOf J trace addr) {bits : BitString}
    (hbits : Network.addrBits addr = .ok bits) {key : BitString} {value : Addr}
    (h : (if hasPrefix bits key then some addr else none) = some value) :
    Fits J trace key value := by
  split at h
  · next hprefix =>
      cases h
      obtain ⟨bits', hok, heq⟩ := Network.addrBits_bits addr
      rw [hbits] at hok
      cases hok
      exact ⟨heq ▸ (Bitstr.hasPrefix_iff _ _).mp hprefix, hheard⟩
  · cases h

theorem Node.Sound.callback {worker : Nat} {effect : Effect P} {rest : List (Effect P)}
    {network : Network P F G} (sound : node.Sound J peers trace)
    (htodo : node.todo worker = effect :: rest)
    (h : node.network.report effect = some network) :
    Node.Sound J peers trace { node with
      network
      todo := Function.update node.todo worker rest } := by
  have hrest : ∀ other eff, eff ∈ Function.update node.todo worker rest other →
      eff ∈ node.todo other := by
    intro other eff hmem
    by_cases hother : other = worker
    · subst hother
      rw [Function.update_self] at hmem
      rw [htodo]
      exact List.mem_cons_of_mem _ hmem
    · rwa [Function.update_of_ne hother] at hmem
  have hfirst : effect ∈ node.todo worker := by rw [htodo]; exact List.mem_cons_self
  have sound' : Node.Sound J peers trace
      { node with todo := Function.update node.todo worker rest } :=
    { sound with
      addrs := fun other addr hmem => sound.addrs other addr (hrest _ _ hmem)
      keys := fun other addr key hmem => sound.keys other addr key (hrest _ _ hmem) }
  rcases Network.report_cases h with rfl | ⟨addr, bits, rfl, hbits, rfl⟩ |
    ⟨addr, key, future, rfl, hget, rfl⟩
  · exact sound'
  · exact { sound' with
      findAddr := sound.findAddr.answerEach fun key value hanswer =>
        handleAddr_fits (sound.addrs worker addr hfirst) hbits hanswer }
  · exact { sound' with
      lookupPubKey :=
        sound.lookupPubKey.settle_registered hget (sound.keys worker addr key hfirst) }

/-! ### Requests for an address -/

theorem fits_of_table {query : Bytes} {nbits : Int} {key : BitString} (hpos : 0 < nbits)
    (hbound : nbits ≤ 8 * query.length) (hkey : Network.findAddrKey query nbits = .ok key)
    (addr : Addr) :
    key.bits <+: msbOrder.bits addr.toList (addr.toList.length * 8) ↔
      TableAccepts query nbits addr := by
  rw [← Network.pendingAccepts_iff hkey, Network.tableAccepts_iff_pending hpos hbound]

theorem Node.Sound.findAddr_start {call : Nat} {query : Bytes} {nbits : Int}
    {network : Network P F G} {returned : Returned P} (sound : node.Sound J peers trace)
    (hpos : 0 < nbits) (hbound : nbits ≤ 8 * query.length)
    (h : node.network.step (.findAddr call query nbits) = some (network, returned)) :
    Node.Sound J peers trace { node with
      network
      queries := node.queries.insert call (query, nbits) } := by
  obtain ⟨key, hkey, h⟩ := Option.bind_eq_some_iff.mp h
  obtain ⟨requests, hstart, h⟩ := Option.bind_eq_some_iff.mp h
  cases h
  refine { sound with findAddr := sound.findAddr.start hstart, queries := ?_ }
  intro other c hlookup
  dsimp only at hlookup ⊢
  rw [GoMap.lookup_insert_eq]
  rcases Requests.call_of_start hstart hlookup with ⟨rfl, rfl⟩ | ⟨hother, hlookup⟩
  · rw [if_pos rfl]
    exact ⟨query, nbits, rfl, hpos, hbound, toOption_eq_some.mp hkey⟩
  · rw [if_neg hother]
    exact sound.queries other c hlookup

/-- An act on a `FindAddr` call whose attempts get true answers. -/
theorem Node.Sound.findAddr_act {a : Act Addr} {requests : Requests F}
    {value : Option Addr} (sound : node.Sound J peers trace)
    (h : node.network.findAddr.act a = some (requests, value))
    (hgood : ∀ call c addr, a = .attempt call (some addr) →
      node.network.findAddr.calls.lookup call = some c → Fits J trace c.key addr) :
    Node.Sound J peers trace
        { node with network := { node.network with findAddr := requests } } ∧
      ∀ addr, value = some addr → ∃ call c, a = .succeed call ∧
        node.network.findAddr.calls.lookup call = some c ∧ Fits J trace c.key addr := by
  obtain ⟨htruthful, hreturned⟩ := sound.findAddr.act h hgood
  refine ⟨{ sound with findAddr := htruthful, queries := ?_ }, hreturned⟩
  intro call c' hlookup
  obtain ⟨c, hc, hkey⟩ := Requests.call_of_act h hlookup
  rw [← hkey]
  exact sound.queries call c hc

theorem Node.Sound.askFindAddr {call : Nat} {order : List Addr} {query : Bytes} {nbits : Int}
    {requests : Requests F} {value : Option Addr} (sound : node.Sound J peers trace)
    (horder : node.router.peerStates.Ranges order)
    (hquery : node.queries.lookup call = some (query, nbits))
    (h : node.network.findAddr.act (.attempt call (Router.findAddr order query nbits)) =
      some (requests, value)) :
    Node.Sound J peers trace
      { node with network := { node.network with findAddr := requests } } := by
  refine (sound.findAddr_act h ?_).1
  intro other c addr hsame hc
  obtain ⟨rfl, hfound⟩ := Act.attempt.inj hsame
  obtain ⟨query', nbits', hquery', hpos, hbound, hkey⟩ := sound.queries call c hc
  rw [hquery] at hquery'
  cases hquery'
  obtain ⟨⟨ps, hps⟩, haccepts⟩ := Beaconnet.Router.findAddr_eq_some horder hfound
  exact ⟨(fits_of_table hpos hbound hkey addr).mpr haccepts,
    ps.publicKey, sound.table addr ps hps⟩

/-! ### Requests for a public key -/

theorem Node.Sound.lookup_start {call : Nat} {target : Addr} {requests : Requests G}
    (sound : node.Sound J peers trace) (hstranger : peers.contains target = false)
    (h : node.network.lookupPubKey.start call target = some requests) :
    Node.Sound J peers trace
      { node with network := { node.network with lookupPubKey := requests } } := by
  refine { sound with lookupPubKey := sound.lookupPubKey.start h, strangers := ?_ }
  intro other c hlookup
  rcases Requests.call_of_start h hlookup with ⟨-, rfl⟩ | ⟨-, hlookup⟩
  · exact hstranger
  · exact sound.strangers other c hlookup

theorem Node.Sound.lookup_act {a : Act (PublicKey P)} {requests : Requests G}
    {value : Option (PublicKey P)} (sound : node.Sound J peers trace)
    (h : node.network.lookupPubKey.act a = some (requests, value))
    (hgood : ∀ call c key, a = .attempt call (some key) →
      node.network.lookupPubKey.calls.lookup call = some c → Heard J trace c.key key) :
    Node.Sound J peers trace
        { node with network := { node.network with lookupPubKey := requests } } ∧
      ∀ key, value = some key → ∃ call c, a = .succeed call ∧
        node.network.lookupPubKey.calls.lookup call = some c ∧ Heard J trace c.key key := by
  obtain ⟨htruthful, hreturned⟩ := sound.lookupPubKey.act h hgood
  refine ⟨{ sound with lookupPubKey := htruthful, strangers := ?_ }, hreturned⟩
  intro call c' hlookup
  obtain ⟨c, hc, hkey⟩ := Requests.call_of_act h hlookup
  rw [← hkey]
  exact sound.strangers call c hc

theorem Node.Sound.askLookupPublicKey {call : Nat} {c : Call Addr} {requests : Requests G}
    {value : Option (PublicKey P)} (sound : node.Sound J peers trace)
    (hc : node.network.lookupPubKey.calls.lookup call = some c)
    (h : node.network.lookupPubKey.act (.attempt call (node.router.lookupPublicKey c.key)) =
      some (requests, value)) :
    Node.Sound J peers trace
      { node with network := { node.network with lookupPubKey := requests } } := by
  refine (sound.lookup_act h ?_).1
  intro other c' key hsame hc'
  obtain ⟨rfl, hfound⟩ := Act.attempt.inj hsame
  rw [hc] at hc'
  cases hc'
  obtain ⟨ps, hps, rfl⟩ := Option.map_eq_some_iff.mp hfound
  exact sound.table c.key ps hps

/-! ### Answers -/

/--
An address found was heard of and has the prefix.  A key is the target's own and
was heard of; for a peer it is what the swarm answered to this call.
-/
def Answer.Authentic (J : JsonCodec Beacon) (peers : PeerSet) (trace : NodeTrace P)
    (event : NodeEvent P) : Answer P → Prop
  | .nothing => True
  | .addr query nbits value =>
      Addr.hasPrefix value.toList query nbits = true ∧ HeardOf J trace value
  | .publicKey target key =>
      peers.contains target = false ∧ newID key = .ok target ∧ Heard J trace target key
  | .fromSwarm target value =>
      peers.contains target = true ∧ ∃ call, event = .lookupPublicKey call target value

theorem Heard.newID {addr : Addr} {key : PublicKey P} (h : Heard J trace addr key) :
    newID key = .ok addr := by
  obtain ⟨_, _, _, -, sender, payload, v, -, hread, rfl, rfl⟩ := h
  obtain ⟨_, -, -, -, -, hid⟩ := Beaconnet.readBeacon_eq_ok.mp hread
  exact hid

theorem AwaitTurn.act_ne_attempt {V : Type} (turn : AwaitTurn) (call other : Nat)
    (answer : Option V) :
    turn.act call ≠ .attempt other answer := by
  cases turn <;> simp [AwaitTurn.act]

theorem AwaitTurn.eq_of_act_eq_succeed {V : Type} {turn : AwaitTurn} {call other : Nat}
    (h : (turn.act call : Act V) = .succeed other) : other = call := by
  cases turn with
  | succeed =>
      cases h
      rfl
  | cancel => cases h
  | again => cases h

theorem Node.Sound.onFindAddr {call : Nat} {turn : AwaitTurn} {query : Bytes} {nbits : Int}
    {requests : Requests F} {value : Option Addr} (sound : node.Sound J peers trace)
    (hquery : node.queries.lookup call = some (query, nbits))
    (h : node.network.findAddr.act (turn.act call) = some (requests, value))
    (event : NodeEvent P) :
    Node.Sound J peers trace
        { node with network := { node.network with findAddr := requests } } ∧
      (value.elim .nothing (.addr query nbits) : Answer P).Authentic J peers trace event := by
  obtain ⟨sound', hreturned⟩ := sound.findAddr_act h
    fun other c addr hsame _ => absurd hsame (turn.act_ne_attempt call other _)
  refine ⟨sound', ?_⟩
  cases value with
  | none => trivial
  | some addr =>
      obtain ⟨other, c, hsucceed, hc, hfits⟩ := hreturned addr rfl
      obtain rfl := AwaitTurn.eq_of_act_eq_succeed hsucceed
      obtain ⟨query', nbits', hquery', hpos, hbound, hkey⟩ := sound.queries other c hc
      rw [hquery] at hquery'
      cases hquery'
      exact ⟨(fits_of_table hpos hbound hkey addr).mp hfits.1, hfits.2⟩

theorem Node.Sound.onLookupPublicKey {call : Nat} {turn : AwaitTurn} {c : Call Addr}
    {requests : Requests G} {value : Option (PublicKey P)} (sound : node.Sound J peers trace)
    (hc : node.network.lookupPubKey.calls.lookup call = some c)
    (h : node.network.lookupPubKey.act (turn.act call) = some (requests, value))
    (event : NodeEvent P) :
    Node.Sound J peers trace
        { node with network := { node.network with lookupPubKey := requests } } ∧
      (value.elim .nothing (.publicKey c.key) : Answer P).Authentic J peers trace event := by
  obtain ⟨sound', hreturned⟩ := sound.lookup_act h
    fun other c key hsame _ => absurd hsame (turn.act_ne_attempt call other _)
  refine ⟨sound', ?_⟩
  cases value with
  | none => trivial
  | some key =>
      obtain ⟨other, c', hsucceed, hc', hheard⟩ := hreturned key rfl
      obtain rfl := AwaitTurn.eq_of_act_eq_succeed hsucceed
      rw [hc] at hc'
      cases hc'
      exact ⟨sound.strangers other c hc, hheard.newID, hheard⟩

theorem Node.Sound.lookupPublicKey {call : Nat} {target : Addr} {swarm : Go (PublicKey P)}
    {answer : Answer P} (sound : node.Sound J peers trace)
    (h : node.step J (.lookupPublicKey call target swarm) = some (node', answer)) :
    node'.Sound J peers trace ∧
      answer.Authentic J peers trace (.lookupPublicKey call target swarm) := by
  obtain ⟨⟨network, returned⟩, hnetwork, h⟩ := Option.bind_eq_some_iff.mp h
  cases h
  rw [Network.step] at hnetwork
  split at hnetwork
  · next hpeer =>
      cases hnetwork
      rw [sound.peers_eq] at hpeer
      exact ⟨sound, hpeer, call, rfl⟩
  · next hstranger =>
      obtain ⟨requests, hstart, hnetwork⟩ := Option.bind_eq_some_iff.mp hnetwork
      cases hnetwork
      rw [sound.peers_eq, Bool.not_eq_true] at hstranger
      exact ⟨sound.lookup_start hstranger hstart, trivial⟩

theorem Node.Sound.step {event : NodeEvent P} {answer : Answer P}
    (sound : node.Sound J peers trace) (hsensible : node.sensible event)
    (h : node.step J event = some (node', answer)) :
    node'.Sound J peers (trace ++ [(event, answer)]) ∧
      answer.Authentic J peers trace event := by
  cases event with
  | handle worker event =>
      rw [Node.step] at h
      split at h
      · cases h
      · obtain ⟨⟨router, effects⟩, hrouter, h⟩ := Option.bind_eq_some_iff.mp h
        cases h
        exact ⟨sound.handle hrouter, trivial⟩
  | callback worker =>
      rw [Node.step] at h
      split at h
      · cases h
      · next effect rest htodo =>
          obtain ⟨network, hreport, h⟩ := Option.bind_eq_some_iff.mp h
          cases h
          exact ⟨(sound.callback htodo hreport).concat _, trivial⟩
  | findAddr call query nbits =>
      obtain ⟨⟨network, returned⟩, hnetwork, h⟩ := Option.bind_eq_some_iff.mp h
      cases h
      exact ⟨(sound.findAddr_start hsensible.1 hsensible.2 hnetwork).concat _, trivial⟩
  | askFindAddr call order =>
      obtain ⟨⟨query, nbits⟩, hquery, h⟩ := Option.bind_eq_some_iff.mp h
      obtain ⟨⟨requests, value⟩, hact, h⟩ := Option.bind_eq_some_iff.mp h
      cases h
      exact ⟨(sound.askFindAddr hsensible hquery hact).concat _, trivial⟩
  | onFindAddr call turn =>
      obtain ⟨⟨query, nbits⟩, hquery, h⟩ := Option.bind_eq_some_iff.mp h
      obtain ⟨⟨requests, value⟩, hact, h⟩ := Option.bind_eq_some_iff.mp h
      cases h
      obtain ⟨sound', hauthentic⟩ := sound.onFindAddr hquery hact (.onFindAddr call turn)
      exact ⟨sound'.concat _, hauthentic⟩
  | lookupPublicKey call target swarm =>
      obtain ⟨sound', hauthentic⟩ := sound.lookupPublicKey h
      exact ⟨sound'.concat _, hauthentic⟩
  | askLookupPublicKey call =>
      obtain ⟨c, hc, h⟩ := Option.bind_eq_some_iff.mp h
      obtain ⟨⟨requests, value⟩, hact, h⟩ := Option.bind_eq_some_iff.mp h
      cases h
      exact ⟨(sound.askLookupPublicKey hc hact).concat _, trivial⟩
  | onLookupPublicKey call turn =>
      obtain ⟨c, hc, h⟩ := Option.bind_eq_some_iff.mp h
      obtain ⟨⟨requests, value⟩, hact, h⟩ := Option.bind_eq_some_iff.mp h
      cases h
      obtain ⟨sound', hauthentic⟩ := sound.onLookupPublicKey hc hact (.onLookupPublicKey call turn)
      exact ⟨sound'.concat _, hauthentic⟩

theorem sound_start {base : RouterBase} {params : RouterParams P} {router : Router P}
    (hreset : base.reset params = .ok router) :
    (Node.start params router : Node P F G).Sound J params.peers [] where
  peers_eq := rfl
  table := by
    intro addr ps hps
    obtain ⟨localID, -, h⟩ := Go.bind_eq_ok.mp hreset
    obtain ⟨ourBeacon, -, h⟩ := Go.bind_eq_ok.mp h
    cases h
    cases hps
  addrs := by simp [Node.start]
  keys := by simp [Node.start]
  findAddr := Requests.truthful_new ⟨[], 0, rfl⟩ _
  lookupPubKey := Requests.truthful_new router.localID _
  strangers := by simp [Node.start, Network.new, Requests.new]
  queries := by simp [Node.start, Network.new, Requests.new]

end Sound

instance (node : Node P F G) (event : NodeEvent P) : Decidable (node.sensible event) := by
  unfold Node.sensible
  split <;> infer_instance

/-- Two requests wait for a node that then announces itself through a neighbour. -/
def sampleRequests : List (NodeEvent samplePrimitives) :=
  [.lookupPublicKey 0 (Beaconnet.sampleID 3) (fail "not a peer"), .askLookupPublicKey 0,
    .findAddr 1 ((Beaconnet.sampleID 3).toList.take 2) 16, .askFindAddr 1 [],
    .handle 0 (.below (Beaconnet.sampleID 2)
      (Beaconnet.samplePacket 2 1 Beaconnet.broadcastAddr (Beaconnet.sampleBeacon 3)).payload),
    .callback 0, .callback 0, .callback 0,
    .onFindAddr 1 .succeed, .onLookupPublicKey 0 .succeed]

def sampleNode : Node samplePrimitives FutureStore.table FutureStore.table :=
  Node.start (Beaconnet.sampleParams 1 Beaconnet.sampleNeighbour)
    (Beaconnet.sampleRouter 1 Beaconnet.sampleNeighbour)

end Inet256.Routers
