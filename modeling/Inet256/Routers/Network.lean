import Inet256.Beaconnet.Router
import Inet256.Foundation.Futures
import Inet256.Internal.Bitstr

/-!
# Requests of a mesh network

`FindAddr` and `LookupPublicKey` wait for the router to learn something.  Calls
for the same key share one future; the call that created it unregisters it when
it returns, whatever the others do.  Both calls have the same shape and are
translated once, over the type of their keys and values.
-/

namespace Inet256.Routers

open Inet256.Foundation
open Inet256.Crypto
open Inet256.Bitstr
open Inet256.Beaconnet (PeerSet)

/-! ## Calls that share futures -/

inductive Phase where
  | attempt
  | await
  deriving DecidableEq

structure Call (K : Type) where
  key : K
  future : Nat
  created : Bool
  phase : Phase
  deriving DecidableEq

structure Requests {K V : Type} (F : FutureStore K V) where
  store : F.Store
  calls : GoMap Nat (Call K)

inductive Act (V : Type) where
  | attempt (call : Nat) (answer : Option V)
  | succeed (call : Nat)
  | cancel (call : Nat)
  | again (call : Nat)
  deriving DecidableEq

namespace Requests

variable {K V : Type} {F : FutureStore K V}

def new : Requests F := ⟨F.new, ∅⟩

def start (s : Requests F) (call : Nat) (key : K) : Option (Requests F) :=
  match s.calls.lookup call with
  | some _ => none
  | none =>
      let (store, future, created) := F.getOrCreate s.store key
      some {
        store
        calls := s.calls.insert call { key, future, created, phase := .attempt } }

/-- The call returns, and runs its deferred deletion. -/
def leave (s : Requests F) (call : Nat) (c : Call K) : Requests F where
  store := if c.created then F.delete s.store c.key c.future else s.store
  calls := s.calls.erase call

def enter (s : Requests F) (call : Nat) (c : Call K) (phase : Phase) : Requests F :=
  { s with calls := s.calls.insert call { c with phase } }

def settle (s : Requests F) (future : Nat) : Option V → Requests F
  | some value => { s with store := (F.settle s.store future value).1 }
  | none => s

def act (s : Requests F) : Act V → Option (Requests F × Option V)
  | .attempt call answer =>
      match s.calls.lookup call with
      | some c =>
          if c.phase = .attempt then
            some ((s.settle c.future answer).enter call c .await, none)
          else none
      | none => none
  | .succeed call =>
      match s.calls.lookup call with
      | some c =>
          if c.phase = .await then
            (F.outcome s.store c.future).map fun value => (s.leave call c, some value)
          else none
      | none => none
  | .cancel call =>
      match s.calls.lookup call with
      | some c => if c.phase = .await then some (s.leave call c, none) else none
      | none => none
  | .again call =>
      match s.calls.lookup call with
      | some c => if c.phase = .await then some (s.enter call c .attempt, none) else none
      | none => none

/-- Settle the futures of all keys that have an answer, and whether one was open. -/
def answerEach (s : Requests F) (answer : K → Option V) : Requests F × Bool :=
  let (store, fulfilled) := F.settleEach s.store answer
  ({ s with store }, fulfilled)

/-! ## Waiting calls -/

def Waits (s : Requests F) (call : Nat) (c : Call K) : Prop :=
  s.calls.lookup call = some c ∧ F.outcome s.store c.future = none

/-- Futures of calls in progress exist; those of waiting calls are registered. -/
structure Kept (s : Requests F) : Prop where
  made : ∀ call c, s.calls.lookup call = some c → F.Made s.store c.future
  registered : ∀ call c, s.Waits call c → F.get s.store c.key = some c.future

/-- No other call waits for the future that the leaving call unregisters. -/
def LeavesNoWaiter (s : Requests F) : Act V → Prop
  | .cancel call => ∀ c, s.calls.lookup call = some c → c.created = true →
      ∀ other c', other ≠ call → s.Waits other c' → c'.future ≠ c.future
  | _ => True

theorem kept_new : Kept (new : Requests F) :=
  ⟨fun _ _ h => by simp [new] at h, fun _ _ h => by simp [new, Waits] at h⟩

theorem Kept.of_same {s s' : Requests F} (kept : s.Kept)
    (hcalls : ∀ call c', s'.calls.lookup call = some c' →
      ∃ c, s.calls.lookup call = some c ∧ c.key = c'.key ∧ c.future = c'.future)
    (hget : ∀ key, F.get s'.store key = F.get s.store key)
    (hmade : ∀ future, F.Made s'.store future ↔ F.Made s.store future)
    (hopen : ∀ future, F.outcome s'.store future = none → F.outcome s.store future = none) :
    s'.Kept where
  made := by
    intro call c' hlookup
    obtain ⟨c, hc, -, hfuture⟩ := hcalls call c' hlookup
    rw [hmade, ← hfuture]
    exact kept.made call c hc
  registered := by
    rintro call c' ⟨hlookup, hnone⟩
    obtain ⟨c, hc, hkey, hfuture⟩ := hcalls call c' hlookup
    rw [hget, ← hkey, ← hfuture]
    refine kept.registered call c ⟨hc, ?_⟩
    rw [hfuture]
    exact hopen _ hnone

theorem Kept.enter {s : Requests F} (kept : s.Kept) {call : Nat} {c : Call K}
    (hc : s.calls.lookup call = some c) (phase : Phase) : (s.enter call c phase).Kept := by
  refine kept.of_same ?_ (fun _ => rfl) (fun _ => Iff.rfl) (fun _ h => h)
  intro other c' hlookup
  rcases GoMap.lookup_insert_cases hlookup with ⟨rfl, rfl⟩ | ⟨-, hlookup⟩
  · exact ⟨c, hc, rfl, rfl⟩
  · exact ⟨c', hlookup, rfl, rfl⟩

theorem Kept.settle {s : Requests F} (kept : s.Kept) {future : Nat}
    (hfuture : F.Made s.store future) (answer : Option V) : (s.settle future answer).Kept := by
  cases answer with
  | none => exact kept
  | some value =>
      refine kept.of_same (fun _ c' h => ⟨c', h, rfl, rfl⟩)
        (F.get_settle s.store future value) (F.made_settle s.store future value) ?_
      intro other h
      change F.outcome (F.settle s.store future value).1 other = none at h
      rw [F.outcome_settle s.store future value other hfuture] at h
      split at h
      · cases h
      · exact h

theorem Kept.answerEach {s : Requests F} (kept : s.Kept) (answer : K → Option V) :
    (s.answerEach answer).1.Kept := by
  refine kept.of_same (fun _ c' h => ⟨c', h, rfl, rfl⟩)
    (FutureStore.get_settleEach s.store answer) (FutureStore.made_settleEach s.store answer) ?_
  intro future h
  cases hsome : F.outcome s.store future with
  | none => rfl
  | some value =>
      change F.outcome (F.settleEach s.store answer).1 future = none at h
      rw [FutureStore.outcome_settleEach_of_some hsome] at h
      cases h

theorem Kept.start {s s' : Requests F} {call : Nat} {key : K} (kept : s.Kept)
    (h : s.start call key = some s') : s'.Kept := by
  have hget := F.get_getOrCreate_self s.store key
  unfold Requests.start at h
  split at h
  · cases h
  · cases h
    constructor
    · intro other c hlookup
      rcases GoMap.lookup_insert_cases hlookup with ⟨-, rfl⟩ | ⟨-, hlookup⟩
      · exact F.made_of_get _ key _ hget
      · exact (F.made_getOrCreate _ key _).mpr (Or.inr (kept.made other c hlookup))
    · rintro other c ⟨hlookup, hnone⟩
      dsimp only at hnone
      rcases GoMap.lookup_insert_cases hlookup with ⟨-, rfl⟩ | ⟨-, hlookup⟩
      · exact hget
      · rw [F.outcome_getOrCreate] at hnone
        exact FutureStore.get_getOrCreate_of_some (kept.registered other c ⟨hlookup, hnone⟩)

theorem Kept.leave {s : Requests F} (kept : s.Kept) {call : Nat} {c : Call K}
    (hleaves : c.created = true →
      ∀ other c', other ≠ call → s.Waits other c' → c'.future ≠ c.future) :
    (s.leave call c).Kept := by
  have hmade : ∀ future, F.Made (s.leave call c).store future ↔ F.Made s.store future := by
    intro future
    unfold Requests.leave
    dsimp only
    split
    · exact F.made_delete _ _ _ future
    · rfl
  have houtcome : ∀ future,
      F.outcome (s.leave call c).store future = F.outcome s.store future := by
    intro future
    unfold Requests.leave
    dsimp only
    split
    · exact F.outcome_delete _ _ _ future
    · rfl
  have hcalls : ∀ other c', (s.leave call c).calls.lookup other = some c' →
      other ≠ call ∧ s.calls.lookup other = some c' :=
    fun _ _ => GoMap.lookup_erase_cases
  constructor
  · intro other c' hlookup
    rw [hmade]
    exact kept.made other c' (hcalls other c' hlookup).2
  · rintro other c' ⟨hlookup, hnone⟩
    obtain ⟨hother, hlookup⟩ := hcalls other c' hlookup
    rw [houtcome] at hnone
    have hregistered := kept.registered other c' ⟨hlookup, hnone⟩
    unfold Requests.leave
    dsimp only
    split
    · next hcreated =>
        rw [F.get_delete_of_ne, hregistered]
        rintro ⟨hkey, hget⟩
        rw [hkey, hget] at hregistered
        exact hleaves hcreated other c' hother ⟨hlookup, hnone⟩
          (Option.some.inj hregistered).symm
    · exact hregistered

theorem Kept.act {s s' : Requests F} {a : Act V} {returned : Option V} (kept : s.Kept)
    (hleaves : s.LeavesNoWaiter a) (h : s.act a = some (s', returned)) : s'.Kept := by
  cases a with
  | attempt call answer =>
      unfold Requests.act at h
      dsimp only at h
      split at h
      · next c hc =>
          split at h
          · cases h
            refine (kept.settle (kept.made call c hc) answer).enter ?_ .await
            cases answer <;> exact hc
          · cases h
      · cases h
  | succeed call =>
      unfold Requests.act at h
      dsimp only at h
      split at h
      · next c hc =>
          split at h
          · obtain ⟨value, hvalue, h⟩ := Option.map_eq_some_iff.mp h
            cases h
            refine kept.leave fun _ other c' _ hwaits heq => ?_
            -- a call that waits has an open future, and this one is settled
            have hopen := hwaits.2
            rw [heq, hvalue] at hopen
            cases hopen
          · cases h
      · cases h
  | cancel call =>
      unfold Requests.act at h
      dsimp only at h
      split at h
      · next c hc =>
          split at h
          · cases h
            exact kept.leave (hleaves c hc)
          · cases h
      · cases h
  | again call =>
      unfold Requests.act at h
      dsimp only at h
      split at h
      · next c hc =>
          split at h
          · cases h
            exact kept.enter hc .attempt
          · cases h
      · cases h

end Requests

/-! ## The network -/

variable {P : Primitives} {F : FutureStore BitString Addr} {G : FutureStore Addr (PublicKey P)}

structure Network (P : Primitives) (F : FutureStore BitString Addr)
    (G : FutureStore Addr (PublicKey P)) where
  peers : PeerSet
  findAddr : Requests F
  lookupPubKey : Requests G

inductive NetworkEvent (P : Primitives) where
  | findAddr (call : Nat) (query : Bytes) (nbits : Int)
  | onFindAddr (act : Act Addr)
  | lookupPublicKey (call : Nat) (target : Addr)
  | onLookupPublicKey (act : Act (PublicKey P))
  | handleAddr (target : Addr)
  | handlePublicKey (target : Addr) (key : PublicKey P)

inductive Returned (P : Primitives) where
  | nothing
  | addr (value : Addr)
  | publicKey (value : PublicKey P)
  | handled (fulfilled : Bool)
  /-- The swarm answers for a peer. -/
  | fromSwarm

namespace Network

def new (peers : PeerSet) : Network P F G := ⟨peers, Requests.new, Requests.new⟩

/-- The key of a `FindAddr` request; asking for more bits than there are panics. -/
def findAddrKey (query : Bytes) (nbits : Int) : Go BitString :=
  fromSource (BytesMSB.source { bytes := query, beginBit := 0, endBit := nbits })

def addrBits (target : Addr) : Go BitString :=
  fromSource (BytesMSB.source { bytes := target.toList, beginBit := 0, endBit := 256 })

def handleAddr (n : Network P F G) (target : Addr) : Go (Network P F G × Bool) := do
  let bs ← addrBits target
  let answer := fun key => if hasPrefix bs key then some target else none
  let (findAddr, fulfilled) := n.findAddr.answerEach answer
  return ({ n with findAddr }, fulfilled)

def handlePublicKey (n : Network P F G) (target : Addr) (key : PublicKey P) :
    Network P F G × Bool :=
  match G.get n.lookupPubKey.store target with
  | some future =>
      ({ n with lookupPubKey := n.lookupPubKey.settle future (some key) },
        (G.settle n.lookupPubKey.store future key).2)
  | none => (n, false)

def step (n : Network P F G) : NetworkEvent P → Option (Network P F G × Returned P)
  | .findAddr call query nbits => do
      let key ← (findAddrKey query nbits).toOption
      let findAddr ← n.findAddr.start call key
      some ({ n with findAddr }, .nothing)
  | .onFindAddr act => do
      let (findAddr, value) ← n.findAddr.act act
      some ({ n with findAddr }, value.elim .nothing .addr)
  | .lookupPublicKey call target =>
      if n.peers.contains target then some (n, .fromSwarm)
      else do
        let lookupPubKey ← n.lookupPubKey.start call target
        some ({ n with lookupPubKey }, .nothing)
  | .onLookupPublicKey act => do
      let (lookupPubKey, value) ← n.lookupPubKey.act act
      some ({ n with lookupPubKey }, value.elim .nothing .publicKey)
  | .handleAddr target => do
      let (n, fulfilled) ← (n.handleAddr target).toOption
      some (n, .handled fulfilled)
  | .handlePublicKey target key =>
      let (n, fulfilled) := n.handlePublicKey target key
      some (n, .handled fulfilled)

/-- No call is cancelled that created a future for which another call waits. -/
def leavesNoWaiter (n : Network P F G) : NetworkEvent P → Prop
  | .onFindAddr act => n.findAddr.LeavesNoWaiter act
  | .onLookupPublicKey act => n.lookupPubKey.LeavesNoWaiter act
  | _ => True

theorem addrBits_eq_ok (target : Addr) : ∃ bits, addrBits target = .ok bits := by
  have hbound : 256 ≤ target.toList.length * 8 := by simp
  obtain ⟨bits, hbits, -⟩ :=
    fromSource_of_reads (BytesMSB.reads target.toList 0 256 (by decide) hbound)
  exact ⟨bits, hbits⟩

structure Kept (n : Network P F G) : Prop where
  findAddr : n.findAddr.Kept
  lookupPubKey : n.lookupPubKey.Kept

theorem Kept.handlePublicKey {n : Network P F G} (kept : n.Kept) (target : Addr)
    (key : PublicKey P) : (n.handlePublicKey target key).1.Kept := by
  unfold Network.handlePublicKey
  split
  · next future hget =>
      exact ⟨kept.findAddr, kept.lookupPubKey.settle (G.made_of_get _ target _ hget) (some key)⟩
  · exact kept

theorem Kept.step {n n' : Network P F G} {event : NetworkEvent P} {returned : Returned P}
    (kept : n.Kept) (hleaves : n.leavesNoWaiter event)
    (h : n.step event = some (n', returned)) : n'.Kept := by
  cases event with
  | findAddr call query nbits =>
      obtain ⟨key, -, h⟩ := Option.bind_eq_some_iff.mp h
      obtain ⟨requests, hstart, h⟩ := Option.bind_eq_some_iff.mp h
      cases h
      exact ⟨kept.findAddr.start hstart, kept.lookupPubKey⟩
  | onFindAddr act =>
      obtain ⟨⟨requests, value⟩, hact, h⟩ := Option.bind_eq_some_iff.mp h
      cases h
      exact ⟨kept.findAddr.act hleaves hact, kept.lookupPubKey⟩
  | lookupPublicKey call target =>
      rw [Network.step] at h
      split at h
      · cases h
        exact kept
      · obtain ⟨requests, hstart, h⟩ := Option.bind_eq_some_iff.mp h
        cases h
        exact ⟨kept.findAddr, kept.lookupPubKey.start hstart⟩
  | onLookupPublicKey act =>
      obtain ⟨⟨requests, value⟩, hact, h⟩ := Option.bind_eq_some_iff.mp h
      cases h
      exact ⟨kept.findAddr, kept.lookupPubKey.act hleaves hact⟩
  | handleAddr target =>
      obtain ⟨bits, hbits⟩ := addrBits_eq_ok target
      simp only [Network.step, Network.handleAddr, hbits, Go.ok_bind, Go.pure_eq_ok,
        Except.toOption, Option.bind_eq_bind, Option.bind_some, Option.some.injEq] at h
      cases h
      exact ⟨kept.findAddr.answerEach _, kept.lookupPubKey⟩
  | handlePublicKey target key =>
      cases h
      exact kept.handlePublicKey target key

/-! ## No lost waiters -/

/--
Every waiting call can be found under its key, so that the first matching
address or public key resolves it.
-/
structure NoLostWaiters (n : Network P F G) : Prop where
  findAddr : ∀ call c, n.findAddr.Waits call c →
    F.get n.findAddr.store c.key = some c.future
  lookupPubKey : ∀ call c, n.lookupPubKey.Waits call c →
    G.get n.lookupPubKey.store c.key = some c.future
  handleAddr : ∀ target, ∃ bits n' fulfilled, addrBits target = .ok bits ∧
    n.handleAddr target = .ok (n', fulfilled) ∧
    ∀ call c, n.findAddr.Waits call c → hasPrefix bits c.key = true →
      F.outcome n'.findAddr.store c.future = some target
  handlePublicKey : ∀ target key call c, n.lookupPubKey.Waits call c → c.key = target →
    G.outcome (n.handlePublicKey target key).1.lookupPubKey.store c.future = some key

theorem Kept.noLostWaiters {n : Network P F G} (kept : n.Kept) : n.NoLostWaiters where
  findAddr := kept.findAddr.registered
  lookupPubKey := kept.lookupPubKey.registered
  handleAddr := by
    intro target
    obtain ⟨bits, hbits⟩ := addrBits_eq_ok target
    refine ⟨bits, _, _, hbits, by rw [Network.handleAddr, hbits]; rfl, ?_⟩
    intro call c hwaits hmatches
    have hget := kept.findAddr.registered call c hwaits
    have hsome : (F.outcome (F.settleEach n.findAddr.store fun key =>
        if hasPrefix bits key then some target else none).1 c.future).isSome = true :=
      FutureStore.isSome_outcome_settleEach hget (by simp [hmatches])
    obtain ⟨value, hvalue⟩ := Option.isSome_iff_exists.mp hsome
    obtain ⟨key, -, hanswer⟩ := FutureStore.answer_of_outcome_settleEach hwaits.2 hvalue
    split at hanswer
    · rw [← hanswer] at hvalue
      exact hvalue
    · cases hanswer
  handlePublicKey := by
    rintro target key call c hwaits rfl
    have hget := kept.lookupPubKey.registered call c hwaits
    simp only [Network.handlePublicKey, hget]
    change G.outcome (G.settle n.lookupPubKey.store c.future key).1 c.future = some key
    rw [G.outcome_settle _ _ _ _ (G.made_of_get _ _ _ hget), if_pos ⟨rfl, hwaits.2⟩]

/--
In every run in which no call is cancelled while another waits for the future it
created, every waiting call is found by what it waits for.
-/
theorem waiters_not_lost {peers : PeerSet} {n : Network P F G}
    {trace : List (NetworkEvent P × Returned P)}
    (run : Runs step leavesNoWaiter (new peers) trace n) : n.NoLostWaiters := by
  have hstart : (new peers : Network P F G).Kept := ⟨Requests.kept_new, Requests.kept_new⟩
  have kept := run.invariant hstart fun _ _ _ _ kept hleaves hstep => kept.step hleaves hstep
  exact kept.noLostWaiters

/-! ### Two calls for one key -/

def sampleCalls : List (NetworkEvent samplePrimitives) :=
  [.findAddr 0 [255] 8, .findAddr 1 [255] 8,
    .onFindAddr (.attempt 0 none), .onFindAddr (.attempt 1 none)]

def sampleTarget : Addr := copyTo 32 [255]

def sampleNew : Network samplePrimitives FutureStore.table FutureStore.table :=
  new ⟨[], List.nodup_nil⟩

def keepsCalls (_ : Network P F G) : NetworkEvent P → Prop
  | .onFindAddr (.cancel _) => False
  | .onLookupPublicKey (.cancel _) => False
  | _ => True

instance (n : Network P F G) (event : NetworkEvent P) : Decidable (n.keepsCalls event) := by
  unfold keepsCalls
  split <;> infer_instance

theorem waiters_not_lost_while_waiting :
    ∃ trace n, trace.map Prod.fst = sampleCalls ∧
      Runs step leavesNoWaiter sampleNew trace n ∧ n.NoLostWaiters := by
  have hsome : (replay step keepsCalls sampleNew sampleCalls).isSome = true := by decide +kernel
  obtain ⟨trace, n, hevents, run⟩ := exists_run_of_isSome hsome
  have run' : Runs step leavesNoWaiter sampleNew trace n := by
    refine run.mono fun n event hkeeps => ?_
    cases event with
    | onFindAddr act => cases act <;> trivial
    | onLookupPublicKey act => cases act <;> trivial
    | findAddr => trivial
    | lookupPublicKey => trivial
    | handleAddr => trivial
    | handlePublicKey => trivial
  exact ⟨trace, n, hevents, run', waiters_not_lost run'⟩

/-- A call that waits, is not registered, and is not resolved by a matching address. -/
def LosesWaiter (n : Network P F G) (call : Nat) (target : Addr) : Prop :=
  ∃ c bits n' fulfilled, n.findAddr.Waits call c ∧
    F.get n.findAddr.store c.key ≠ some c.future ∧
    addrBits target = .ok bits ∧ hasPrefix bits c.key = true ∧
    n.handleAddr target = .ok (n', fulfilled) ∧
    F.outcome n'.findAddr.store c.future = none

def losesWaiter (n : Network P F G) (call : Nat) (target : Addr) : Bool :=
  match n.findAddr.calls.lookup call, addrBits target, n.handleAddr target with
  | some c, .ok bits, .ok (n', _) =>
      (F.outcome n.findAddr.store c.future).isNone &&
        decide (F.get n.findAddr.store c.key ≠ some c.future) && hasPrefix bits c.key &&
        (F.outcome n'.findAddr.store c.future).isNone
  | _, _, _ => false

theorem losesWaiter_of_check {n : Network P F G} {call : Nat} {target : Addr}
    (h : n.losesWaiter call target = true) : n.LosesWaiter call target := by
  unfold losesWaiter at h
  split at h
  · next c bits n' fulfilled hc hbits hhandle =>
      simp only [Bool.and_eq_true, Option.isNone_iff_eq_none, decide_eq_true_eq] at h
      exact ⟨c, bits, n', fulfilled, ⟨hc, h.1.1.1⟩, h.1.1.2, hbits, h.1.2, hhandle, h.2⟩
  · cases h

/-- The first call is cancelled and takes the future of the second with it. -/
theorem waiter_lost :
    ∃ trace n, Runs step anyEvent sampleNew trace n ∧ n.LosesWaiter 1 sampleTarget := by
  have hreplay : (replay step anyEvent sampleNew
      (sampleCalls ++ [.onFindAddr (.cancel 0)])).map
      (fun result => result.1.losesWaiter 1 sampleTarget) = some true := by decide +kernel
  obtain ⟨trace, n, -, run, hloses⟩ := exists_run_of_map hreplay
  exact ⟨trace, n, run, losesWaiter_of_check hloses⟩

end Network

end Inet256.Routers
