import Inet256.Foundation.Registry
import Inet256.Internal.Peers
import Inet256.Pki.Signature

/-!
# The services that open nodes

`mesh256.Server` and the in-memory service keep one node per address.  Closing a
node of either of them goes back to the service with the node's key, and the
service closes whatever it holds under the address of that key.
-/

namespace Inet256

open Inet256.Foundation
open Inet256.Crypto

variable {P : Primitives}

/-! ## mesh256 -/

namespace Mesh256

/-- A node made by `Open`, which has computed the address of its key. -/
structure Node (P : Primitives) where
  serial : Nat
  privateKey : PrivateKey P
  localAddr : Addr
  newID_eq : newID privateKey.public = .ok localAddr

structure TransportAddr where
  scheme : String
  addr : Nat
  deriving DecidableEq

def nameMemSwarm : String := "memory"

structure Server (P : Primitives) where
  mainID : Addr
  mainMemPeers : Peers.Store TransportAddr
  nodes : GoMap Addr (Node P)

namespace Server

def new (mainID : Addr) : Server P := ⟨mainID, ∅, ∅⟩

/-- `serial` is the address that the memory realm gives to the swarm of the node. -/
def openNode (s : Server P) (privateKey : PrivateKey P) (serial : Nat) :
    Go (Server P × Node P) :=
  match h : newID privateKey.public with
  | .error fault => .error fault
  | .ok id =>
      if id = s.mainID then fail "clients cannot use main node's key"
      else
        match s.nodes.lookup id with
        | some _ => fail "node is already open"
        | none =>
            let n : Node P := ⟨serial, privateKey, id, h⟩
            .ok ({ s with
              mainMemPeers :=
                Peers.setAddrs (s.mainMemPeers.add id) id [⟨nameMemSwarm, serial⟩]
              nodes := s.nodes.insert id n }, n)

/-- `closeErr` is what the node's own `close` returns, if it is called. -/
def drop (s : Server P) (privateKey : PrivateKey P) (closeErr : Option String) :
    Go (Retired (Server P) (Node P)) := do
  let id ← newID privateKey.public
  match s.nodes.lookup id with
  | none => return { state := s, torn := none, err := none }
  | some n =>
      return {
        state := { s with
          nodes := s.nodes.erase id
          mainMemPeers := s.mainMemPeers.remove id }
        torn := some n
        err := closeErr }

end Server

/-- A node that was opened knows its server. -/
def Node.close (s : Server P) (n : Node P) (closeErr : Option String) :
    Go (Retired (Server P) (Node P)) :=
  s.drop n.privateKey closeErr

def registry (P : Primitives) : Registry (Server P) (PrivateKey P) Addr (Node P) where
  addrOf key := newID key.public
  home := Node.localAddr
  serial := Node.serial
  table s addr := s.nodes.lookup addr
  issue := Server.openNode
  drop := Server.drop
  close := Node.close

theorem drop_eq {s : Server P} {privateKey : PrivateKey P} {id : Addr}
    (hid : newID privateKey.public = .ok id) (closeErr : Option String) :
    ∃ retired, s.drop privateKey closeErr = .ok retired ∧
      retired.torn = s.nodes.lookup id ∧
      (registry P).table retired.state = Function.update ((registry P).table s) id none := by
  simp only [Server.drop, hid, Go.ok_bind]
  cases hnode : s.nodes.lookup id with
  | none =>
      refine ⟨_, rfl, rfl, (Function.update_eq_self_iff.mpr ?_).symm⟩
      exact hnode.symm
  | some n => exact ⟨_, rfl, rfl, GoMap.lookup_erase_update s.nodes id⟩

theorem lawful (P : Primitives) : (registry P).Lawful where
  issue := by
    intro s key n s' x h
    change s.openNode key n = .ok (s', x) at h
    unfold Server.openNode at h
    split at h
    · cases h
    · next id hid =>
        split at h
        · cases h
        · split at h
          · cases h
          · next hfree =>
              cases h
              exact ⟨rfl, hfree, GoMap.lookup_insert_update s.nodes id _⟩
  drop := by
    intro s key err retired h
    obtain ⟨id, hid, -⟩ := Go.bind_eq_ok.mp h
    obtain ⟨_, hdrop, htorn, htable⟩ := drop_eq (s := s) hid err
    cases h.symm.trans hdrop
    exact ⟨id, hid, htorn, htable⟩
  close s x err := drop_eq x.newID_eq err

end Mesh256

/-! ## inet256mem -/

namespace Mem

structure Node (P : Primitives) where
  serial : Nat
  publicKey : PublicKey P
  localAddr : Addr
  newID_eq : newID publicKey = .ok localAddr

structure Service (P : Primitives) where
  nodes : GoMap Addr (Node P)

namespace Service

def new : Service P := ⟨∅⟩

def openNode (s : Service P) (privKey : PrivateKey P) (serial : Nat) :
    Go (Service P × Node P) :=
  match h : newID privKey.public with
  | .error fault => .error fault
  | .ok id =>
      match s.nodes.lookup id with
      | some _ => fail "node already open"
      | none =>
          let node : Node P := ⟨serial, privKey.public, id, h⟩
          .ok (⟨s.nodes.insert id node⟩, node)

/-- The node whose queue is closed is torn down. -/
def delete (s : Service P) (id : Addr) : Retired (Service P) (Node P) :=
  match s.nodes.lookup id with
  | some node => { state := ⟨s.nodes.erase id⟩, torn := some node, err := none }
  | none => { state := s, torn := none, err := none }

def drop (s : Service P) (privKey : PrivateKey P) : Go (Retired (Service P) (Node P)) := do
  let id ← newID privKey.public
  return s.delete id

end Service

def Node.close (s : Service P) (node : Node P) : Go (Retired (Service P) (Node P)) := do
  let id ← newID node.publicKey
  return s.delete id

def registry (P : Primitives) : Registry (Service P) (PrivateKey P) Addr (Node P) where
  addrOf key := newID key.public
  home := Node.localAddr
  serial := Node.serial
  table s addr := s.nodes.lookup addr
  issue := Service.openNode
  drop s key _ := s.drop key
  close s node _ := node.close s

theorem delete_spec (s : Service P) (id : Addr) :
    (s.delete id).torn = s.nodes.lookup id ∧
      (registry P).table (s.delete id).state = Function.update ((registry P).table s) id none := by
  unfold Service.delete
  cases hnode : s.nodes.lookup id with
  | none =>
      refine ⟨rfl, (Function.update_eq_self_iff.mpr ?_).symm⟩
      exact hnode.symm
  | some node => exact ⟨rfl, GoMap.lookup_erase_update s.nodes id⟩

theorem lawful (P : Primitives) : (registry P).Lawful where
  issue := by
    intro s key n s' x h
    change s.openNode key n = .ok (s', x) at h
    unfold Service.openNode at h
    split at h
    · cases h
    · next id hid =>
        split at h
        · cases h
        · next hfree =>
            cases h
            exact ⟨rfl, hfree, GoMap.lookup_insert_update s.nodes id _⟩
  drop := by
    intro s key err retired h
    obtain ⟨id, hid, h⟩ := Go.bind_eq_ok.mp h
    cases h
    exact ⟨id, hid, delete_spec s id⟩
  close s x err := ⟨s.delete x.localAddr, by simp [registry, Node.close, x.newID_eq],
    delete_spec s x.localAddr⟩

end Mem

/-! ## Isolation -/

namespace Service

/--
Closing a node tears down that node only, exactly where no other node is open under its address;
and where every node that is closed meets this, every node is left to its own calls.
-/
theorem close_isolated_iff (P : Primitives) (mainID : Addr) :
    (∀ (s : Mesh256.Server P) (x : Mesh256.Node P),
      (Mesh256.registry P).TearsOnly s x ↔ ∀ y ∈ s.nodes.lookup x.localAddr, y = x) ∧
    (∀ (s : Mem.Service P) (x : Mem.Node P),
      (Mem.registry P).TearsOnly s x ↔ ∀ y ∈ s.nodes.lookup x.localAddr, y = x) ∧
    (∀ trace s, Runs (Mesh256.registry P).step (Mesh256.registry P).current
        (Registry.start (Mesh256.Server.new mainID)) trace s → (Mesh256.registry P).Intact s) ∧
    (∀ trace s, Runs (Mem.registry P).step (Mem.registry P).current
        (Registry.start Mem.Service.new) trace s → (Mem.registry P).Intact s) := by
  have hmesh : ∀ addr, (Mesh256.registry P).table (Mesh256.Server.new mainID) addr = none := by
    simp [Mesh256.registry, Mesh256.Server.new]
  have hmem : ∀ addr, (Mem.registry P).table Mem.Service.new addr = none := by
    simp [Mem.registry, Mem.Service.new]
  exact ⟨Registry.tearsOnly_iff (Mesh256.lawful P), Registry.tearsOnly_iff (Mem.lawful P),
    fun _ _ run => Registry.intact_of_runs (Mesh256.lawful P) hmesh run,
    fun _ _ run => Registry.intact_of_runs (Mem.lawful P) hmem run⟩

def sampleKey : PrivateKey samplePrimitives := .base (sampleSigner 7)

def sampleMainID : Addr := copyTo 32 [1]

def sampleOtherKey : PrivateKey samplePrimitives := .base (sampleSigner 9)

/-- Two nodes are opened, the first is closed and opened again. -/
def sampleClosed : List (Call (PrivateKey samplePrimitives)) :=
  [.issue sampleKey, .issue sampleOtherKey, .close 0 none, .issue sampleKey]

/-- The node that is closed is the one under its address, since none was torn down before. -/
theorem exists_closing_run {σ ν : Type} {r : Registry σ (PrivateKey samplePrimitives) Addr ν}
    (lawful : r.Lawful) (state : σ) (hempty : ∀ addr, r.table state addr = none)
    (h : (replay r.step anyEvent (Registry.start state)
      [.issue sampleKey, .issue sampleOtherKey]).map (fun result =>
        (result.1.torn.isEmpty, ((r.step result.1 (.close 0 none)).bind fun closed =>
          r.step closed.1 (.issue sampleKey)).map fun last => last.1.torn.map r.serial)) =
      some (true, some [0])) :
    ∃ trace s, trace.map Prod.fst = sampleClosed ∧
      Runs r.step r.current (Registry.start state) trace s ∧ s.torn.map r.serial = [0] := by
  obtain ⟨trace, s, hevents, run, hseen⟩ := exists_run_of_map h
  simp only [Prod.mk.injEq, List.isEmpty_iff, Option.map_eq_some_iff, Option.bind_eq_some_iff]
    at hseen
  obtain ⟨htorn, ⟨last, err'⟩, ⟨⟨closed, err⟩, hclose, hissue⟩, hserials⟩ := hseen
  have opened : Runs r.step r.current (Registry.start state) trace s := by
    refine run.restrict fun entry hentry state => ?_
    have hmem : entry.1 ∈ [Call.issue sampleKey, .issue sampleOtherKey] :=
      hevents ▸ List.mem_map_of_mem hentry
    simp only [List.mem_cons, List.not_mem_nil, or_false] at hmem
    rcases hmem with hcall | hcall <;> simp [hcall, Registry.current]
  have valid : r.Valid s := opened.invariant (Registry.valid_start hempty)
    fun _ _ _ _ valid _ hstep => valid.effect (Registry.effect_of_step lawful hstep)
  have hcurrent : r.current s (.close 0 none) := by
    intro x hx y hy
    have hkept := valid.kept x (List.mem_of_getElem? hx) (by simp [htorn])
    rw [hkept] at hy
    exact (Option.some.inj hy).symm
  have hfree : r.current closed (.issue sampleKey) := trivial
  refine ⟨_, last, ?_, (opened.next hcurrent hclose).next hfree hissue, hserials⟩
  simp [hevents, sampleClosed]

theorem close_isolated_sample :
    (∃ trace s, trace.map Prod.fst = sampleClosed ∧
      Runs (Mesh256.registry samplePrimitives).step (Mesh256.registry samplePrimitives).current
        (Registry.start (Mesh256.Server.new sampleMainID)) trace s ∧
      s.torn.map (Mesh256.registry samplePrimitives).serial = [0] ∧
      (Mesh256.registry samplePrimitives).Intact s) ∧
    ∃ trace s, trace.map Prod.fst = sampleClosed ∧
      Runs (Mem.registry samplePrimitives).step (Mem.registry samplePrimitives).current
        (Registry.start Mem.Service.new) trace s ∧
      s.torn.map (Mem.registry samplePrimitives).serial = [0] ∧
      (Mem.registry samplePrimitives).Intact s := by
  obtain ⟨-, -, hmesh, hmem⟩ := close_isolated_iff samplePrimitives sampleMainID
  obtain ⟨trace, s, hevents, run, htorn⟩ := exists_closing_run (Mesh256.lawful samplePrimitives)
    (Mesh256.Server.new sampleMainID) (by simp [Mesh256.registry, Mesh256.Server.new])
    (by decide +kernel)
  obtain ⟨trace', s', hevents', run', htorn'⟩ := exists_closing_run (Mem.lawful samplePrimitives)
    Mem.Service.new (by simp [Mem.registry, Mem.Service.new]) (by decide +kernel)
  exact ⟨⟨trace, s, hevents, run, htorn, hmesh trace s run⟩,
    ⟨trace', s', hevents', run', htorn', hmem trace' s' run'⟩⟩

/-- A node is opened, its key dropped, and a node opened again. -/
def sampleReopened : List (Call (PrivateKey samplePrimitives)) :=
  [.issue sampleKey, .drop sampleKey none, .issue sampleKey]

/-- What closing the first node tears down, by its number. -/
def tornByFirst {σ ν : Type} (r : Registry σ (PrivateKey samplePrimitives) Addr ν)
    (s : Instances σ ν) : Option (Nat × Nat) := do
  let x ← s.issued[0]?
  let retired ← (r.close s.state x none).toOption
  let y ← retired.torn
  return (r.serial x, r.serial y)

theorem not_tearsOnly_of_tornByFirst {σ ν : Type}
    {r : Registry σ (PrivateKey samplePrimitives) Addr ν} {s : Instances σ ν}
    (h : tornByFirst r s = some (0, 1)) :
    ∃ x ∈ s.issued, r.serial x = 0 ∧ ¬ r.TearsOnly s.state x := by
  simp only [tornByFirst, Option.bind_eq_bind, Option.bind_eq_some_iff, toOption_eq_some,
    Option.some.injEq, Option.pure_def, Prod.mk.injEq] at h
  obtain ⟨x, hx, retired, hclose, y, hy, hserial, hother⟩ := h
  refine ⟨x, List.mem_of_getElem? hx, hserial, fun honly => ?_⟩
  have hsame := honly none retired hclose y (Or.inl hy)
  rw [hsame, hserial] at hother
  cases hother

/-- Closing the first node tears down the second, in both services. -/
theorem stale_close_tears_reopened :
    (∃ trace s, trace.map Prod.fst = sampleReopened ∧
      Runs (Mesh256.registry samplePrimitives).step anyEvent
        (Registry.start (Mesh256.Server.new sampleMainID)) trace s ∧
      tornByFirst (Mesh256.registry samplePrimitives) s = some (0, 1) ∧
      ∃ x ∈ s.issued, x.serial = 0 ∧ ¬ (Mesh256.registry samplePrimitives).TearsOnly s.state x) ∧
    (∃ trace s, trace.map Prod.fst = sampleReopened ∧
      Runs (Mem.registry samplePrimitives).step anyEvent
        (Registry.start Mem.Service.new) trace s ∧
      tornByFirst (Mem.registry samplePrimitives) s = some (0, 1) ∧
      ∃ x ∈ s.issued, x.serial = 0 ∧ ¬ (Mem.registry samplePrimitives).TearsOnly s.state x) := by
  have hmesh : (replay (Mesh256.registry samplePrimitives).step anyEvent
      (Registry.start (Mesh256.Server.new sampleMainID)) sampleReopened).map
        (fun result => tornByFirst (Mesh256.registry samplePrimitives) result.1) =
      some (some (0, 1)) := by
    decide +kernel
  have hmem : (replay (Mem.registry samplePrimitives).step anyEvent
      (Registry.start Mem.Service.new) sampleReopened).map
        (fun result => tornByFirst (Mem.registry samplePrimitives) result.1) =
      some (some (0, 1)) := by
    decide +kernel
  obtain ⟨trace, s, hevents, run, htorn⟩ := exists_run_of_map hmesh
  obtain ⟨trace', s', hevents', run', htorn'⟩ := exists_run_of_map hmem
  exact ⟨⟨trace, s, hevents, run, htorn, not_tearsOnly_of_tornByFirst htorn⟩,
    ⟨trace', s', hevents', run', htorn', not_tearsOnly_of_tornByFirst htorn'⟩⟩

end Service

end Inet256
