import Inet256.Foundation.Fifo
import Inet256.Service.Nodes

/-!
# Messages of the in-memory service

Nodes of the in-memory service put messages into each other's queues.  A queue
belongs to a node, not to its address: a node opened again under the same key
has a queue of its own, and the old one stays closed.  For every order in which
nodes are opened, dropped and closed, and messages sent and received, a node
receives what its queue accepted, once and in order, and all of it was sent to
its address by the node whose address it carries.

The queue is that of the swarm utilities, given by what is relied on of it.  A
closed queue may still return some of what was in it, and its buffers are for
messages within the largest size.
-/

namespace Inet256.Mem

open Inet256.Foundation
open Inet256.Crypto

structure Message where
  src : Addr
  dst : Addr
  payload : Bytes
  deriving DecidableEq

def Message.size (m : Message) : Nat := m.payload.length

variable {P : Primitives} {Q : MessageQueue Message Message.size}

/-- The service with the nodes it has opened; `incoming` is given by their serials. -/
structure World (P : Primitives) (Q : MessageQueue Message Message.size) where
  queueLen : Nat
  service : Service P
  opened : List (Node P)
  incoming : Nat → Q.Queue

inductive WorldEvent (P : Primitives) where
  | openNode (privKey : PrivateKey P)
  | drop (privKey : PrivateKey P)
  | close (handle : Nat)
  | send (handle : Nat) (dst : Addr) (data : Bytes)
  | receive (handle : Nat)
  /-- The function that a call of `Receive` was given returns. -/
  | finish (handle : Nat)
  | lookupPublicKey (handle : Nat) (target : Addr)

inductive Seen (P : Primitives) where
  | returned (err : Option String)
  /-- The message, and the node whose queue it was delivered to, with the result. -/
  | sent (m : Message) (delivered : Option (Nat × Bool))
  | received (m : Message)
  | publicKey (key : PublicKey P)

namespace World

def new (queueLen : Nat) : World P Q where
  queueLen := queueLen
  service := Service.new
  opened := []
  incoming := fun _ => Q.new queueLen mtu

/-- `delete` closes the queue of the node it removes. -/
def retire (w : World P Q) (retired : Retired (Service P) (Node P)) : World P Q where
  queueLen := w.queueLen
  service := retired.state
  opened := w.opened
  incoming := retired.torn.elim w.incoming fun node =>
    Function.update w.incoming node.serial (Q.close (w.incoming node.serial))

/-- A message for an address that no node has, or whose queue is full, is dropped. -/
def send (w : World P Q) (node : Node P) (dst : Addr) (data : Bytes) : World P Q × Seen P :=
  let m : Message := ⟨node.localAddr, dst, data⟩
  match w.service.nodes.lookup dst with
  | none => (w, .sent m none)
  | some dstNode =>
      let (queue, accepted) := Q.deliver (w.incoming dstNode.serial) m
      ({ w with incoming := Function.update w.incoming dstNode.serial queue },
        .sent m (some (dstNode.serial, accepted)))

def step (w : World P Q) : WorldEvent P → Option (World P Q × Seen P)
  | .openNode privKey =>
      match w.service.openNode privKey w.opened.length with
      | .ok (service, node) => some ({ w with
          service
          opened := w.opened ++ [node]
          incoming := Function.update w.incoming w.opened.length (Q.new w.queueLen mtu) },
          .returned none)
      | .error (.error err) => some (w, .returned (some err))
      | .error (.panic _) => none
  | .drop privKey => do
      let retired ← (w.service.drop privKey).toOption
      some (w.retire retired, .returned retired.err)
  | .close handle => do
      let node ← w.opened[handle]?
      let retired ← (node.close w.service).toOption
      some (w.retire retired, .returned retired.err)
  | .send handle dst data => do
      let node ← w.opened[handle]?
      some (w.send node dst data)
  | .receive handle => do
      let (m, queue) ← Q.receive (w.incoming handle)
      some ({ w with incoming := Function.update w.incoming handle queue }, .received m)
  | .finish handle =>
      if 0 < (Q.view (w.incoming handle)).handling then
        some ({ w with
          incoming := Function.update w.incoming handle (Q.finish (w.incoming handle)) },
          .returned none)
      else none
  | .lookupPublicKey handle target => do
      let _ ← w.opened[handle]?
      match w.service.nodes.lookup target with
      | some node => some (w, .publicKey node.publicKey)
      | none => some (w, .returned (some "public key not found"))

/-- No message is longer than a node may send. -/
def withinMTU (_ : World P Q) : WorldEvent P → Prop
  | .send _ _ data => data.length ≤ mtu
  | _ => True

instance (w : World P Q) (event : WorldEvent P) : Decidable (w.withinMTU event) :=
  match event with
  | .send _ _ _ => inferInstanceAs (Decidable (_ ≤ _))
  | .openNode _ => isTrue trivial
  | .drop _ => isTrue trivial
  | .close _ => isTrue trivial
  | .receive _ => isTrue trivial
  | .finish _ => isTrue trivial
  | .lookupPublicKey _ _ => isTrue trivial

/-! ## One step -/

/-- A node is registered exactly while its queue is open. -/
structure Valid (w : World P Q) : Prop where
  serials : ∀ n (node : Node P), w.opened[n]? = some node → node.serial = n
  registered : ∀ addr node, w.service.nodes.lookup addr = some node →
    w.opened[node.serial]? = some node ∧ node.localAddr = addr
  open_iff : ∀ n node, w.opened[n]? = some node →
    ((Q.view (w.incoming n)).closed = false ↔
      w.service.nodes.lookup node.localAddr = some node)
  limits : ∀ n, (Q.view (w.incoming n)).maxLen = w.queueLen ∧ (Q.view (w.incoming n)).mtu = mtu
  /-- A node that is not open yet has an empty queue. -/
  fresh : ∀ n, w.opened.length ≤ n → Q.view (w.incoming n) = .empty w.queueLen mtu

theorem valid_new (queueLen : Nat) : (new queueLen : World P Q).Valid where
  serials := by simp [new]
  registered := by simp [new, Service.new]
  open_iff := by simp [new]
  limits n := by simp [new, Q.view_new, QueueView.empty]
  fresh n _ := Q.view_new queueLen mtu

theorem Valid.retire {w : World P Q} (valid : w.Valid) (addr : Addr) :
    (w.retire (w.service.delete addr)).Valid := by
  unfold Service.delete
  cases hnode : w.service.nodes.lookup addr with
  | none =>
      exact ⟨valid.serials, valid.registered, valid.open_iff, valid.limits, valid.fresh⟩
  | some torn =>
      obtain ⟨htorn, haddr⟩ := valid.registered addr torn hnode
      obtain ⟨rest, -, hclose⟩ := Q.view_close (w.incoming torn.serial)
      refine ⟨valid.serials, ?_, ?_, ?_, ?_⟩
      · intro other node hlookup
        exact valid.registered other node (GoMap.lookup_erase_cases hlookup).2
      · intro n node hn
        change w.opened[n]? = some node at hn
        change (Q.view (Function.update w.incoming torn.serial
          (Q.close (w.incoming torn.serial)) n)).closed = false ↔
          (w.service.nodes.erase addr).lookup node.localAddr = some node
        rw [GoMap.lookup_erase_eq]
        by_cases hsame : n = torn.serial
        · subst hsame
          rw [htorn] at hn
          cases hn
          rw [Function.update_self, if_pos haddr, hclose]
          simp
        · rw [Function.update_of_ne hsame, valid.open_iff n node hn]
          split
          · next hhome =>
              -- the only node registered under the address is the one torn down
              rw [hhome, hnode]
              refine iff_of_false ?_ (by simp)
              intro heq
              cases heq
              exact hsame (valid.serials n torn hn).symm
          · rfl
      · intro n
        change (Q.view (Function.update w.incoming torn.serial
          (Q.close (w.incoming torn.serial)) n)).maxLen = w.queueLen ∧ (Q.view (Function.update
          w.incoming torn.serial (Q.close (w.incoming torn.serial)) n)).mtu = mtu
        by_cases hsame : n = torn.serial
        · subst hsame
          rw [Function.update_self, hclose]
          exact valid.limits torn.serial
        · rw [Function.update_of_ne hsame]
          exact valid.limits n
      · intro n hn
        have hlt := (List.getElem?_eq_some_iff.mp htorn).1
        change w.opened.length ≤ n at hn
        change Q.view (Function.update w.incoming torn.serial
          (Q.close (w.incoming torn.serial)) n) = .empty w.queueLen mtu
        rw [Function.update_of_ne (by omega)]
        exact valid.fresh n hn

theorem openNode_eq_ok {s s' : Service P} {privKey : PrivateKey P} {serial : Nat}
    {node : Node P} (h : s.openNode privKey serial = .ok (s', node)) :
    node.serial = serial ∧ s.nodes.lookup node.localAddr = none ∧
      s'.nodes = s.nodes.insert node.localAddr node := by
  unfold Service.openNode at h
  split at h
  · cases h
  · split at h
    · cases h
    · next hfree =>
        cases h
        exact ⟨rfl, hfree, rfl⟩

theorem Valid.openNode {w : World P Q} (valid : w.Valid) {privKey : PrivateKey P}
    {service : Service P} {node : Node P}
    (h : w.service.openNode privKey w.opened.length = .ok (service, node)) :
    World.Valid { w with
      service
      opened := w.opened ++ [node]
      incoming := Function.update w.incoming w.opened.length (Q.new w.queueLen mtu) } := by
  obtain ⟨hserial, hfree, hnodes⟩ := openNode_eq_ok h
  have hold : ∀ {n x}, w.opened[n]? = some x → n ≠ w.opened.length :=
    fun hx => Nat.ne_of_lt (List.getElem?_eq_some_iff.mp hx).1
  refine ⟨?_, ?_, ?_, ?_, ?_⟩
  · intro n x hx
    rcases getElem?_concat_cases hx with hx | ⟨rfl, rfl⟩
    · exact valid.serials n x hx
    · exact hserial
  · intro addr x hlookup
    dsimp only at hlookup
    rw [hnodes] at hlookup
    rcases GoMap.lookup_insert_cases hlookup with ⟨rfl, rfl⟩ | ⟨-, hlookup⟩
    · refine ⟨?_, rfl⟩
      dsimp only
      rw [hserial, List.getElem?_concat_length]
    · obtain ⟨hx, haddr⟩ := valid.registered addr x hlookup
      exact ⟨getElem?_concat_of_some hx, haddr⟩
  · intro n x hx
    dsimp only
    rw [hnodes, GoMap.lookup_insert_eq]
    rcases getElem?_concat_cases hx with hx | ⟨rfl, rfl⟩
    · rw [Function.update_of_ne (hold hx), valid.open_iff n x hx]
      split
      · next hhome =>
          rw [hhome, hfree]
          refine iff_of_false (by simp) ?_
          intro heq
          cases heq
          exact hold hx ((valid.serials n _ hx).symm.trans hserial)
      · rfl
    · rw [Function.update_self, if_pos rfl, Q.view_new]
      simp [QueueView.empty]
  · intro n
    dsimp only
    by_cases hsame : n = w.opened.length
    · subst hsame
      rw [Function.update_self, Q.view_new]
      exact ⟨rfl, rfl⟩
    · rw [Function.update_of_ne hsame]
      exact valid.limits n
  · intro n hn
    simp only [List.length_append, List.length_singleton] at hn ⊢
    rw [Function.update_of_ne (by omega)]
    exact valid.fresh n (by omega)

/-- The queue of an open node is used. -/
theorem Valid.setQueue {w : World P Q} (valid : w.Valid) {n : Nat} {q : Q.Queue}
    {items : List Message} {handling : Nat} (hlt : n < w.opened.length)
    (hview : Q.view q = { Q.view (w.incoming n) with items, handling }) :
    World.Valid { w with incoming := Function.update w.incoming n q } := by
  have hsame : ∀ other, ∃ items handling, Q.view (Function.update w.incoming n q other) =
      { Q.view (w.incoming other) with items, handling } := by
    intro other
    by_cases hother : other = n
    · subst hother
      rw [Function.update_self]
      exact ⟨items, handling, hview⟩
    · rw [Function.update_of_ne hother]
      exact ⟨_, _, rfl⟩
  refine ⟨valid.serials, valid.registered, ?_, ?_, ?_⟩
  · intro other node hother
    obtain ⟨_, _, heq⟩ := hsame other
    dsimp only
    rw [heq]
    exact valid.open_iff other node hother
  · intro other
    obtain ⟨_, _, heq⟩ := hsame other
    dsimp only
    rw [heq]
    exact valid.limits other
  · intro other hother
    dsimp only at hother ⊢
    rw [Function.update_of_ne (by omega)]
    exact valid.fresh other hother

/-- Nothing is taken from a queue, or handled, before its node is open. -/
theorem Valid.lt_of_used {w : World P Q} (valid : w.Valid) {n : Nat}
    (h : Q.view (w.incoming n) ≠ .empty w.queueLen mtu) : n < w.opened.length :=
  Nat.lt_of_not_le fun hle => h (valid.fresh n hle)

/-- Everything a step can do to the queues, and what is seen of it. -/
inductive Moves (w : World P Q) : WorldEvent P → World P Q → Seen P → Prop
  | openNode {privKey : PrivateKey P} {service : Service P} {node : Node P}
      (h : w.service.openNode privKey w.opened.length = .ok (service, node)) :
      Moves w (.openNode privKey) { w with
        service
        opened := w.opened ++ [node]
        incoming := Function.update w.incoming w.opened.length (Q.new w.queueLen mtu) }
        (.returned none)
  | refused {privKey : PrivateKey P} {err : String} :
      Moves w (.openNode privKey) w (.returned (some err))
  | drop {privKey : PrivateKey P} {addr : Addr} {err : Option String} :
      Moves w (.drop privKey) (w.retire (w.service.delete addr)) (.returned err)
  | close {handle : Nat} {addr : Addr} {err : Option String} :
      Moves w (.close handle) (w.retire (w.service.delete addr)) (.returned err)
  | unreachable {handle : Nat} {dst : Addr} {data : Bytes} {node : Node P}
      (hnode : w.opened[handle]? = some node) :
      Moves w (.send handle dst data) w (.sent ⟨node.localAddr, dst, data⟩ none)
  | deliver {handle : Nat} {dst : Addr} {data : Bytes} {node dstNode : Node P}
      (hnode : w.opened[handle]? = some node)
      (hdst : w.service.nodes.lookup dst = some dstNode) :
      Moves w (.send handle dst data)
        { w with
          incoming := Function.update w.incoming dstNode.serial
            (Q.deliver (w.incoming dstNode.serial) ⟨node.localAddr, dst, data⟩).1 }
        (.sent ⟨node.localAddr, dst, data⟩ (some (dstNode.serial,
          (Q.deliver (w.incoming dstNode.serial) ⟨node.localAddr, dst, data⟩).2)))
  | receive {handle : Nat} {m : Message} {queue : Q.Queue}
      (h : Q.receive (w.incoming handle) = some (m, queue)) :
      Moves w (.receive handle)
        { w with incoming := Function.update w.incoming handle queue } (.received m)
  | finish {handle : Nat} (h : 0 < (Q.view (w.incoming handle)).handling) :
      Moves w (.finish handle)
        { w with
          incoming := Function.update w.incoming handle (Q.finish (w.incoming handle)) }
        (.returned none)
  | found {handle : Nat} {target : Addr} {node : Node P}
      (h : w.service.nodes.lookup target = some node) :
      Moves w (.lookupPublicKey handle target) w (.publicKey node.publicKey)
  | unknown {handle : Nat} {target : Addr} {err : String} :
      Moves w (.lookupPublicKey handle target) w (.returned (some err))

theorem moves_of_step {w w' : World P Q} {event : WorldEvent P} {seen : Seen P}
    (h : w.step event = some (w', seen)) : w.Moves event w' seen := by
  cases event with
  | openNode privKey =>
      simp only [step] at h
      split at h
      · next hopen =>
          cases h
          exact .openNode hopen
      · cases h
        exact .refused
      · cases h
  | drop privKey =>
      obtain ⟨retired, hdrop, h⟩ := Option.bind_eq_some_iff.mp h
      obtain ⟨addr, -, hretired⟩ := Go.bind_eq_ok.mp (toOption_eq_some.mp hdrop)
      cases hretired
      cases h
      exact .drop
  | close handle =>
      obtain ⟨node, hnode, h⟩ := Option.bind_eq_some_iff.mp h
      obtain ⟨retired, hclose, h⟩ := Option.bind_eq_some_iff.mp h
      obtain ⟨addr, -, hretired⟩ := Go.bind_eq_ok.mp (toOption_eq_some.mp hclose)
      cases hretired
      cases h
      exact .close
  | send handle dst data =>
      obtain ⟨node, hnode, h⟩ := Option.bind_eq_some_iff.mp h
      unfold World.send at h
      dsimp only at h
      split at h
      · cases h
        exact .unreachable hnode
      · next dstNode hdst =>
          cases h
          exact .deliver hnode hdst
  | receive handle =>
      obtain ⟨⟨m, queue⟩, hreceive, h⟩ := Option.bind_eq_some_iff.mp h
      cases h
      exact .receive hreceive
  | finish handle =>
      rw [step] at h
      split at h
      · next hhandling =>
          cases h
          exact .finish hhandling
      · cases h
  | lookupPublicKey handle target =>
      obtain ⟨node, -, h⟩ := Option.bind_eq_some_iff.mp h
      split at h
      · next found hfound =>
          cases h
          exact .found hfound
      · cases h
        exact .unknown

/-- A message within the largest size fits every buffer. -/
theorem Valid.fits {w : World P Q} (valid : w.Valid) {m : Message} (h : m.payload.length ≤ mtu)
    (n : Nat) : m.size ≤ (Q.view (w.incoming n)).mtu := by
  rw [(valid.limits n).2]
  exact h

theorem Valid.moves {w w' : World P Q} {event : WorldEvent P} {seen : Seen P} (valid : w.Valid)
    (hsize : w.withinMTU event) (h : w.Moves event w' seen) : w'.Valid := by
  cases h with
  | openNode hopen => exact valid.openNode hopen
  | refused => exact valid
  | drop => exact valid.retire _
  | close => exact valid.retire _
  | unreachable => exact valid
  | @deliver handle dst data node dstNode hnode hdst =>
      have hserial := (valid.registered dst dstNode hdst).1
      obtain ⟨items, hitems⟩ := Q.deliver_keeps
        (valid.fits (m := ⟨node.localAddr, dst, data⟩) hsize dstNode.serial)
      exact valid.setQueue (List.getElem?_eq_some_iff.mp hserial).1 hitems
  | @receive handle m queue hreceive =>
      obtain ⟨rest, hitems, hview⟩ := Q.view_receive _ _ _ hreceive
      refine valid.setQueue (valid.lt_of_used fun hempty => ?_) hview
      rw [hempty] at hitems
      cases hitems
  | finish hhandling =>
      refine valid.setQueue (valid.lt_of_used fun hempty => ?_) (Q.view_finish _)
      rw [hempty] at hhandling
      cases hhandling
  | found => exact valid
  | unknown => exact valid

theorem valid_of_run {w₀ w : World P Q} {trace : List (WorldEvent P × Seen P)}
    (valid : w₀.Valid) (run : Runs step withinMTU w₀ trace w) : w.Valid :=
  run.invariant valid fun _ _ _ _ valid hsize hstep => valid.moves hsize (moves_of_step hstep)

/-! ## What goes through a queue -/

/-- The message, where an entry of the history puts one into the queue. -/
def acceptedBy (n : Nat) : WorldEvent P × Seen P → List Message
  | (_, .sent m (some (serial, true))) => if serial = n then [m] else []
  | _ => []

def receivedBy (n : Nat) : WorldEvent P × Seen P → List Message
  | (.receive handle, .received m) => if handle = n then [m] else []
  | _ => []

def sentTo (addr : Addr) : WorldEvent P × Seen P → List Message
  | (_, .sent m _) => if m.dst = addr then [m] else []
  | _ => []

/-- An entry in which a message of the queue has been handled. -/
def finishes (n : Nat) : WorldEvent P × Seen P → Bool
  | (.finish handle, _) => handle == n
  | _ => false

theorem acceptedBy_sent (n : Nat) (event : WorldEvent P) (m : Message) (serial : Nat)
    (accepted : Bool) :
    acceptedBy n (event, (.sent m (some (serial, accepted)) : Seen P)) =
      if serial = n ∧ accepted = true then [m] else [] := by
  cases accepted <;> simp [acceptedBy]

/-- How the state of one queue follows from what is put in, taken out and finished. -/
structure Flows (before after : QueueView Message) (put taken : List Message) (finished : Bool) :
    Prop where
  sublist : (taken ++ after.items).Sublist (before.items ++ put)
  intact : after.closed = false →
    before.closed = false ∧ taken ++ after.items = before.items ++ put
  handling : finished.toNat + after.handling = taken.length + before.handling

theorem Flows.still (v : QueueView Message) : Flows v v [] [] false :=
  ⟨by simp, by simp, by simp⟩

theorem Flows.close {v v' : QueueView Message} {rest : List Message}
    (hrest : rest.Sublist v.items) (h : v' = { v with items := rest, closed := true }) :
    Flows v v' [] [] false := by
  subst h
  exact ⟨by simpa using hrest, by simp, by simp⟩

theorem flows_retire (w : World P Q) (addr : Addr) (n : Nat) :
    Flows (Q.view (w.incoming n)) (Q.view ((w.retire (w.service.delete addr)).incoming n))
      [] [] false := by
  unfold Service.delete
  cases w.service.nodes.lookup addr with
  | none => exact .still _
  | some torn =>
      change Flows _ (Q.view (Function.update w.incoming torn.serial
        (Q.close (w.incoming torn.serial)) n)) [] [] false
      by_cases hsame : n = torn.serial
      · subst hsame
        rw [Function.update_self]
        obtain ⟨rest, hrest, hclose⟩ := Q.view_close (w.incoming torn.serial)
        exact .close hrest hclose
      · rw [Function.update_of_ne hsame]
        exact .still _

theorem flows_deliver {q : Q.Queue} {m : Message} (h : m.size ≤ (Q.view q).mtu) :
    Flows (Q.view q) (Q.view (Q.deliver q m).1) (if (Q.deliver q m).2 then [m] else []) []
      false := by
  have hitems := Q.items_deliver h
  obtain ⟨items, hview⟩ := Q.deliver_keeps h
  rw [hview] at hitems ⊢
  dsimp only at hitems
  subst hitems
  exact ⟨by simp, by simp, by simp⟩

theorem flows_receive {q q' : Q.Queue} {m : Message} (h : Q.receive q = some (m, q')) :
    Flows (Q.view q) (Q.view q') [] [m] false := by
  obtain ⟨rest, hitems, hview⟩ := Q.view_receive q m q' h
  rw [hview]
  exact ⟨by simp [hitems], by simp [hitems], by simp; omega⟩

theorem flows_finish {q : Q.Queue} (h : 0 < (Q.view q).handling) :
    Flows (Q.view q) (Q.view (Q.finish q)) [] [] true := by
  rw [Q.view_finish]
  refine ⟨by simp [QueueView.finish], by simp [QueueView.finish], ?_⟩
  simp only [QueueView.finish, Bool.toNat_true, List.length_nil]
  omega

/-- One step takes from the front of every queue and puts at its end. -/
theorem flows_of_moves {w w' : World P Q} {event : WorldEvent P} {seen : Seen P} (valid : w.Valid)
    (hsize : w.withinMTU event) (h : w.Moves event w' seen) (n : Nat) :
    Flows (Q.view (w.incoming n)) (Q.view (w'.incoming n)) (acceptedBy n (event, seen))
      (receivedBy n (event, seen)) (finishes n (event, seen)) := by
  cases h with
  | openNode hopen =>
      by_cases hsame : n = w.opened.length
      · subst hsame
        dsimp only
        rw [Function.update_self, valid.fresh _ le_rfl, Q.view_new]
        exact .still _
      · dsimp only
        rw [Function.update_of_ne hsame]
        exact .still _
  | refused => exact .still _
  | drop => exact flows_retire w _ n
  | close => exact flows_retire w _ n
  | unreachable => exact .still _
  | @deliver handle dst data node dstNode hnode hdst =>
      rw [acceptedBy_sent]
      by_cases hsame : n = dstNode.serial
      · subst hsame
        have hflows := flows_deliver
          (valid.fits (m := ⟨node.localAddr, dst, data⟩) hsize dstNode.serial)
        simpa [receivedBy, finishes] using hflows
      · dsimp only
        rw [Function.update_of_ne hsame, if_neg fun h => hsame h.1.symm]
        exact .still _
  | @receive handle m queue hreceive =>
      by_cases hsame : handle = n
      · subst hsame
        simpa [receivedBy, acceptedBy, finishes] using flows_receive hreceive
      · simpa [receivedBy, acceptedBy, finishes, hsame, Function.update_of_ne (Ne.symm hsame)]
          using Flows.still (Q.view (w.incoming n))
  | @finish handle hhandling =>
      by_cases hsame : handle = n
      · subst hsame
        simpa [receivedBy, acceptedBy, finishes] using flows_finish hhandling
      · simpa [receivedBy, acceptedBy, finishes, beq_eq_false_iff_ne.mpr hsame,
          Function.update_of_ne (Ne.symm hsame)] using Flows.still (Q.view (w.incoming n))
  | found => exact .still _
  | unknown => exact .still _

section Queues

variable {queueLen : Nat} {w : World P Q} {trace : List (WorldEvent P × Seen P)}

theorem flows_of_step (run : Runs step withinMTU (new queueLen) trace w) {w' : World P Q}
    {event : WorldEvent P} {seen : Seen P} (hsize : w.withinMTU event)
    (hstep : w.step event = some (w', seen)) (n : Nat) :
    Flows (Q.view (w.incoming n)) (Q.view (w'.incoming n)) (acceptedBy n (event, seen))
      (receivedBy n (event, seen)) (finishes n (event, seen)) :=
  flows_of_moves (valid_of_run (valid_new queueLen) run) hsize (moves_of_step hstep) n

theorem sublist_of_run (run : Runs step withinMTU (new queueLen) trace w) (n : Nat) :
    (trace.flatMap (receivedBy n) ++ (Q.view (w.incoming n)).items).Sublist
      (trace.flatMap (acceptedBy n)) := by
  have hfifo := run.fifo_sublist (fun w => (Q.view (w.incoming n)).items) (acceptedBy n)
    (receivedBy n) fun _ _ _ _ _ hrun hsize hstep => (flows_of_step hrun hsize hstep n).sublist
  simpa [new, Q.view_new, QueueView.empty] using hfifo

theorem fifo_of_run (run : Runs step withinMTU (new queueLen) trace w) {n : Nat}
    (hopen : (Q.view (w.incoming n)).closed = false) :
    trace.flatMap (receivedBy n) ++ (Q.view (w.incoming n)).items =
      trace.flatMap (acceptedBy n) := by
  have hfifo := run.fifo (fun w => (Q.view (w.incoming n)).items) (acceptedBy n) (receivedBy n)
    (fun w => (Q.view (w.incoming n)).closed = false)
    (fun _ _ _ _ _ hrun hsize hstep => (flows_of_step hrun hsize hstep n).intact) hopen
  simpa [new, Q.view_new, QueueView.empty] using hfifo

/-- What has been received is being handled or has been. -/
theorem handling_of_run (run : Runs step withinMTU (new queueLen) trace w) (n : Nat) :
    trace.countP (finishes n) + (Q.view (w.incoming n)).handling =
      (trace.flatMap (receivedBy n)).length := by
  refine run.history (motive := fun trace (w : World P Q) => trace.countP (finishes n) +
    (Q.view (w.incoming n)).handling = (trace.flatMap (receivedBy n)).length) ?_ ?_
  · simp [new, Q.view_new, QueueView.empty]
  · intro trace w event w' seen hrun hold hsize hstep
    have hone := (flows_of_step hrun hsize hstep n).handling
    have hcount : [(event, seen)].countP (finishes n) = (finishes n (event, seen)).toNat := by
      cases h : finishes n (event, seen) <;> simp [h]
    rw [List.countP_append, hcount, List.flatMap_append, List.length_append,
      List.flatMap_singleton, ← hold]
    omega

end Queues

/-! ## Delivery -/

/-- The node has been neither dropped nor closed. -/
def Open (w : World P Q) (n : Nat) : Prop :=
  ∀ node, w.opened[n]? = some node → w.service.nodes.lookup node.localAddr = some node

theorem Valid.closed_eq_false {w : World P Q} (valid : w.Valid) {n : Nat} (hopen : w.Open n) :
    (Q.view (w.incoming n)).closed = false := by
  rcases Nat.lt_or_ge n w.opened.length with hlt | hge
  · have hnode := List.getElem?_eq_getElem hlt
    exact (valid.open_iff n _ hnode).mpr (hopen _ hnode)
  · rw [valid.fresh n hge]
    rfl

/-- What the history of a service shows of its messages and its nodes. -/
structure Delivers (queueLen : Nat) (trace : List (WorldEvent P × Seen P)) (w : World P Q) :
    Prop where
  /-- A node receives what its queue accepted, once and in order. -/
  fifo : ∀ n, (trace.flatMap (receivedBy n)).Sublist (trace.flatMap (acceptedBy n))
  /-- While the node is open, what it has not received is still in its queue. -/
  kept : ∀ n, w.Open n → trace.flatMap (receivedBy n) ++ (Q.view (w.incoming n)).items =
    trace.flatMap (acceptedBy n)
  /-- An open node that has not received all that was accepted can receive. -/
  ready : ∀ n, w.Open n → trace.flatMap (receivedBy n) ≠ trace.flatMap (acceptedBy n) →
    (w.step (.receive n)).isSome = true
  /-- A queue accepts only what was sent to the address of its node. -/
  addressed : ∀ n node, w.opened[n]? = some node →
    (trace.flatMap (acceptedBy n)).Sublist (trace.flatMap (sentTo node.localAddr))
  /-- A message carries the address of the node that sent it. -/
  genuine : ∀ handle dst data m delivered,
    (.send handle dst data, .sent m delivered) ∈ trace →
    ∃ node : Node P, w.opened[handle]? = some node ∧ m = ⟨node.localAddr, dst, data⟩
  /-- A queue that refuses a message has accepted all it may, those finished apart. -/
  refused : ∀ before after event m n,
    trace = before ++ (event, .sent m (some (n, false))) :: after →
    before.countP (finishes n) + queueLen ≤ (before.flatMap (acceptedBy n)).length
  /-- A public key is that of the address it was looked up under. -/
  keys : ∀ handle target key, (.lookupPublicKey handle target, .publicKey key) ∈ trace →
    newID key = .ok target

theorem opened_moves {w w' : World P Q} {event : WorldEvent P} {seen : Seen P}
    (h : w.Moves event w' seen) {n : Nat} {node : Node P} (hn : w.opened[n]? = some node) :
    w'.opened[n]? = some node := by
  cases h with
  | openNode => exact getElem?_concat_of_some hn
  | refused => exact hn
  | drop => exact hn
  | close => exact hn
  | unreachable => exact hn
  | deliver => exact hn
  | receive => exact hn
  | finish => exact hn
  | found => exact hn
  | unknown => exact hn

theorem opened_of_run {w₀ w : World P Q} {trace : List (WorldEvent P × Seen P)}
    (run : Runs step withinMTU w₀ trace w) {n : Nat} {node : Node P}
    (hn : w₀.opened[n]? = some node) : w.opened[n]? = some node :=
  run.invariant (motive := fun w => w.opened[n]? = some node) hn
    fun _ _ _ _ hn _ hstep => opened_moves (moves_of_step hstep) hn

/-- What one step shows, in the state before it. -/
structure Shows (w : World P Q) (event : WorldEvent P) (seen : Seen P) : Prop where
  addressed : ∀ m serial, seen = .sent m (some (serial, true)) →
    ∃ node, w.opened[serial]? = some node ∧ node.localAddr = m.dst
  genuine : ∀ handle dst data m delivered, event = .send handle dst data →
    seen = .sent m delivered →
    ∃ node : Node P, w.opened[handle]? = some node ∧ m = ⟨node.localAddr, dst, data⟩
  refused : ∀ m n, seen = .sent m (some (n, false)) → (Q.view (w.incoming n)).closed = false ∧
    w.queueLen ≤ (Q.view (w.incoming n)).items.length + (Q.view (w.incoming n)).handling
  keys : ∀ handle target key, event = .lookupPublicKey handle target →
    seen = .publicKey key → newID key = .ok target

theorem Moves.shows {w w' : World P Q} {event : WorldEvent P} {seen : Seen P} (valid : w.Valid)
    (hsize : w.withinMTU event) (h : w.Moves event w' seen) : w.Shows event seen := by
  cases h with
  | @deliver handle dst data node dstNode hnode hdst =>
      obtain ⟨hserial, hhome⟩ := valid.registered dst dstNode hdst
      refine ⟨?_, ?_, ?_, by simp⟩
      · intro m serial hseen
        obtain ⟨rfl, hdelivered⟩ := Seen.sent.inj hseen
        obtain ⟨rfl, -⟩ := Prod.mk.inj (Option.some.inj hdelivered)
        exact ⟨dstNode, hserial, hhome⟩
      · intro handle' dst' data' m delivered hevent hseen
        cases hevent
        cases hseen
        exact ⟨node, hnode, rfl⟩
      · intro m n hseen
        obtain ⟨-, hdelivered⟩ := Seen.sent.inj hseen
        obtain ⟨rfl, hrefused⟩ := Prod.mk.inj (Option.some.inj hdelivered)
        have hopen : (Q.view (w.incoming dstNode.serial)).closed = false := by
          rw [valid.open_iff dstNode.serial dstNode hserial, hhome, hdst]
        have hfits := valid.fits (m := ⟨node.localAddr, dst, data⟩) hsize dstNode.serial
        have hfull := Q.full_of_refused hfits hopen hrefused
        rw [(valid.limits dstNode.serial).1] at hfull
        exact ⟨hopen, hfull⟩
  | @unreachable handle dst data node hnode =>
      refine ⟨by simp, ?_, by simp, by simp⟩
      intro handle' dst' data' m delivered hevent hseen
      cases hevent
      cases hseen
      exact ⟨node, hnode, rfl⟩
  | @found handle target node hfound =>
      refine ⟨by simp, by simp, by simp, ?_⟩
      intro handle' target' key hevent hseen
      cases hevent
      cases hseen
      rw [← (valid.registered target node hfound).2]
      exact node.newID_eq
  | openNode => exact ⟨by simp, by simp, by simp, by simp⟩
  | refused => exact ⟨by simp, by simp, by simp, by simp⟩
  | drop => exact ⟨by simp, by simp, by simp, by simp⟩
  | close => exact ⟨by simp, by simp, by simp, by simp⟩
  | receive => exact ⟨by simp, by simp, by simp, by simp⟩
  | finish => exact ⟨by simp, by simp, by simp, by simp⟩
  | unknown => exact ⟨by simp, by simp, by simp, by simp⟩

theorem queueLen_moves {w w' : World P Q} {event : WorldEvent P} {seen : Seen P}
    (h : w.Moves event w' seen) : w'.queueLen = w.queueLen := by
  cases h <;> rfl

section Histories

variable {queueLen : Nat} {w : World P Q} {trace : List (WorldEvent P × Seen P)}

/-- Every step of a run shows what it must, and no node is forgotten after it. -/
theorem shows_of_run (run : Runs step withinMTU (new queueLen) trace w)
    {before after : List (WorldEvent P × Seen P)} {event : WorldEvent P} {seen : Seen P}
    (hsplit : trace = before ++ (event, seen) :: after) :
    ∃ here : World P Q, Runs step withinMTU (new queueLen) before here ∧
      here.Shows event seen ∧ here.queueLen = queueLen ∧
      ∀ (n : Nat) node, here.opened[n]? = some node → w.opened[n]? = some node := by
  subst hsplit
  obtain ⟨here, there, hbefore, hsize, hstep, hafter⟩ := run.middle
  have hmoves := moves_of_step hstep
  refine ⟨here, hbefore,
    hmoves.shows (valid_of_run (valid_new queueLen) hbefore) hsize, ?_, ?_⟩
  · exact hbefore.invariant (motive := fun w => w.queueLen = queueLen) rfl
      fun _ _ _ _ heq _ hstep => (queueLen_moves (moves_of_step hstep)).trans heq
  · intro n node hn
    exact opened_of_run hafter (opened_moves hmoves hn)

theorem shows_of_mem (run : Runs step withinMTU (new queueLen) trace w) {event : WorldEvent P}
    {seen : Seen P} (hmem : (event, seen) ∈ trace) : ∃ here : World P Q, here.Shows event seen ∧
      ∀ (n : Nat) node, here.opened[n]? = some node → w.opened[n]? = some node := by
  obtain ⟨before, after, hsplit⟩ := List.append_of_mem hmem
  obtain ⟨here, -, hhere, -, hopened⟩ := shows_of_run run hsplit
  exact ⟨here, hhere, hopened⟩

theorem genuine_of_run (run : Runs step withinMTU (new queueLen) trace w) {handle : Nat}
    {dst : Addr} {data : Bytes} {m : Message} {delivered : Option (Nat × Bool)}
    (hmem : (.send handle dst data, .sent m delivered) ∈ trace) :
    ∃ node : Node P, w.opened[handle]? = some node ∧ m = ⟨node.localAddr, dst, data⟩ := by
  obtain ⟨here, hhere, hopened⟩ := shows_of_mem run hmem
  obtain ⟨node, hnode, hm⟩ := hhere.genuine handle dst data m delivered rfl rfl
  exact ⟨node, hopened handle node hnode, hm⟩

theorem addressed_of_run (run : Runs step withinMTU (new queueLen) trace w) {n : Nat}
    {m : Message} (hm : m ∈ trace.flatMap (acceptedBy n)) :
    ∃ node : Node P, w.opened[n]? = some node ∧ node.localAddr = m.dst := by
  obtain ⟨⟨event, seen⟩, hmem, haccepted⟩ := List.mem_flatMap.mp hm
  unfold acceptedBy at haccepted
  split at haccepted
  · next sent serial heq =>
      cases heq
      split at haccepted
      · next hsame =>
          rw [List.mem_singleton] at haccepted
          subst hsame haccepted
          obtain ⟨here, hhere, hopened⟩ := shows_of_mem run hmem
          obtain ⟨node, hnode, hhome⟩ := hhere.addressed m serial rfl
          exact ⟨node, hopened serial node hnode, hhome⟩
      · cases haccepted
  · cases haccepted

/--
For every order of calls, with messages within the largest size: a node receives
what its queue accepted, once and in order, at the address it was sent to and
under the address of its sender, and while it is open it can go on until it has
all; a message to an open node is dropped only when its queue has no buffer left;
and a public key is looked up under its own address.
-/
theorem messages_delivered (run : Runs step withinMTU (new queueLen) trace w) :
    w.Delivers queueLen trace := by
  have valid := valid_of_run (valid_new queueLen) run
  refine ⟨fun n => (List.sublist_append_left _ _).trans (sublist_of_run run n),
    fun n hopen => fifo_of_run run (valid.closed_eq_false hopen), ?_, ?_,
    fun _ _ _ _ _ => genuine_of_run run, ?_, ?_⟩
  · intro n hopen howed
    have hkept := fifo_of_run run (valid.closed_eq_false hopen)
    have hitems : (Q.view (w.incoming n)).items ≠ [] := by
      intro hnone
      rw [hnone, List.append_nil] at hkept
      exact howed hkept
    obtain ⟨⟨m, queue⟩, hreceive⟩ := Option.isSome_iff_exists.mp (Q.received_of_ne_nil _ hitems)
    simp [step, hreceive]
  · intro n node hn
    refine List.Sublist.flatMap_right _ ?_
    rintro ⟨event, seen⟩ hmem
    have haddressed : ∀ m ∈ acceptedBy n (event, seen), m.dst = node.localAddr := by
      intro m hm
      obtain ⟨other, hother, hhome⟩ :=
        addressed_of_run run (List.mem_flatMap.mpr ⟨_, hmem, hm⟩)
      rw [hn] at hother
      cases hother
      exact hhome.symm
    unfold acceptedBy at haddressed ⊢
    split at haddressed
    · next m serial heq =>
        cases heq
        split at haddressed
        · next hsame =>
            rw [if_pos hsame, sentTo, if_pos (haddressed m (List.mem_singleton_self m))]
        · next hsame =>
            rw [if_neg hsame]
            exact List.nil_sublist _
    · exact List.nil_sublist _
  · intro before after event m n hsplit
    obtain ⟨here, hbefore, hhere, hqueueLen, -⟩ := shows_of_run run hsplit
    obtain ⟨hopen, hfull⟩ := hhere.refused m n rfl
    have hfifo := congrArg List.length (fifo_of_run hbefore hopen)
    have hhandling := handling_of_run hbefore n
    rw [List.length_append] at hfifo
    omega
  · intro handle target key hmem
    obtain ⟨here, hhere, -⟩ := shows_of_mem run hmem
    exact hhere.keys handle target key rfl rfl

end Histories

def sampleAddr (byte : UInt8) : Addr := copyTo 32 (writeTag [] signAlgoEd25519 ++ [byte])

/-- Messages to a node with one buffer: it is in use until the first has been handled. -/
def sampleMessages : List (WorldEvent samplePrimitives) :=
  [.openNode (.base (sampleSigner 7)), .openNode (.base (sampleSigner 8)),
    .send 0 (sampleAddr 8) [1], .receive 1, .send 0 (sampleAddr 8) [2], .finish 1,
    .send 0 (sampleAddr 8) [3], .receive 1, .close 1]

/-- The service on a queue that keeps its contents when it is closed. -/
abbrev SampleWorld := World samplePrimitives (MessageQueue.bounded Message.size)

theorem messages_delivered_sample :
    ∃ (trace : List (WorldEvent samplePrimitives × Seen samplePrimitives)) (w : SampleWorld),
      trace.map Prod.fst = sampleMessages ∧ Runs step withinMTU (new 1) trace w ∧
      trace.flatMap (receivedBy 1) =
        [⟨sampleAddr 7, sampleAddr 8, [1]⟩, ⟨sampleAddr 7, sampleAddr 8, [3]⟩] ∧
      w.Delivers 1 trace := by
  have hreplay : (replay step withinMTU (new 1 : SampleWorld) sampleMessages).map
      (fun result => result.2.flatMap (receivedBy 1)) =
      some [⟨sampleAddr 7, sampleAddr 8, [1]⟩, ⟨sampleAddr 7, sampleAddr 8, [3]⟩] := by
    decide +kernel
  obtain ⟨trace, w, hevents, run, hreceived⟩ := exists_run_of_map hreplay
  exact ⟨trace, w, hevents, run, hreceived, messages_delivered run⟩

end World

end Inet256.Mem
