import Inet256.Foundation.Json
import Inet256.Internal.Rcsrv
import Inet256.Pki.Addr

/-!
# The service over HTTP

A client opens a node with a `CONNECT` request, whose connection then carries the
node until either side ends it, and drops a key with a `DELETE` request.  The
server keeps its nodes in a reference counting wrapper of another service.
-/

namespace Inet256.Http

open Inet256.Foundation
open Inet256.Crypto
open Inet256.Rcsrv

variable {P : Primitives}

/-! ## The wrapped service -/

/-- The reference counting server, and the nodes that are open in the service it wraps. -/
structure Backend where
  rc : Rcsrv.Server
  inner : List Node

namespace Backend

def wrap : Backend := ⟨Server.wrap, []⟩

def openIDs (x : Backend) : List Addr := x.inner.map Node.localAddr

/-- `answer` is what the wrapped service returns, if it is asked. -/
def openNode (x : Backend) (pk : PrivateKey P) (answer : Except String Node) :
    Go (Backend × Node) := do
  let id ← newID pk.public
  let (rc, node) ← x.rc.openNode pk answer
  match x.rc.nodes.lookup id with
  | some _ => return ({ x with rc }, node)
  -- the wrapped service has been asked
  | none => return ({ rc, inner := x.inner ++ [node] }, node)

def deleted (x : Backend) (r : Deleted) : Backend where
  rc := r.server
  inner :=
    match r.closed with
    | none => x.inner
    | some node => x.inner.erase node

def drop (x : Backend) (pk : PrivateKey P) (closeErr : Option String) :
    Go (Backend × Option String) := do
  let r ← x.rc.drop pk closeErr
  return (x.deleted r, r.err)

def close (x : Backend) (node : Node) (closeErr : Option String) : Backend × Option String :=
  let r := x.rc.close node closeErr
  (x.deleted r, r.err)

end Backend

/-! ## Requests -/

def slash : UInt8 := 47

structure OpenReq where
  privateKey : Bytes
  deriving DecidableEq

structure DropReq where
  privateKey : Bytes
  deriving DecidableEq

/-- The encodings of the bodies. -/
structure Wire where
  openReq : JsonCodec OpenReq
  dropReq : JsonCodec DropReq

inductive Method where
  | connect
  | delete
  | other
  deriving DecidableEq

structure Request where
  method : Method
  path : Bytes
  body : Bytes
  deriving DecidableEq

inductive Status where
  | ok
  | badRequest
  | internalServerError
  deriving DecidableEq

def Status.text : Status → String
  | .ok => "200 OK"
  | .badRequest => "400 Bad Request"
  | .internalServerError => "500 Internal Server Error"

inductive Response where
  | status (status : Status)
  /-- The status is ok, on a connection that carries the node from now on. -/
  | serving (node : Node)
  /-- The handler panicked. -/
  | aborted

/-- The part of the path after its last slash, slashes at its end apart. -/
def lastPart (path : Bytes) : Bytes :=
  ((path.reverse.dropWhile (· == slash)).takeWhile (· != slash)).reverse

def handleOpen (P : Primitives) (wire : Wire) (x : Backend) (r : Request)
    (answer : Except String Node) : Go (Backend × Node) := do
  let addr ← Addr.parseAddrBase64 (lastPart r.path)
  let req ← wire.openReq.unmarshal r.body
  let privKey : PrivateKey P ← parsePrivateKey req.privateKey
  let id ← newID privKey.public
  if id ≠ addr then
    fail "private key does not match address"
  else
    x.openNode privKey answer

def serveHTTP (P : Primitives) (wire : Wire) (x : Backend) (r : Request)
    (answer : Except String Node) : Backend × Response :=
  match r.method with
  | .connect =>
      match handleOpen P wire x r answer with
      | .ok (x, node) => (x, .serving node)
      | .error (.error _) => (x, .status .internalServerError)
      | .error (.panic _) => (x, .aborted)
  -- the case is empty, and the status is written by default
  | .delete => (x, .status .ok)
  | .other => (x, .status .badRequest)

/-! ## The client -/

def nodePath (id : Addr) : Bytes := ascii "/nodes/" ++ Addr.marshalText id

def openRequest (wire : Wire) (privKey : PrivateKey P) : Go Request := do
  let id ← newID privKey.public
  let key ← marshalPrivateKey [] privKey
  return ⟨.connect, nodePath id, wire.openReq.marshal ⟨key⟩⟩

def dropRequest (wire : Wire) (privKey : PrivateKey P) : Go Request := do
  let id ← newID privKey.public
  let key ← marshalPrivateKey [] privKey
  return ⟨.delete, nodePath id, wire.dropReq.marshal ⟨key⟩⟩

/-- The service behind the server, and the node that the client gets a connection to. -/
def clientOpen (wire : Wire) (x : Backend) (privKey : PrivateKey P)
    (answer : Except String Node) : Go (Backend × Except String Node) := do
  let req ← openRequest wire privKey
  match serveHTTP P wire x req answer with
  | (x, .serving node) => return (x, .ok node)
  | (x, .status status) => return (x, .error s!"inet256http: error opening node {status.text}")
  | (x, .aborted) => return (x, .error "unexpected EOF")

def clientDrop (wire : Wire) (x : Backend) (privKey : PrivateKey P) :
    Go (Backend × Option String) := do
  let req ← dropRequest wire privKey
  match serveHTTP P wire x req (.error "not asked") with
  | (x, .status .ok) => return (x, none)
  | (x, .status status) => return (x, some s!"non-okay status: {status.text}")
  | (x, .serving _) => return (x, none)
  | (x, .aborted) => return (x, some "unexpected EOF")

theorem lastPart_nodePath (id : Addr) : lastPart (nodePath id) = Addr.marshalText id := by
  have hfree : ∀ byte ∈ (Addr.marshalText id).reverse, byte ≠ slash := by
    intro byte hbyte hslash
    rw [hslash, List.mem_reverse] at hbyte
    have hletter := Base64.mem_letters_of_mem_encode _ hbyte
    revert hletter
    decide +kernel
  have hroot : (ascii "/nodes/").reverse = slash :: ascii "sedon/" := by decide
  cases htext : (Addr.marshalText id).reverse with
  | nil => exact absurd (List.reverse_eq_nil_iff.mp htext) (Addr.marshalText_ne_nil id)
  | cons byte bytes =>
      have hbyte : byte ≠ slash := hfree byte (by simp [htext])
      have hpath : (nodePath id).reverse = (byte :: bytes) ++ slash :: ascii "sedon/" := by
        rw [nodePath, List.reverse_append, htext, hroot]
      have hwhole : ((byte :: bytes) ++ slash :: ascii "sedon/").takeWhile (· != slash) =
          byte :: bytes := by
        rw [List.takeWhile_append_of_pos]
        · simp
        · intro other hother
          simpa using hfree other (htext ▸ hother)
      have hdrop : ((byte :: bytes) ++ slash :: ascii "sedon/").dropWhile (· == slash) =
          (byte :: bytes) ++ slash :: ascii "sedon/" := by
        simp [hbyte]
      rw [lastPart, hpath, hdrop, hwhole, ← htext, List.reverse_reverse]

/-- The server is asked to open the very key the client was given. -/
theorem clientOpen_eq (wire : Wire) (laws : LawfulPrivateKeys P) (x : Backend)
    (privKey : PrivateKey P) (answer : Except String Node) {id : Addr}
    (hid : newID privKey.public = .ok id) :
    clientOpen wire x privKey answer =
      match x.openNode privKey answer with
      | .ok (x, node) => .ok (x, .ok node)
      | .error (.error _) =>
          .ok (x, .error "inet256http: error opening node 500 Internal Server Error")
      | .error (.panic _) => .ok (x, .error "unexpected EOF") := by
  obtain ⟨data, hmarshal, hparse⟩ := parsePrivateKey_of_newID laws hid
  have hopen : handleOpen P wire x ⟨.connect, nodePath id, wire.openReq.marshal ⟨data⟩⟩ answer =
      x.openNode privKey answer := by
    simp [handleOpen, lastPart_nodePath, Addr.parseAddrBase64_marshalText,
      wire.openReq.unmarshal_marshal, hparse, hid]
  simp only [clientOpen, openRequest, hid, hmarshal, Go.ok_bind, Go.pure_eq_ok, serveHTTP, hopen]
  cases x.openNode privKey answer with
  | ok result => rfl
  | error fault => cases fault <;> rfl

theorem clientDrop_eq (wire : Wire) (laws : LawfulPrivateKeys P) (x : Backend)
    {privKey : PrivateKey P} {id : Addr} (hid : newID privKey.public = .ok id) :
    clientDrop wire x privKey = .ok (x, none) := by
  obtain ⟨data, hmarshal, -⟩ := parsePrivateKey_of_newID laws hid
  simp [clientDrop, dropRequest, hid, hmarshal, serveHTTP]

/-! ## The nodes that are open -/

/-- The wrapped service has exactly the nodes open that the table lists, each under its address. -/
structure Backend.Consistent (x : Backend) : Prop where
  listed : ∀ id ns, x.rc.nodes.lookup id = some ns →
    ns.node.localAddr = id ∧ ns.node ∈ x.inner
  inner : ∀ node ∈ x.inner, ∃ ns, x.rc.nodes.lookup node.localAddr = some ns ∧ ns.node = node
  nodup : x.inner.Nodup

namespace Backend

variable {x x' : Backend}

theorem consistent_wrap : wrap.Consistent where
  listed := by simp [wrap, Server.wrap]
  inner := by simp [wrap]
  nodup := by simp [wrap]

theorem Consistent.mem_openIDs (h : x.Consistent) (id : Addr) :
    id ∈ x.openIDs ↔ (x.rc.nodes.lookup id).isSome = true := by
  simp only [openIDs, List.mem_map]
  constructor
  · rintro ⟨node, hnode, rfl⟩
    obtain ⟨ns, hns, -⟩ := h.inner node hnode
    simp [hns]
  · intro hsome
    obtain ⟨ns, hns⟩ := Option.isSome_iff_exists.mp hsome
    obtain ⟨haddr, hmem⟩ := h.listed id ns hns
    exact ⟨ns.node, hmem, haddr⟩

/-- The entry of an open node changes its count. -/
theorem Consistent.recount (h : x.Consistent) {id : Addr} {ns : NodeState}
    (hns : x.rc.nodes.lookup id = some ns) (count : Int) :
    Consistent { x with rc := ⟨x.rc.nodes.insert id { ns with count }⟩ } := by
  obtain ⟨haddr, hmem⟩ := h.listed id ns hns
  constructor
  · intro other found hfound
    rcases GoMap.lookup_insert_cases hfound with ⟨rfl, rfl⟩ | ⟨-, hfound⟩
    · exact ⟨haddr, hmem⟩
    · exact h.listed other found hfound
  · intro node hnode
    obtain ⟨found, hfound, hsame⟩ := h.inner node hnode
    by_cases hother : node.localAddr = id
    · rw [hother, hns] at hfound
      cases hfound
      refine ⟨{ ns with count }, ?_, hsame⟩
      simp [GoMap.lookup_insert_eq, hother]
    · refine ⟨found, ?_, hsame⟩
      simp [hother, hfound]
  · exact h.nodup

theorem Consistent.add (h : x.Consistent) {node : Node} (count : Int)
    (hnone : x.rc.nodes.lookup node.localAddr = none) :
    Consistent ⟨⟨x.rc.nodes.insert node.localAddr { node, count }⟩, x.inner ++ [node]⟩ := by
  have hnew : node ∉ x.inner := by
    intro hmem
    obtain ⟨ns, hns, -⟩ := h.inner node hmem
    simp [hnone] at hns
  constructor
  · intro id ns hns
    rcases GoMap.lookup_insert_cases hns with ⟨rfl, rfl⟩ | ⟨-, hns⟩
    · exact ⟨rfl, by simp⟩
    · obtain ⟨haddr, hmem⟩ := h.listed id ns hns
      exact ⟨haddr, List.mem_append_left _ hmem⟩
  · intro other hother
    rcases List.mem_append.mp hother with hother | hother
    · obtain ⟨ns, hns, hsame⟩ := h.inner other hother
      have haddr : other.localAddr ≠ node.localAddr := by
        intro haddr
        rw [haddr, hnone] at hns
        cases hns
      refine ⟨ns, ?_, hsame⟩
      simp [haddr, hns]
    · obtain rfl := List.mem_singleton.mp hother
      exact ⟨{ node := other, count }, Finmap.lookup_insert _, rfl⟩
  · rw [← List.concat_eq_append]
    exact h.nodup.concat hnew

theorem Consistent.mem_deleted (h : x.Consistent) {r : Deleted} {id : Addr}
    (hclosed : r.closed = (x.rc.nodes.lookup id).map NodeState.node) (node : Node) :
    node ∈ (x.deleted r).inner ↔ node ∈ x.inner ∧ node.localAddr ≠ id := by
  cases hns : x.rc.nodes.lookup id with
  | none =>
      simp only [Backend.deleted, hclosed, hns, Option.map_none, iff_self_and]
      rintro hnode rfl
      obtain ⟨ns, hns', -⟩ := h.inner node hnode
      simp [hns] at hns'
  | some ns =>
      simp only [Backend.deleted, hclosed, hns, Option.map_some, h.nodup.mem_erase_iff]
      constructor
      · rintro ⟨hne, hnode⟩
        refine ⟨hnode, fun haddr => hne ?_⟩
        obtain ⟨found, hfound, rfl⟩ := h.inner node hnode
        rw [haddr, hns] at hfound
        cases hfound
        rfl
      · rintro ⟨hnode, haddr⟩
        refine ⟨?_, hnode⟩
        rintro rfl
        exact haddr (h.listed id ns hns).1

/-- The entry under the address is deleted, and its node closed. -/
theorem Consistent.deleted (h : x.Consistent) {r : Deleted} {id : Addr}
    (hserver : ∀ other, r.server.nodes.lookup other =
      if other = id then none else x.rc.nodes.lookup other)
    (hclosed : r.closed = (x.rc.nodes.lookup id).map NodeState.node) :
    (x.deleted r).Consistent := by
  have hmem := h.mem_deleted hclosed
  constructor
  · intro other ns hns
    simp only [Backend.deleted, hserver] at hns
    split at hns
    · cases hns
    · next hother =>
        obtain ⟨haddr, hnode⟩ := h.listed other ns hns
        exact ⟨haddr, (hmem ns.node).mpr ⟨hnode, haddr ▸ hother⟩⟩
  · intro node hnode
    obtain ⟨hold, haddr⟩ := (hmem node).mp hnode
    obtain ⟨ns, hns, hsame⟩ := h.inner node hold
    refine ⟨ns, ?_, hsame⟩
    simp [Backend.deleted, hserver, haddr, hns]
  · unfold Backend.deleted
    split
    · exact h.nodup
    · exact h.nodup.erase _

theorem Consistent.close (h : x.Consistent) (node : Node) (closeErr : Option String) :
    (x.close node closeErr).1.Consistent := by
  cases hns : x.rc.nodes.lookup node.localAddr with
  | none =>
      simpa [Backend.close, Backend.deleted, System.close_idle hns] using h
  | some ns =>
      rcases System.close_cases closeErr hns with ⟨-, hclosed, hserver⟩ | ⟨-, hclosed, hserver⟩
      · apply h.deleted hserver
        rw [hclosed, hns]
        rfl
      · have hcount := h.recount hns (ns.count - 1)
        simpa [Backend.close, Backend.deleted, hclosed, ← hserver] using hcount

theorem Consistent.openNode (h : x.Consistent) {pk : PrivateKey P} {answer : Except String Node}
    {node : Node} (hanswer : ∀ node, answer = .ok node → newID pk.public = .ok node.localAddr)
    (hopen : x.openNode pk answer = .ok (x', node)) : x'.Consistent := by
  obtain ⟨id, hid, hopen⟩ := Go.bind_eq_ok.mp hopen
  cases hns : x.rc.nodes.lookup id with
  | some ns =>
      simp only [Server.openNode, hid, hns, Go.ok_bind, Go.pure_eq_ok, Except.ok.injEq,
        Prod.mk.injEq] at hopen
      rw [← hopen.1]
      exact h.recount hns (ns.count + 1)
  | none =>
      cases answer with
      | error err => simp [Server.openNode, hid, hns, fail, bind, Except.bind] at hopen
      | ok fresh =>
          simp only [Server.openNode, hid, hns, Go.ok_bind, Go.pure_eq_ok, Except.ok.injEq,
            Prod.mk.injEq] at hopen
          have haddr := hanswer fresh rfl
          rw [hid] at haddr
          cases haddr
          rw [← hopen.1]
          exact h.add 1 hns

end Backend

/-! ## The same calls through the client and on the wrapped service -/

structure Conn where
  node : Node
  /-- The client has closed its side. -/
  closed : Bool
  /-- The server has not come to the end of the connection yet. -/
  served : Bool

structure Remote where
  x : Backend
  conns : List Conn

structure Direct where
  x : Backend
  handles : List Node

inductive Call (P : Primitives) where
  | openNode (pk : PrivateKey P) (answer : Except String Node)
  /-- The server has noticed the end of the connection when `Close` returns, or not. -/
  | close (handle : Nat) (noticed : Bool) (closeErr : Option String)
  | drop (pk : PrivateKey P) (closeErr : Option String)
  /-- The server notices the end of a connection later. -/
  | notice (handle : Nat) (closeErr : Option String)

namespace Remote

def openNode (wire : Wire) (s : Remote) (pk : PrivateKey P) (answer : Except String Node) :
    Option (Remote × Option String) := do
  let (x, result) ← (clientOpen wire s.x pk answer).toOption
  match result with
  | .ok node => some (⟨x, s.conns ++ [⟨node, false, true⟩]⟩, none)
  | .error err => some (⟨x, s.conns⟩, some err)

/-- The deferred call of `node.Close`. -/
def finish (s : Remote) (handle : Nat) (c : Conn) (closeErr : Option String) : Remote :=
  ⟨(s.x.close c.node closeErr).1, s.conns.set handle ⟨c.node, true, false⟩⟩

/-- `Close` of the client's node returns nil whatever happens. -/
def close (s : Remote) (handle : Nat) (noticed : Bool) (closeErr : Option String) :
    Option Remote := do
  let c ← s.conns[handle]?
  if c.closed then some s
  else if noticed then some (s.finish handle c closeErr)
  else some { s with conns := s.conns.set handle { c with closed := true } }

def drop (wire : Wire) (s : Remote) (pk : PrivateKey P) : Option (Remote × Option String) := do
  let (x, err) ← (clientDrop wire s.x pk).toOption
  some ({ s with x }, err)

def notice (s : Remote) (handle : Nat) (closeErr : Option String) : Option Remote := do
  let c ← s.conns[handle]?
  if c.closed && c.served then some (s.finish handle c closeErr) else none

end Remote

namespace Direct

def openNode (s : Direct) (pk : PrivateKey P) (answer : Except String Node) :
    Option (Direct × Option String) :=
  match s.x.openNode pk answer with
  | .ok (x, node) => some (⟨x, s.handles ++ [node]⟩, none)
  | .error (.error err) => some (s, some err)
  | .error (.panic _) => none

def close (s : Direct) (handle : Nat) (closeErr : Option String) :
    Option (Direct × Option String) := do
  let node ← s.handles[handle]?
  some ({ s with x := (s.x.close node closeErr).1 }, (s.x.close node closeErr).2)

def drop (s : Direct) (pk : PrivateKey P) (closeErr : Option String) :
    Option (Direct × Option String) := do
  let (x, err) ← (s.x.drop pk closeErr).toOption
  some ({ s with x }, err)

end Direct

structure Pair where
  remote : Remote
  direct : Direct

namespace Pair

def new : Pair := ⟨⟨Backend.wrap, []⟩, ⟨Backend.wrap, []⟩⟩

/-- The errors that are returned by the client and by the wrapped service. -/
structure Errors where
  remote : Option String
  direct : Option String
  deriving DecidableEq

def step (wire : Wire) (s : Pair) : Call P → Option (Pair × Errors)
  | .openNode pk answer => do
      let (remote, err) ← s.remote.openNode wire pk answer
      let (direct, err') ← s.direct.openNode pk answer
      some (⟨remote, direct⟩, ⟨err, err'⟩)
  | .close handle noticed closeErr => do
      let remote ← s.remote.close handle noticed closeErr
      let (direct, err) ← s.direct.close handle closeErr
      some (⟨remote, direct⟩, ⟨none, err⟩)
  | .drop pk closeErr => do
      let (remote, err) ← s.remote.drop wire pk
      let (direct, err') ← s.direct.drop pk closeErr
      some (⟨remote, direct⟩, ⟨err, err'⟩)
  | .notice handle closeErr => do
      let remote ← s.remote.notice handle closeErr
      some ({ s with remote }, ⟨none, none⟩)

/--
The wrapped service opens nodes under the address of their key.  No node is closed twice, the server
notices at once that a node was closed, and no key is dropped that has an open node.
-/
def orderly (s : Pair) : Call P → Prop
  | .openNode pk (.ok node) => newID pk.public = .ok node.localAddr
  | .openNode _ (.error _) => True
  | .close handle noticed _ =>
      noticed = true ∧ s.remote.conns[handle]?.map Conn.closed = some false
  | .drop pk _ =>
      match newID pk.public with
      | .ok id => (s.direct.x.rc.nodes.lookup id).isNone
      | .error _ => True
  | .notice _ _ => True

instance (s : Pair) : (call : Call P) → Decidable (s.orderly call)
  | .openNode pk (.ok node) =>
      inferInstanceAs (Decidable (newID pk.public = .ok node.localAddr))
  | .openNode _ (.error _) => .isTrue trivial
  | .close handle noticed _ => inferInstanceAs
      (Decidable (noticed = true ∧ s.remote.conns[handle]?.map Conn.closed = some false))
  | .drop pk _ =>
      match h : newID pk.public with
      | .ok id => decidable_of_iff ((s.direct.x.rc.nodes.lookup id).isNone = true)
          (by simp [orderly, h])
      | .error _ => .isTrue (by simp [orderly, h])
  | .notice _ _ => .isTrue trivial

/-- The same addresses are open in the service behind the server. -/
def SameOpen (s : Pair) : Prop :=
  ∀ id, id ∈ s.remote.x.openIDs ↔ id ∈ s.direct.x.openIDs

/-! ### Both services go through the same states -/

structure InStep (s : Pair) : Prop where
  same : s.remote.x = s.direct.x
  handles : s.remote.conns.map Conn.node = s.direct.handles
  served : ∀ c ∈ s.remote.conns, c.served = !c.closed
  consistent : s.direct.x.Consistent

variable {wire : Wire} {s s' : Pair} {errors : Errors}

theorem inStep_new : new.InStep where
  same := rfl
  handles := rfl
  served := by simp [new]
  consistent := Backend.consistent_wrap

theorem InStep.sameOpen (h : s.InStep) : s.SameOpen := by
  intro id
  rw [h.same]

theorem InStep.openNode (h : s.InStep) (laws : LawfulPrivateKeys P) {pk : PrivateKey P}
    {answer : Except String Node} (horderly : s.orderly (.openNode pk answer))
    (hstep : s.step wire (.openNode pk answer) = some (s', errors)) : s'.InStep := by
  have hanswer : ∀ node, answer = .ok node → newID pk.public = .ok node.localAddr := by
    rintro node rfl
    exact horderly
  simp only [step, Option.bind_eq_bind, Option.bind_eq_some_iff, Prod.exists] at hstep
  obtain ⟨remote, err, hremote, direct, err', hdirect, hstep⟩ := hstep
  cases hstep
  cases hid : newID pk.public with
  | error fault =>
      simp [Remote.openNode, clientOpen, openRequest, hid, bind, Except.bind,
        Except.toOption] at hremote
  | ok id =>
      simp only [Remote.openNode, clientOpen_eq wire laws _ _ _ hid, h.same] at hremote
      unfold Direct.openNode at hdirect
      split at hdirect
      · next x node hopen =>
          simp only [hopen, Except.toOption, Option.bind_eq_bind, Option.bind_some,
            Option.some.injEq, Prod.mk.injEq] at hremote
          cases hdirect
          rw [← hremote.1]
          refine ⟨rfl, by simp [h.handles], ?_, h.consistent.openNode hanswer hopen⟩
          intro c hc
          rcases List.mem_append.mp hc with hc | hc
          · exact h.served c hc
          · obtain rfl := List.mem_singleton.mp hc
            rfl
      · next hopen =>
          simp only [hopen, Except.toOption, Option.bind_eq_bind, Option.bind_some,
            Option.some.injEq, Prod.mk.injEq] at hremote
          cases hdirect
          rw [← hremote.1]
          exact ⟨rfl, h.handles, h.served, h.consistent⟩
      · cases hdirect

theorem InStep.close (h : s.InStep) {handle : Nat} {noticed : Bool} {closeErr : Option String}
    (horderly : s.orderly (.close handle noticed closeErr : Call P))
    (hstep : s.step wire (.close handle noticed closeErr : Call P) = some (s', errors)) :
    s'.InStep := by
  obtain ⟨rfl, hopen⟩ := horderly
  obtain ⟨c, hc, hclosed⟩ := Option.map_eq_some_iff.mp hopen
  have hhandle : s.direct.handles[handle]? = some c.node := by
    rw [← h.handles, List.getElem?_map, hc]
    rfl
  simp only [step, Remote.close, Direct.close, hc, hhandle, hclosed, Option.bind_eq_bind,
    Option.bind_some, if_true, Bool.false_eq_true, if_false, Option.some.injEq,
    Prod.mk.injEq] at hstep
  rw [← hstep.1]
  refine ⟨by simp [Remote.finish, h.same], ?_, ?_, h.consistent.close c.node closeErr⟩
  · obtain ⟨hlt, hnode⟩ := List.getElem?_eq_some_iff.mp hhandle
    simp only [Remote.finish, List.map_set, h.handles, ← hnode]
    exact List.set_getElem_self hlt
  · intro other hother
    rcases List.mem_or_eq_of_mem_set hother with hother | rfl
    · exact h.served other hother
    · rfl

/-- The server answers a drop and does nothing; the wrapped service deletes the key. -/
theorem drop_cases (laws : LawfulPrivateKeys P) {pk : PrivateKey P} {closeErr : Option String}
    (hstep : s.step wire (.drop pk closeErr) = some (s', errors)) :
    errors.remote = none ∧ ∃ id, newID pk.public = .ok id ∧
      s' = ⟨s.remote,
        { s.direct with x := s.direct.x.deleted (s.direct.x.rc.delete id closeErr) }⟩ := by
  simp only [step, Option.bind_eq_bind, Option.bind_eq_some_iff, Prod.exists] at hstep
  obtain ⟨remote, err, hremote, direct, err', hdirect, hstep⟩ := hstep
  cases hstep
  cases hid : newID pk.public with
  | error fault =>
      simp [Remote.drop, clientDrop, dropRequest, hid, bind, Except.bind,
        Except.toOption] at hremote
  | ok id =>
      simp only [Remote.drop, clientDrop_eq wire laws _ hid, Except.toOption,
        Option.bind_eq_bind, Option.bind_some, Option.some.injEq, Prod.mk.injEq] at hremote
      simp only [Direct.drop, Backend.drop, Server.drop, hid, Go.ok_bind, Go.pure_eq_ok,
        Except.toOption, Option.bind_eq_bind, Option.bind_some, Option.some.injEq,
        Prod.mk.injEq] at hdirect
      refine ⟨hremote.2.symm, id, rfl, ?_⟩
      rw [← hremote.1, ← hdirect.1]

theorem orderly_drop {pk : PrivateKey P} {id : Addr} (hid : newID pk.public = .ok id)
    (closeErr : Option String) :
    s.orderly (.drop pk closeErr) ↔ s.direct.x.rc.nodes.lookup id = none := by
  simp [orderly, hid]

theorem InStep.drop (h : s.InStep) (laws : LawfulPrivateKeys P) {pk : PrivateKey P}
    {closeErr : Option String} (horderly : s.orderly (.drop pk closeErr))
    (hstep : s.step wire (.drop pk closeErr) = some (s', errors)) : s'.InStep := by
  obtain ⟨-, id, hid, rfl⟩ := drop_cases laws hstep
  have hnone := (orderly_drop hid closeErr).mp horderly
  rw [System.delete_idle hnone]
  exact ⟨h.same, h.handles, h.served, h.consistent⟩

/-- After a drop the same addresses are open if none was open under the key. -/
theorem InStep.sameOpen_drop (h : s.InStep) (laws : LawfulPrivateKeys P) {pk : PrivateKey P}
    {closeErr : Option String} {id : Addr} (hid : newID pk.public = .ok id)
    (hstep : s.step wire (.drop pk closeErr) = some (s', errors)) :
    (id ∉ s'.remote.x.openIDs ↔ s.orderly (.drop pk closeErr)) ∧
      (s'.SameOpen ↔ s.orderly (.drop pk closeErr)) := by
  have hmem := h.consistent.mem_openIDs id
  obtain ⟨-, other, hother, hdropped⟩ := drop_cases laws hstep
  rw [hid] at hother
  cases hother
  have hopen : id ∉ s'.remote.x.openIDs ↔ s.orderly (.drop pk closeErr) := by
    rw [hdropped, orderly_drop hid, h.same, hmem]
    simp
  refine ⟨hopen, fun hsame => hopen.mp ?_, fun horderly => (h.drop laws horderly hstep).sameOpen⟩
  have hdeleted : (s.direct.x.deleted (s.direct.x.rc.delete id closeErr)).Consistent :=
    h.consistent.deleted (System.lookup_delete _ _ _) (System.closed_delete _ _ _)
  rw [hsame id, hdropped, hdeleted.mem_openIDs]
  simp [Backend.deleted, System.lookup_delete]

theorem InStep.notice (h : s.InStep) {handle : Nat} {closeErr : Option String}
    (hstep : s.step wire (.notice handle closeErr : Call P) = some (s', errors)) : False := by
  simp only [step, Remote.notice, Option.bind_eq_bind, Option.bind_eq_some_iff] at hstep
  obtain ⟨remote, ⟨c, hc, hremote⟩, -⟩ := hstep
  have hserved := h.served c (List.mem_of_getElem? hc)
  cases hclosed : c.closed <;> simp [hclosed, hserved] at hremote

theorem InStep.step (h : s.InStep) (laws : LawfulPrivateKeys P) {call : Call P}
    (horderly : s.orderly call) (hstep : s.step wire call = some (s', errors)) : s'.InStep := by
  cases call with
  | openNode pk answer => exact h.openNode laws horderly hstep
  | close handle noticed closeErr => exact h.close horderly hstep
  | drop pk closeErr => exact h.drop laws horderly hstep
  | notice handle closeErr => exact (h.notice hstep).elim

/--
Orderly calls leave the same addresses open, whether they are made through the client or of the
wrapped service.  After them the client drops any key with success, but only a key that has no open
node is then without one, and the same addresses are open only then.
-/
theorem http_same_as_wrapped (wire : Wire) (laws : LawfulPrivateKeys P)
    {trace : List (Call P × Errors)} (run : Runs (Pair.step wire) orderly new trace s) :
    s.SameOpen ∧
      ∀ (pk : PrivateKey P) closeErr s' errors id, newID pk.public = .ok id →
        s.step wire (.drop pk closeErr) = some (s', errors) →
        errors.remote = none ∧
          (id ∉ s'.remote.x.openIDs ↔ s.orderly (.drop pk closeErr)) ∧
          (s'.SameOpen ↔ s.orderly (.drop pk closeErr)) := by
  have inStep : s.InStep :=
    run.invariant inStep_new fun _ _ _ _ h horderly hstep => h.step laws horderly hstep
  refine ⟨inStep.sameOpen, ?_⟩
  intro pk closeErr s' errors id hid hstep
  exact ⟨(drop_cases laws hstep).1, inStep.sameOpen_drop laws hid hstep⟩

/-! ### A key that is dropped -/

def sampleWire : Wire where
  openReq := Json.bytesObject "private_key" OpenReq.mk OpenReq.privateKey fun _ => rfl
  dropReq := Json.bytesObject "private_key" DropReq.mk DropReq.privateKey fun _ => rfl

def sampleKey (byte : UInt8) : PrivateKey samplePrimitives := .base (sampleSigner byte)

def sampleNode (serial : Nat) (byte : UInt8) : Except String Node :=
  .ok ⟨serial, copyTo 32 (writeTag [] (ascii "ed25519") ++ [byte])⟩

/-- Two handles of a node, one of them closed, and a key dropped that was never opened. -/
def sampleCalls : List (Call samplePrimitives) :=
  [.openNode (sampleKey 7) (sampleNode 0 7), .openNode (sampleKey 7) (.error "not asked"),
    .close 0 true none, .drop (sampleKey 8) none]

theorem http_same_as_wrapped_sample :
    ∃ trace s, trace.map Prod.fst = sampleCalls ∧
      Runs (Pair.step sampleWire) orderly new trace s ∧
      s.remote.x.openIDs.length = 1 ∧ s.SameOpen := by
  have hopen : (replay (Pair.step sampleWire) orderly new sampleCalls).map
      (fun result => result.1.remote.x.openIDs.length) = some 1 := by
    decide +kernel
  obtain ⟨trace, s, hevents, run, hlength⟩ := exists_run_of_map hopen
  exact ⟨trace, s, hevents, run, hlength,
    (http_same_as_wrapped sampleWire samplePrimitives_lawfulPrivateKeys run).1⟩

/-- The client's `Drop` returns nil, and the node of its key is still open behind the server. -/
theorem drop_leaves_node_open :
    ∃ trace s id, Runs (Pair.step sampleWire) anyEvent new trace s ∧
      trace.map Prod.fst =
        [.openNode (sampleKey 7) (sampleNode 0 7), .drop (sampleKey 7) none] ∧
      trace.map Prod.snd = [⟨none, none⟩, ⟨none, none⟩] ∧
      newID (sampleKey 7).public = .ok id ∧
      id ∈ s.remote.x.openIDs ∧ id ∉ s.direct.x.openIDs ∧ ¬ s.SameOpen := by
  have hopen : (replay (Pair.step sampleWire) anyEvent new
      [.openNode (sampleKey 7) (sampleNode 0 7), .drop (sampleKey 7) none]).map
        (fun result => (result.2.map Prod.snd, (newID (sampleKey 7).public).toOption.map
          fun id => (decide (id ∈ result.1.remote.x.openIDs),
            decide (id ∈ result.1.direct.x.openIDs)))) =
      some ([⟨none, none⟩, ⟨none, none⟩], some (true, false)) := by
    decide +kernel
  obtain ⟨trace, s, hevents, run, hseen⟩ := exists_run_of_map hopen
  simp only [Prod.mk.injEq, Option.map_eq_some_iff, toOption_eq_some] at hseen
  obtain ⟨herrors, id, hid, hremote, hdirect⟩ := hseen
  have hremote := of_decide_eq_true hremote
  have hdirect := of_decide_eq_false hdirect
  exact ⟨trace, s, id, run, hevents, herrors, hid, hremote, hdirect,
    fun hsame => hdirect ((hsame id).mp hremote)⟩

end Pair

end Inet256.Http
