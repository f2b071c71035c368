import Inet256.Foundation.Runs
import Inet256.Foundation.Runtime
import Inet256.Pki.Signature

/-!
# Reference counted nodes

A server that opens one node per address and hands out any number of handles to
it.  The table is keyed by address, and closing a handle looks its node up there
again, so that a handle that outlived a `Drop` finds whatever is open under its
address by then.
-/

namespace Inet256.Rcsrv

open Inet256.Foundation
open Inet256.Crypto

variable {P : Primitives}

structure Node where
  serial : Nat
  localAddr : Addr
  deriving DecidableEq

structure NodeState where
  node : Node
  count : Int
  deriving DecidableEq

structure Server where
  nodes : GoMap Addr NodeState

/-- The server, the node whose `Close` was called, and the error that is returned. -/
structure Deleted where
  server : Server
  closed : Option Node
  err : Option String

namespace Server

def wrap : Server := ⟨∅⟩

/-- `answer` is what the wrapped service returns, if it is asked. -/
def openNode (s : Server) (pk : PrivateKey P) (answer : Except String Node) :
    Go (Server × Node) := do
  let id ← newID pk.public
  match s.nodes.lookup id with
  | some ns => return (⟨s.nodes.insert id { ns with count := ns.count + 1 }⟩, ns.node)
  | none =>
      match answer with
      | .error err => fail err
      | .ok node => return (⟨s.nodes.insert id { node, count := 1 }⟩, node)

/-- `closeErr` is what the node's `Close` returns, if it is called. -/
def delete (s : Server) (id : Addr) (closeErr : Option String) : Deleted :=
  match s.nodes.lookup id with
  | some ns => { server := ⟨s.nodes.erase id⟩, closed := some ns.node, err := closeErr }
  | none => { server := ⟨s.nodes.erase id⟩, closed := none, err := none }

def drop (s : Server) (pk : PrivateKey P) (closeErr : Option String) : Go Deleted := do
  let id ← newID pk.public
  return s.delete id closeErr

def close (s : Server) (n : Node) (closeErr : Option String) : Deleted :=
  let id := n.localAddr
  match s.nodes.lookup id with
  | none => { server := s, closed := none, err := none }
  | some ns =>
      let ns := { ns with count := ns.count - 1 }
      let s : Server := ⟨s.nodes.insert id ns⟩
      if ns.count < 1 then s.delete id closeErr
      else { server := s, closed := none, err := none }

end Server

/-! ## Sequences of calls -/

structure Handle where
  node : Node
  isOpen : Bool
  deriving DecidableEq

/--
The server with a record of the calls so far: the handles in the order in which
they were issued, the nodes whose `Close` was called, and the nodes whose key was
dropped after they were opened.
-/
structure System where
  server : Server
  handles : List Handle
  closings : List Node
  dropped : List Node

inductive SystemEvent (P : Primitives) where
  | openNode (pk : PrivateKey P) (answer : Except String Node)
  | drop (pk : PrivateKey P) (closeErr : Option String)
  | close (handle : Nat) (closeErr : Option String)

namespace System

def new : System := ⟨Server.wrap, [], [], []⟩

def issued (s : System) : List Node := s.handles.map Handle.node

def unclosed (s : System) (x : Node) : Nat :=
  s.handles.countP fun h => h.isOpen && h.node == x

/-- Each step returns the error of the call. -/
def step (s : System) : SystemEvent P → Option (System × Option String)
  | .openNode pk answer =>
      match s.server.openNode pk answer with
      | .ok (server, node) =>
          some ({ s with server, handles := s.handles ++ [⟨node, true⟩] }, none)
      | .error (.error err) => some (s, some err)
      | .error (.panic _) => none
  | .drop pk closeErr => do
      let id ← (newID pk.public).toOption
      let r ← (s.server.drop pk closeErr).toOption
      some ({ s with
        server := r.server
        closings := s.closings ++ r.closed.toList
        dropped := s.dropped ++ s.issued.filter fun x => x.localAddr = id }, r.err)
  | .close handle closeErr => do
      let h ← s.handles[handle]?
      let r := s.server.close h.node closeErr
      some ({ s with
        server := r.server
        handles := s.handles.set handle { h with isOpen := false }
        closings := s.closings ++ r.closed.toList }, r.err)

/--
What callers and the wrapped service promise: a handle is closed at most once,
and `Open` returns a new node, under the address of its key.
-/
def proper (s : System) : SystemEvent P → Prop
  | .openNode pk (.ok node) => node ∉ s.issued ∧ newID pk.public = .ok node.localAddr
  | .close handle _ => (s.handles[handle]?.map Handle.isOpen) = some true
  | _ => True

/-- A handle that is closed has no other node under its address. -/
def closesCurrent (s : System) : SystemEvent P → Prop
  | .close handle _ => ∀ h ∈ s.handles[handle]?,
      ∀ ns ∈ s.server.nodes.lookup h.node.localAddr, ns.node = h.node
  | _ => True

def properAndCurrent (s : System) (event : SystemEvent P) : Prop :=
  s.proper event ∧ s.closesCurrent event

/-! ## The invariant -/

def Current (s : System) (x : Node) : Prop :=
  ∃ ns, s.server.nodes.lookup x.localAddr = some ns ∧ ns.node = x

structure Counted (s : System) : Prop where
  addressed : ∀ id ns, s.server.nodes.lookup id = some ns → ns.node.localAddr = id
  counts : ∀ id ns, s.server.nodes.lookup id = some ns →
    ns.count = s.unclosed ns.node ∧ 0 < s.unclosed ns.node
  open_of_current : ∀ x, s.Current x → x ∉ s.closings ∧ x ∉ s.dropped
  retired : ∀ x ∈ s.issued, ¬ s.Current x →
    x ∈ s.closings ∧ (x ∈ s.dropped ∨ s.unclosed x = 0)
  once : s.closings.Nodup
  issued_closings : ∀ x ∈ s.closings, x ∈ s.issued
  issued_dropped : ∀ x ∈ s.dropped, x ∈ s.issued

variable {s s' : System}

theorem counted_new : Counted new where
  addressed := by simp [new, Server.wrap]
  counts := by simp [new, Server.wrap]
  open_of_current := by simp [new]
  retired := by simp [new, issued]
  once := List.nodup_nil
  issued_closings := by simp [new]
  issued_dropped := by simp [new]

theorem unclosed_eq_zero {x : Node} :
    s.unclosed x = 0 ↔ ∀ h ∈ s.handles, h.node = x → h.isOpen = false := by
  unfold unclosed
  rw [List.countP_eq_zero]
  constructor
  · intro hall h hh hx
    have hnot := hall h hh
    simpa [hx] using hnot
  · intro hall h hh
    by_cases hx : h.node = x
    · simp [hall h hh hx]
    · simp [hx]

theorem unclosed_of_not_issued {x : Node} (h : x ∉ s.issued) : s.unclosed x = 0 := by
  rw [unclosed_eq_zero]
  rintro handle hhandle rfl
  exact absurd (List.mem_map_of_mem hhandle) h

theorem Counted.current (counted : s.Counted) {id : Addr} {ns : NodeState}
    (hns : s.server.nodes.lookup id = some ns) : s.Current ns.node :=
  ⟨ns, by rw [counted.addressed id ns hns, hns], rfl⟩

theorem Counted.issued_of_current (counted : s.Counted) {x : Node} (h : s.Current x) :
    x ∈ s.issued := by
  obtain ⟨ns, hns, rfl⟩ := h
  by_contra hnot
  have hpos := (counted.counts _ ns hns).2
  rw [unclosed_of_not_issued hnot] at hpos
  omega

/-- Entries under different addresses are for different nodes. -/
theorem Counted.node_ne (counted : s.Counted) {id id' : Addr} {ns ns' : NodeState}
    (h : s.server.nodes.lookup id = some ns) (h' : s.server.nodes.lookup id' = some ns')
    (hne : id' ≠ id) : ns'.node ≠ ns.node := by
  intro hsame
  have haddr := counted.addressed id ns h
  rw [← hsame, counted.addressed id' ns' h'] at haddr
  exact hne haddr

/-! ### The ways the table changes -/

theorem Counted.current_recount (counted : s.Counted) {id : Addr} {ns : NodeState} {count : Int}
    (hns : s.server.nodes.lookup id = some ns)
    (hserver : s'.server.nodes = s.server.nodes.insert id { ns with count }) (x : Node) :
    s'.Current x ↔ s.Current x := by
  constructor
  · rintro ⟨ns', h, rfl⟩
    rw [hserver] at h
    rcases GoMap.lookup_insert_cases h with ⟨-, rfl⟩ | ⟨-, h⟩
    · exact show s.Current ns.node from counted.current hns
    · exact ⟨ns', h, rfl⟩
  · rintro ⟨ns', h, rfl⟩
    by_cases hsame : ns'.node.localAddr = id
    · rw [hsame, hns] at h
      cases h
      refine ⟨{ ns with count }, ?_, rfl⟩
      rw [hserver, GoMap.lookup_insert_eq, if_pos hsame]
    · refine ⟨ns', ?_, rfl⟩
      rw [hserver, GoMap.lookup_insert_eq, if_neg hsame, h]

/-- The count of an open node changes with its handles. -/
theorem Counted.recount (counted : s.Counted) {id : Addr} {ns : NodeState}
    (hns : s.server.nodes.lookup id = some ns)
    (hserver : s'.server.nodes = s.server.nodes.insert id { ns with count := s'.unclosed ns.node })
    (hpos : 0 < s'.unclosed ns.node)
    (hothers : ∀ x, x ≠ ns.node → s'.unclosed x = s.unclosed x)
    (hissued : ∀ x, x ∈ s'.issued ↔ x ∈ s.issued)
    (hclosings : s'.closings = s.closings) (hdropped : s'.dropped = s.dropped) :
    s'.Counted := by
  have hcurrent := counted.current_recount hns hserver
  have hlookup : ∀ id' ns', s'.server.nodes.lookup id' = some ns' →
      (id' = id ∧ ns' = { ns with count := s'.unclosed ns.node }) ∨
        (id' ≠ id ∧ s.server.nodes.lookup id' = some ns') := by
    intro id' ns' h
    rw [hserver] at h
    exact GoMap.lookup_insert_cases h
  constructor
  · intro id' ns' h
    rcases hlookup id' ns' h with ⟨rfl, rfl⟩ | ⟨-, h⟩
    · exact counted.addressed id' ns hns
    · exact counted.addressed id' ns' h
  · intro id' ns' h
    rcases hlookup id' ns' h with ⟨rfl, rfl⟩ | ⟨hne, h⟩
    · exact ⟨rfl, hpos⟩
    · rw [hothers _ (counted.node_ne hns h hne)]
      exact counted.counts id' ns' h
  · intro x hx
    rw [hclosings, hdropped]
    exact counted.open_of_current x ((hcurrent x).mp hx)
  · intro x hx hnot
    rw [hcurrent] at hnot
    have hother : x ≠ ns.node := by
      rintro rfl
      exact hnot (counted.current hns)
    rw [hclosings, hdropped, hothers x hother]
    exact counted.retired x ((hissued x).mp hx) hnot
  · rw [hclosings]
    exact counted.once
  · intro x hx
    rw [hclosings] at hx
    exact (hissued x).mpr (counted.issued_closings x hx)
  · intro x hx
    rw [hdropped] at hx
    exact (hissued x).mpr (counted.issued_dropped x hx)

theorem current_retire {id : Addr} (hserver : ∀ id', s'.server.nodes.lookup id' =
      if id' = id then none else s.server.nodes.lookup id') (x : Node) :
    s'.Current x ↔ s.Current x ∧ x.localAddr ≠ id := by
  unfold Current
  rw [hserver]
  by_cases hsame : x.localAddr = id
  · simp [hsame]
  · simp [hsame]

/-- The entry of an open node is deleted, and the node closed. -/
theorem Counted.retire (counted : s.Counted) {id : Addr} {ns : NodeState}
    (hns : s.server.nodes.lookup id = some ns)
    (hserver : ∀ id', s'.server.nodes.lookup id' =
      if id' = id then none else s.server.nodes.lookup id')
    (hgone : ns.node ∈ s'.dropped ∨ s'.unclosed ns.node = 0)
    (hothers : ∀ x, x ≠ ns.node → s'.unclosed x = s.unclosed x)
    (hissued : ∀ x, x ∈ s'.issued ↔ x ∈ s.issued)
    (hclosings : s'.closings = s.closings ++ [ns.node])
    (hdropped : ∀ x, x ∈ s'.dropped → x ∈ s.dropped ∨ x ∈ s.issued ∧ x.localAddr = id)
    (hkept : ∀ x ∈ s.dropped, x ∈ s'.dropped) : s'.Counted := by
  have hcurrent := current_retire hserver
  have hlookup : ∀ id' ns', s'.server.nodes.lookup id' = some ns' →
      id' ≠ id ∧ s.server.nodes.lookup id' = some ns' := by
    intro id' ns' h
    rw [hserver] at h
    split at h
    · cases h
    · next hne => exact ⟨hne, h⟩
  constructor
  · intro id' ns' h
    exact counted.addressed id' ns' (hlookup id' ns' h).2
  · intro id' ns' h
    obtain ⟨hne, h⟩ := hlookup id' ns' h
    rw [hothers _ (counted.node_ne hns h hne)]
    exact counted.counts id' ns' h
  · intro x hx
    obtain ⟨hx, hne⟩ := (hcurrent x).mp hx
    obtain ⟨hclosed, hdrop⟩ := counted.open_of_current x hx
    have hother : x ≠ ns.node := by
      rintro rfl
      exact hne (counted.addressed id ns hns)
    constructor
    · rw [hclosings, List.mem_append, List.mem_singleton]
      exact not_or.mpr ⟨hclosed, hother⟩
    · intro hmem
      exact (hdropped x hmem).elim hdrop fun h => hne h.2
  · intro x hx hnot
    rw [hclosings, List.mem_append, List.mem_singleton]
    by_cases hsame : x = ns.node
    · subst hsame
      exact ⟨Or.inr rfl, hgone⟩
    · have hnot' : ¬ s.Current x := by
        intro hx'
        refine hnot ((hcurrent x).mpr ⟨hx', fun hid => hsame ?_⟩)
        obtain ⟨ns', h, rfl⟩ := hx'
        rw [hid, hns] at h
        cases h
        rfl
      obtain ⟨hclosed, hgone'⟩ := counted.retired x ((hissued x).mp hx) hnot'
      rw [hothers x hsame]
      exact ⟨Or.inl hclosed, hgone'.imp_left (hkept x)⟩
  · have hnew := (counted.open_of_current _ (counted.current hns)).1
    rw [hclosings, ← List.concat_eq_append]
    exact counted.once.concat hnew
  · intro x hx
    rw [hclosings, List.mem_append, List.mem_singleton] at hx
    rw [hissued]
    rcases hx with hx | rfl
    · exact counted.issued_closings x hx
    · exact counted.issued_of_current (counted.current hns)
  · intro x hx
    rw [hissued]
    exact (hdropped x hx).elim (counted.issued_dropped x) And.left

/-- Nothing happens to the table: the call is about nodes that are closed already. -/
theorem Counted.idle (counted : s.Counted) {id : Addr}
    (hnone : s.server.nodes.lookup id = none)
    (hserver : ∀ id', s'.server.nodes.lookup id' = s.server.nodes.lookup id')
    (hothers : ∀ x, x.localAddr ≠ id → s'.unclosed x = s.unclosed x)
    (hfewer : ∀ x, s'.unclosed x ≤ s.unclosed x)
    (hissued : ∀ x, x ∈ s'.issued ↔ x ∈ s.issued)
    (hclosings : s'.closings = s.closings)
    (hdropped : ∀ x, x ∈ s'.dropped → x ∈ s.dropped ∨ x ∈ s.issued ∧ x.localAddr = id)
    (hkept : ∀ x ∈ s.dropped, x ∈ s'.dropped) : s'.Counted := by
  have hcurrent : ∀ x, s'.Current x ↔ s.Current x := by
    intro x
    unfold Current
    rw [hserver]
  have haway : ∀ x, s.Current x → x.localAddr ≠ id := by
    rintro x ⟨ns, h, -⟩ rfl
    rw [hnone] at h
    cases h
  constructor
  · intro id' ns' h
    rw [hserver] at h
    exact counted.addressed id' ns' h
  · intro id' ns' h
    rw [hserver] at h
    rw [hothers _ (haway _ (counted.current h))]
    exact counted.counts id' ns' h
  · intro x hx
    rw [hcurrent] at hx
    obtain ⟨hclosed, hdrop⟩ := counted.open_of_current x hx
    rw [hclosings]
    exact ⟨hclosed, fun hmem => (hdropped x hmem).elim hdrop fun h => haway x hx h.2⟩
  · intro x hx hnot
    rw [hcurrent] at hnot
    obtain ⟨hclosed, hgone⟩ := counted.retired x ((hissued x).mp hx) hnot
    have hle := hfewer x
    rw [hclosings]
    refine ⟨hclosed, hgone.imp (hkept x) fun hzero => ?_⟩
    omega
  · rw [hclosings]
    exact counted.once
  · intro x hx
    rw [hclosings] at hx
    exact (hissued x).mpr (counted.issued_closings x hx)
  · intro x hx
    rw [hissued]
    exact (hdropped x hx).elim (counted.issued_dropped x) And.left

/-! ### Open -/

theorem unclosed_issue {server : Server} (x node : Node) :
    ({ s with server, handles := s.handles ++ [⟨node, true⟩] } : System).unclosed x =
      s.unclosed x + if node = x then 1 else 0 := by
  by_cases h : node = x
  · simp [unclosed, h]
  · simp [unclosed, h]

theorem mem_issued_issue {server : Server} {x node : Node} :
    x ∈ ({ s with server, handles := s.handles ++ [⟨node, true⟩] } : System).issued ↔
      x ∈ s.issued ∨ x = node := by
  simp [issued]

theorem Counted.openAgain (counted : s.Counted) {id : Addr} {ns : NodeState}
    (hns : s.server.nodes.lookup id = some ns) :
    Counted { s with
      server := ⟨s.server.nodes.insert id { ns with count := ns.count + 1 }⟩
      handles := s.handles ++ [⟨ns.node, true⟩] } := by
  obtain ⟨hcount, hpos⟩ := counted.counts id ns hns
  refine counted.recount hns ?_ ?_ ?_ ?_ rfl rfl
  · have hnew : ((s.unclosed ns.node + 1 : Nat) : Int) = ns.count + 1 := by omega
    rw [unclosed_issue, if_pos rfl, hnew]
  · rw [unclosed_issue]
    omega
  · intro x hx
    rw [unclosed_issue, if_neg hx.symm, Nat.add_zero]
  · intro x
    rw [mem_issued_issue]
    constructor
    · rintro (hx | rfl)
      · exact hx
      · exact counted.issued_of_current (counted.current hns)
    · exact Or.inl

theorem Counted.openNew (counted : s.Counted) {node : Node}
    (hnone : s.server.nodes.lookup node.localAddr = none) (hnew : node ∉ s.issued) :
    Counted { s with
      server := ⟨s.server.nodes.insert node.localAddr { node, count := 1 }⟩
      handles := s.handles ++ [⟨node, true⟩] } := by
  constructor
  · intro id' ns' h
    rcases GoMap.lookup_insert_cases h with ⟨rfl, rfl⟩ | ⟨-, h⟩
    · rfl
    · exact counted.addressed id' ns' h
  · intro id' ns' h
    rw [unclosed_issue]
    rcases GoMap.lookup_insert_cases h with ⟨rfl, rfl⟩ | ⟨-, h⟩
    · rw [unclosed_of_not_issued hnew, if_pos rfl]
      exact ⟨rfl, Nat.one_pos⟩
    · have hother : node ≠ ns'.node := by
        intro hsame
        rw [hsame] at hnew
        exact hnew (counted.issued_of_current (counted.current h))
      rw [if_neg hother]
      exact counted.counts id' ns' h
  · rintro x ⟨ns', h, rfl⟩
    rcases GoMap.lookup_insert_cases h with ⟨-, rfl⟩ | ⟨-, h⟩
    · exact ⟨fun h => hnew (counted.issued_closings _ h),
        fun h => hnew (counted.issued_dropped _ h)⟩
    · exact counted.open_of_current _ ⟨ns', h, rfl⟩
  · intro x hx hnot
    have hother : x ≠ node := by
      rintro rfl
      refine hnot ⟨{ node := x, count := 1 }, ?_, rfl⟩
      rw [GoMap.lookup_insert_eq, if_pos rfl]
    have hnot' : ¬ s.Current x := by
      rintro ⟨ns', h, hx'⟩
      have haddr : x.localAddr ≠ node.localAddr := by
        intro hsame
        rw [hsame, hnone] at h
        cases h
      exact hnot ⟨ns', by rw [GoMap.lookup_insert_eq, if_neg haddr, h], hx'⟩
    rw [unclosed_issue, if_neg hother.symm, Nat.add_zero]
    exact counted.retired x ((mem_issued_issue.mp hx).resolve_right hother) hnot'
  · exact counted.once
  · intro x hx
    exact mem_issued_issue.mpr (Or.inl (counted.issued_closings x hx))
  · intro x hx
    exact mem_issued_issue.mpr (Or.inl (counted.issued_dropped x hx))

/-! ### Drop and Close -/

theorem lookup_delete (server : Server) (id : Addr) (closeErr : Option String) (id' : Addr) :
    (server.delete id closeErr).server.nodes.lookup id' =
      if id' = id then none else server.nodes.lookup id' := by
  unfold Server.delete
  split <;> exact GoMap.lookup_erase_eq _ _ _

theorem closed_delete (server : Server) (id : Addr) (closeErr : Option String) :
    (server.delete id closeErr).closed = (server.nodes.lookup id).map NodeState.node := by
  unfold Server.delete
  split
  · next ns hns => rw [hns]; rfl
  · next hnone => rw [hnone]; rfl

theorem delete_idle {server : Server} {id : Addr} (hnone : server.nodes.lookup id = none)
    (closeErr : Option String) : server.delete id closeErr = ⟨server, none, none⟩ := by
  simp [Server.delete, hnone, GoMap.erase_of_lookup]

theorem close_idle {server : Server} {n : Node} (hnone : server.nodes.lookup n.localAddr = none)
    (closeErr : Option String) : server.close n closeErr = ⟨server, none, none⟩ := by
  simp only [Server.close, hnone]

theorem Counted.drop (counted : s.Counted) (id : Addr) (closeErr : Option String) :
    Counted { s with
      server := (s.server.delete id closeErr).server
      closings := s.closings ++ (s.server.delete id closeErr).closed.toList
      dropped := s.dropped ++ s.issued.filter fun x => x.localAddr = id } := by
  have hdropped : ∀ x, x ∈ s.dropped ++ s.issued.filter (fun x => x.localAddr = id) →
      x ∈ s.dropped ∨ x ∈ s.issued ∧ x.localAddr = id := by
    intro x hx
    simpa using hx
  cases hlookup : s.server.nodes.lookup id with
  | none =>
      rw [delete_idle hlookup]
      exact counted.idle hlookup (fun _ => rfl) (fun _ _ => rfl) (fun _ => le_rfl)
        (fun _ => Iff.rfl) (List.append_nil _) hdropped (fun x hx => List.mem_append_left _ hx)
  | some ns =>
      refine counted.retire hlookup (lookup_delete _ _ _) (Or.inl ?_) (fun _ _ => rfl)
        (fun _ => Iff.rfl) ?_ hdropped (fun x hx => List.mem_append_left _ hx)
      · have hissued := counted.issued_of_current (counted.current hlookup)
        have haddr := counted.addressed id ns hlookup
        exact List.mem_append_right _ (by simp [hissued, haddr])
      · rw [closed_delete, hlookup]
        rfl

theorem issued_set {handle : Nat} {h : Handle} (hh : s.handles[handle]? = some h) :
    (s.handles.set handle { h with isOpen := false }).map Handle.node = s.issued := by
  obtain ⟨hlt, rfl⟩ := List.getElem?_eq_some_iff.mp hh
  have hmap : handle < (s.handles.map Handle.node).length := by
    rwa [List.length_map]
  have hself := List.set_getElem_self hmap
  rw [List.getElem_map] at hself
  rw [List.map_set]
  exact hself

theorem countP_set_closed {handle : Nat} {h : Handle} (hh : s.handles[handle]? = some h)
    (hopen : h.isOpen = true) (x : Node) :
    (s.handles.set handle { h with isOpen := false }).countP
        (fun h => h.isOpen && h.node == x) =
      s.unclosed x - if h.node = x then 1 else 0 := by
  obtain ⟨hlt, rfl⟩ := List.getElem?_eq_some_iff.mp hh
  rw [List.countP_set hlt]
  simp [unclosed, hopen]

theorem close_cases {server : Server} {n : Node} {ns : NodeState} (closeErr : Option String)
    (hns : server.nodes.lookup n.localAddr = some ns) :
    (ns.count - 1 < 1 ∧ (server.close n closeErr).closed = some ns.node ∧
      ∀ id, (server.close n closeErr).server.nodes.lookup id =
        if id = n.localAddr then none else server.nodes.lookup id) ∨
    (¬ ns.count - 1 < 1 ∧ (server.close n closeErr).closed = none ∧
      (server.close n closeErr).server.nodes =
        server.nodes.insert n.localAddr { ns with count := ns.count - 1 }) := by
  simp only [Server.close, hns]
  by_cases hlast : ns.count - 1 < 1
  · rw [if_pos hlast]
    refine Or.inl ⟨hlast, ?_, fun id => ?_⟩
    · rw [closed_delete, Finmap.lookup_insert]
      rfl
    · rw [lookup_delete]
      split
      · rfl
      · next hne => exact Finmap.lookup_insert_of_ne _ hne
  · rw [if_neg hlast]
    exact Or.inr ⟨hlast, rfl, rfl⟩

theorem Counted.close (counted : s.Counted) {handle : Nat} {h : Handle}
    (hh : s.handles[handle]? = some h) (hopen : h.isOpen = true)
    (hcurrent : ∀ ns, s.server.nodes.lookup h.node.localAddr = some ns → ns.node = h.node)
    (closeErr : Option String) :
    Counted { s with
      server := (s.server.close h.node closeErr).server
      handles := s.handles.set handle { h with isOpen := false }
      closings := s.closings ++ (s.server.close h.node closeErr).closed.toList } := by
  have hcount := countP_set_closed hh hopen
  have hissued := issued_set hh
  have hothers : ∀ x, x ≠ h.node → (s.handles.set handle { h with isOpen := false }).countP
      (fun h => h.isOpen && h.node == x) = s.unclosed x := by
    intro x hx
    rw [hcount, if_neg hx.symm, Nat.sub_zero]
  cases hlookup : s.server.nodes.lookup h.node.localAddr with
  | none =>
      rw [close_idle hlookup]
      refine counted.idle hlookup (fun _ => rfl) ?_ ?_ ?_ (List.append_nil _)
        (fun _ => Or.inl) (fun _ => id)
      · intro x hx
        refine hothers x ?_
        rintro rfl
        exact hx rfl
      · intro x
        change List.countP _ _ ≤ _
        rw [hcount]
        exact Nat.sub_le _ _
      · intro x
        rw [← hissued]
        rfl
  | some ns =>
      have hnode := hcurrent ns hlookup
      obtain ⟨hunclosed, hpos⟩ := counted.counts _ ns hlookup
      have hself : (s.handles.set handle { h with isOpen := false }).countP
          (fun h => h.isOpen && h.node == ns.node) = s.unclosed ns.node - 1 := by
        rw [hcount, hnode, if_pos rfl]
      rcases close_cases closeErr hlookup with ⟨hlast, hclosed, hserver⟩ | ⟨hmore, hclosed, hserver⟩
      · refine counted.retire hlookup hserver (Or.inr ?_) ?_ ?_ ?_ (fun _ => Or.inl) (fun _ => id)
        · refine hself.trans ?_
          omega
        · rw [hnode]
          exact hothers
        · intro x
          rw [← hissued]
          rfl
        · rw [hclosed]
          rfl
      · refine counted.recount hlookup ?_ ?_ ?_ ?_ ?_ rfl
        · have hnew : ((s.unclosed ns.node - 1 : Nat) : Int) = ns.count - 1 := by omega
          rw [hserver, ← hnew, ← hself]
          rfl
        · change 0 < List.countP _ _
          rw [hself]
          omega
        · rw [hnode]
          exact hothers
        · intro x
          rw [← hissued]
          rfl
        · rw [hclosed]
          exact List.append_nil _

/-! ## Runs -/

theorem Counted.step (counted : s.Counted) {event : SystemEvent P} {err : Option String}
    (hallowed : s.properAndCurrent event) (h : s.step event = some (s', err)) :
    s'.Counted := by
  obtain ⟨hproper, hcurrent⟩ := hallowed
  cases event with
  | openNode pk answer =>
      rw [System.step] at h
      split at h
      · next server node hopen =>
          cases h
          obtain ⟨id, hid, hopen⟩ := Go.bind_eq_ok.mp hopen
          split at hopen
          · next ns hns =>
              cases hopen
              exact counted.openAgain hns
          · next hnone =>
              cases answer with
              | error text => cases hopen
              | ok fresh =>
                  cases hopen
                  obtain ⟨hnew, haddr⟩ := hproper
                  rw [hid] at haddr
                  cases haddr
                  exact counted.openNew hnone hnew
      · cases h
        exact counted
      · cases h
  | drop pk closeErr =>
      simp only [System.step, Option.bind_eq_bind, Option.bind_eq_some_iff, toOption_eq_some,
        Option.some.injEq, Prod.mk.injEq] at h
      obtain ⟨id, hid, r, hr, rfl, -⟩ := h
      obtain ⟨id', hid', hr⟩ := Go.bind_eq_ok.mp hr
      rw [hid] at hid'
      cases hid'
      cases hr
      exact counted.drop id closeErr
  | close handle closeErr =>
      simp only [System.step, Option.bind_eq_bind, Option.bind_eq_some_iff,
        Option.some.injEq, Prod.mk.injEq] at h
      obtain ⟨hd, hh, rfl, -⟩ := h
      have hopen : hd.isOpen = true := by
        simpa [proper, hh] using hproper
      exact counted.close hh hopen (hcurrent hd hh) closeErr

/--
A node is closed exactly when its key was dropped or all its handles are closed,
it is closed once, and closing a handle to it touches no other node.
-/
structure RefCounted (P : Primitives) (s : System) : Prop where
  closed_iff : ∀ x ∈ s.issued, x ∈ s.closings ↔
    x ∈ s.dropped ∨ ∀ h ∈ s.handles, h.node = x → h.isOpen = false
  once : s.closings.Nodup
  own : ∀ handle h closeErr s' err, s.handles[handle]? = some h →
    s.properAndCurrent (.close handle closeErr : SystemEvent P) →
    s.step (.close handle closeErr : SystemEvent P) = some (s', err) →
    (∀ x, x ≠ h.node → (x ∈ s'.closings ↔ x ∈ s.closings)) ∧
    ∀ id ns, ns.node ≠ h.node →
      (s'.server.nodes.lookup id = some ns ↔ s.server.nodes.lookup id = some ns)

theorem Counted.closed_iff (counted : s.Counted) {x : Node} (hx : x ∈ s.issued) :
    x ∈ s.closings ↔ x ∈ s.dropped ∨ ∀ h ∈ s.handles, h.node = x → h.isOpen = false := by
  rw [← unclosed_eq_zero]
  by_cases hcurrent : s.Current x
  · obtain ⟨hclosed, hdropped⟩ := counted.open_of_current x hcurrent
    obtain ⟨ns, hns, rfl⟩ := hcurrent
    have hpos := (counted.counts _ ns hns).2
    simp only [hclosed, hdropped, false_or, false_iff]
    omega
  · obtain ⟨hclosed, hgone⟩ := counted.retired x hx hcurrent
    exact ⟨fun _ => hgone, fun _ => hclosed⟩

theorem close_own {server : Server} {n : Node} (closeErr : Option String)
    (hcurrent : ∀ ns, server.nodes.lookup n.localAddr = some ns → ns.node = n) :
    (∀ x ∈ (server.close n closeErr).closed, x = n) ∧
    ∀ id ns, ns.node ≠ n →
      ((server.close n closeErr).server.nodes.lookup id = some ns ↔
        server.nodes.lookup id = some ns) := by
  cases hlookup : server.nodes.lookup n.localAddr with
  | none =>
      rw [close_idle hlookup]
      exact ⟨by simp, fun _ _ _ => Iff.rfl⟩
  | some ns =>
      have hnode := hcurrent ns hlookup
      rcases close_cases closeErr hlookup with ⟨-, hclosed, hserver⟩ | ⟨-, hclosed, hserver⟩
      · refine ⟨?_, fun id ns' hne => ?_⟩
        · rw [hclosed]
          simp [hnode]
        · rw [hserver]
          split
          · next hsame =>
              rw [hsame, hlookup]
              constructor
              · intro h
                cases h
              · intro h
                cases h
                exact absurd hnode hne
          · rfl
      · refine ⟨?_, fun id ns' hne => ?_⟩
        · rw [hclosed]
          simp
        · rw [hserver, GoMap.lookup_insert_eq]
          split
          · next hsame =>
              rw [hsame, hlookup]
              constructor
              · intro h
                cases h
                exact absurd hnode hne
              · intro h
                cases h
                exact absurd hnode hne
          · rfl

/-- In every run in which no handle is closed that outlived its node's entry. -/
theorem nodes_ref_counted {trace : List (SystemEvent P × Option String)}
    (run : Runs System.step properAndCurrent new trace s) : s.RefCounted P := by
  have counted : s.Counted := run.invariant counted_new
    fun _ _ _ _ counted hallowed hstep => counted.step hallowed hstep
  refine ⟨fun x hx => counted.closed_iff hx, counted.once, ?_⟩
  intro handle h closeErr s' err hh hallowed hstep
  simp only [System.step, Option.bind_eq_bind, Option.bind_eq_some_iff,
    Option.some.injEq, Prod.mk.injEq] at hstep
  obtain ⟨hd, hhd, rfl, -⟩ := hstep
  rw [hh] at hhd
  cases hhd
  obtain ⟨hclosed, hserver⟩ := close_own closeErr (hallowed.2 h hh)
  refine ⟨fun x hx => ?_, hserver⟩
  rw [List.mem_append]
  refine ⟨fun hmem => hmem.resolve_right fun hmem => hx ?_, Or.inl⟩
  exact hclosed x (Option.mem_toList.mp hmem)

/-! ### A handle that outlives its node -/

instance (s : System) (event : SystemEvent P) : Decidable (s.proper event) := by
  unfold proper
  split <;> infer_instance

instance (s : System) (event : SystemEvent P) : Decidable (s.closesCurrent event) := by
  unfold closesCurrent
  split <;> infer_instance

instance (s : System) (event : SystemEvent P) : Decidable (s.properAndCurrent event) :=
  inferInstanceAs (Decidable (_ ∧ _))

def sampleKey : PrivateKey samplePrimitives := .base (sampleSigner 7)

def sampleNode (serial : Nat) : Node where
  serial
  localAddr := (newID sampleKey.public).toOption.getD (copyTo 32 [])

def sampleShared : List (SystemEvent samplePrimitives) :=
  [.openNode sampleKey (.ok (sampleNode 0)), .openNode sampleKey (.error "in use"),
    .close 0 none]

theorem nodes_ref_counted_while_shared :
    ∃ trace s, trace.map Prod.fst = sampleShared ∧
      Runs System.step properAndCurrent new trace s ∧ s.RefCounted samplePrimitives := by
  have hsome : (replay System.step properAndCurrent new sampleShared).isSome = true := by
    decide +kernel
  obtain ⟨trace, s, hevents, run⟩ := exists_run_of_isSome hsome
  exact ⟨trace, s, hevents, run, nodes_ref_counted run⟩

def sampleStale : List (SystemEvent samplePrimitives) :=
  [.openNode sampleKey (.ok (sampleNode 0)), .drop sampleKey none,
    .openNode sampleKey (.ok (sampleNode 1)), .close 0 none]

/-- The second node is closed although its handle is open and its key was not dropped again. -/
theorem stale_handle_closes_new_node :
    ∃ trace s, trace.map Prod.fst = sampleStale ∧ Runs System.step proper new trace s ∧
      sampleNode 1 ∈ s.closings ∧ sampleNode 1 ∉ s.dropped ∧
      ⟨sampleNode 1, true⟩ ∈ s.handles ∧ ¬ s.RefCounted samplePrimitives := by
  have hreplay : (replay System.step proper new sampleStale).map (fun result =>
      decide (sampleNode 1 ∈ result.1.closings ∧ sampleNode 1 ∉ result.1.dropped ∧
        ⟨sampleNode 1, true⟩ ∈ result.1.handles)) = some true := by
    decide +kernel
  obtain ⟨trace, s, hevents, run, hseen⟩ := exists_run_of_map hreplay
  obtain ⟨hclosed, hdropped, hopen⟩ := of_decide_eq_true hseen
  refine ⟨trace, s, hevents, run, hclosed, hdropped, hopen, fun counted => ?_⟩
  have hissued : sampleNode 1 ∈ s.issued := List.mem_map_of_mem hopen
  rcases (counted.closed_iff _ hissued).mp hclosed with hmem | hall
  · exact hdropped hmem
  · have hfalse := hall _ hopen rfl
    cases hfalse

end System

end Inet256.Rcsrv
