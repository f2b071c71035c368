import Inet256.Ipc.DataPath
import Inet256.Service.Messages

/-!
# Programs that use the service over connections

Programs hold clients of nodes that another process serves: a connection joins
a client to a node of the in-memory service.  Several connections may share a
node; each of them takes messages from the node's queue.  The machine is built
of the service and one link for each connection, and its results follow from
those of its parts.
-/

namespace Inet256.Remote

open Inet256.Foundation
open Inet256.Crypto
open Inet256.Ipc
open Inet256.Mem

variable {P : Primitives} {Q : MessageQueue Mem.Message Mem.Message.size} {κ : Type}

/-- The service, the connections, and what their receive loops have taken from the nodes. -/
structure State (P : Primitives) (Q : MessageQueue Mem.Message Mem.Message.size) (κ : Type) where
  world : World P Q
  link : κ → Link
  pulled : κ → Option Mem.Message

inductive Event (P : Primitives) (κ : Type) where
  | service (event : WorldEvent P)
  | link (c : κ) (event : LinkEvent)
  | serverReceive (c : κ)
  | nodeReceive (c : κ)
  | forward (c : κ) (buf : List.Vector UInt8 maxFrameLen)

/-- What a step is for the service, and for a connection. -/
structure Observed (P : Primitives) (κ : Type) where
  world : Option (WorldEvent P × Mem.Seen P)
  link : Option (κ × LinkEvent × LinkSeen)

abbrev Trace (P : Primitives) (κ : Type) := List (Event P κ × Observed P κ)

section Machine

variable [DecidableEq κ]

def new (queueLen : Nat) : State P Q κ where
  world := World.new queueLen
  link := fun _ => Link.new
  pulled := fun _ => none

def State.setLink (s : State P Q κ) (c : κ) (l : Link) : State P Q κ :=
  { s with link := Function.update s.link c l }

def State.setPulled (s : State P Q κ) (c : κ) (m : Option Mem.Message) : State P Q κ :=
  { s with pulled := Function.update s.pulled c m }

variable (home : κ → Nat)

/-- `home` has the node that each connection serves. -/
def step (s : State P Q κ) : Event P κ → Option (State P Q κ × Observed P κ)
  | .service event => do
      let (world, seen) ← s.world.step event
      some ({ s with world }, ⟨some (event, seen), none⟩)
  | .link c event => do
      let (l, seen) ← (s.link c).step event
      some (s.setLink c l, ⟨none, some (c, event, seen)⟩)
  | .serverReceive c => do
      let (l, seen) ← (s.link c).step .serverReceive
      match seen with
      | .nodeSend msg => do
          -- the read loop calls the node itself
          let event := .send (home c) msg.addr msg.payload
          let (world, sent) ← s.world.step event
          some ({ s.setLink c l with world },
            ⟨some (event, sent), some (c, .serverReceive, .nodeSend msg)⟩)
      | seen => some (s.setLink c l, ⟨none, some (c, .serverReceive, seen)⟩)
  | .nodeReceive c =>
      if (s.pulled c).isSome then none
      else do
        let (world, seen) ← s.world.step (.receive (home c))
        match seen with
        | .received m => some ({ s.setPulled c (some m) with world },
            ⟨some (.receive (home c), .received m), none⟩)
        | _ => none
  | .forward c buf => do
      let m ← s.pulled c
      let event := .nodeReceive buf m.src m.payload
      let (l, seen) ← (s.link c).step event
      -- the function that the node was given returns
      let (world, returned) ← s.world.step (.finish (home c))
      some ({ (s.setLink c l).setPulled c none with world },
        ⟨some (.finish (home c), returned), some (c, event, seen)⟩)

/-- Calls that move messages, which only the servers of the nodes make. -/
def direct : WorldEvent P → Bool
  | .send _ _ _ => true
  | .receive _ => true
  | .finish _ => true
  | _ => false

/-- Events of a connection in which its server calls the node. -/
def served : LinkEvent → Bool
  | .serverReceive => true
  | .nodeReceive _ _ _ => true
  | _ => false

/-- Nodes are used over their connections only, which carry nothing else that looks like data. -/
def proper (s : State P Q κ) : Event P κ → Prop
  | .service event => direct event = false
  | .link c event => served event = false ∧ (s.link c).othersTellNothing event
  | _ => True

omit [DecidableEq κ] in
instance (s : State P Q κ) (event : Event P κ) : Decidable (proper s event) :=
  match event with
  | .service _ => inferInstanceAs (Decidable (_ = _))
  | .link c event =>
      inferInstanceAs (Decidable (served event = false ∧ (s.link c).othersTellNothing event))
  | .serverReceive _ => isTrue trivial
  | .nodeReceive _ => isTrue trivial
  | .forward _ _ => isTrue trivial

/-- Everything a step can do. -/
inductive Moves (s : State P Q κ) : Event P κ → State P Q κ → Observed P κ → Prop
  | service {event : WorldEvent P} {world : World P Q} {seen : Mem.Seen P}
      (h : s.world.step event = some (world, seen)) :
      Moves s (.service event) { s with world } ⟨some (event, seen), none⟩
  | link {c : κ} {event : LinkEvent} {l : Link} {seen : LinkSeen}
      (h : (s.link c).step event = some (l, seen)) :
      Moves s (.link c event) (s.setLink c l) ⟨none, some (c, event, seen)⟩
  | other {c : κ} {l : Link} {seen : LinkSeen}
      (h : (s.link c).step .serverReceive = some (l, seen))
      (hother : ∀ msg, seen ≠ .nodeSend msg) :
      Moves s (.serverReceive c) (s.setLink c l) ⟨none, some (c, .serverReceive, seen)⟩
  | send {c : κ} {l : Link} {msg : DataMsg} {world : World P Q} {sent : Mem.Seen P}
      (h : (s.link c).step .serverReceive = some (l, .nodeSend msg))
      (hsend : s.world.step (.send (home c) msg.addr msg.payload) = some (world, sent)) :
      Moves s (.serverReceive c) { s.setLink c l with world }
        ⟨some (.send (home c) msg.addr msg.payload, sent),
          some (c, .serverReceive, .nodeSend msg)⟩
  | nodeReceive {c : κ} {m : Mem.Message} {world : World P Q} (hfree : s.pulled c = none)
      (h : s.world.step (.receive (home c)) = some (world, .received m)) :
      Moves s (.nodeReceive c) { s.setPulled c (some m) with world }
        ⟨some (.receive (home c), .received m), none⟩
  | forward {c : κ} {buf : List.Vector UInt8 maxFrameLen} {m : Mem.Message} {l : Link}
      {seen : LinkSeen} {world : World P Q} {returned : Mem.Seen P}
      (hpulled : s.pulled c = some m)
      (h : (s.link c).step (.nodeReceive buf m.src m.payload) = some (l, seen))
      (hfinish : s.world.step (.finish (home c)) = some (world, returned)) :
      Moves s (.forward c buf) { (s.setLink c l).setPulled c none with world }
        ⟨some (.finish (home c), returned), some (c, .nodeReceive buf m.src m.payload, seen)⟩

variable {home} {s s' : State P Q κ} {event : Event P κ} {seen : Observed P κ}

theorem step_link {c : κ} {event : LinkEvent} {l : Link} {seen : LinkSeen}
    (h : (s.link c).step event = some (l, seen)) :
    step home s (.link c event) = some (s.setLink c l, ⟨none, some (c, event, seen)⟩) := by
  rw [step, h]
  rfl

theorem step_forward {c : κ} {buf : List.Vector UInt8 maxFrameLen} {m : Mem.Message} {l : Link}
    {seen : LinkSeen} {world : World P Q} {returned : Mem.Seen P} (hpulled : s.pulled c = some m)
    (h : (s.link c).step (.nodeReceive buf m.src m.payload) = some (l, seen))
    (hfinish : s.world.step (.finish (home c)) = some (world, returned)) :
    step home s (.forward c buf) = some ({ (s.setLink c l).setPulled c none with world },
      ⟨some (.finish (home c), returned), some (c, .nodeReceive buf m.src m.payload, seen)⟩) := by
  simp only [step, hpulled, h, hfinish, Option.bind_eq_bind, Option.bind_some]

/-- A run of one connection, the calls of its node apart, is a run of everything. -/
theorem runs_link {c : κ} {l : Link} {entries : LinkTrace}
    (run : Runs Link.step (fun l event => served event = false ∧ l.othersTellNothing event)
      (s.link c) entries l) :
    Runs (step home) proper s (entries.map fun entry => (.link c entry.1, ⟨none, some (c, entry)⟩))
      (s.setLink c l) := by
  induction run with
  | refl =>
      rw [State.setLink, Function.update_eq_self]
      exact .refl
  | @next entries l l' event seen _ hallowed hstep ih =>
      have hlink : (s.setLink c l).link c = l := by simp [State.setLink]
      have hset : (s.setLink c l).setLink c l' = s.setLink c l' := by simp [State.setLink]
      rw [List.map_append, ← hset]
      refine ih.next ⟨hallowed.1, ?_⟩ (step_link ?_)
      · rw [hlink]
        exact hallowed.2
      · rw [hlink]
        exact hstep

theorem moves_of_step (h : step home s event = some (s', seen)) : Moves home s event s' seen := by
  cases event with
  | service event =>
      obtain ⟨⟨world, sent⟩, hstep, h⟩ := Option.bind_eq_some_iff.mp h
      cases h
      exact .service hstep
  | link c event =>
      obtain ⟨⟨l, out⟩, hstep, h⟩ := Option.bind_eq_some_iff.mp h
      cases h
      exact .link hstep
  | serverReceive c =>
      obtain ⟨⟨l, out⟩, hstep, h⟩ := Option.bind_eq_some_iff.mp h
      cases out with
      | nodeSend msg =>
          obtain ⟨⟨world, sent⟩, hsend, h⟩ := Option.bind_eq_some_iff.mp h
          cases h
          exact .send hstep hsend
      | nothing =>
          cases h
          exact .other hstep (by simp)
      | delivered msg =>
          cases h
          exact .other hstep (by simp)
  | nodeReceive c =>
      rw [step] at h
      split at h
      · cases h
      · next hfree =>
          obtain ⟨⟨world, out⟩, hstep, h⟩ := Option.bind_eq_some_iff.mp h
          cases out with
          | received m =>
              cases h
              exact .nodeReceive (by simpa using hfree) hstep
          | returned => cases h
          | sent => cases h
          | publicKey => cases h
  | forward c buf =>
      obtain ⟨m, hpulled, h⟩ := Option.bind_eq_some_iff.mp h
      obtain ⟨⟨l, out⟩, hstep, h⟩ := Option.bind_eq_some_iff.mp h
      obtain ⟨⟨world, returned⟩, hfinish, h⟩ := Option.bind_eq_some_iff.mp h
      cases h
      exact .forward hpulled hstep hfinish

/-! ## The parts -/

def worldTrace (trace : Trace P κ) : List (WorldEvent P × Mem.Seen P) :=
  trace.filterMap fun entry => entry.2.world

def linkEntry (c : κ) (entry : Event P κ × Observed P κ) : Option (LinkEvent × LinkSeen) :=
  entry.2.link.bind fun l => if l.1 = c then some l.2 else none

def linkTrace (c : κ) (trace : Trace P κ) : LinkTrace := trace.filterMap (linkEntry c)

theorem linkEntry_self (c : κ) (event : Event P κ) (world : Option (WorldEvent P × Mem.Seen P))
    (entry : LinkEvent × LinkSeen) :
    linkEntry c (event, ⟨world, some (c, entry)⟩) = some entry := if_pos rfl

theorem linkTrace_map_link (c : κ) (entries : LinkTrace) :
    linkTrace c (entries.map fun entry =>
      ((.link c entry.1 : Event P κ), (⟨none, some (c, entry)⟩ : Observed P κ))) = entries := by
  rw [linkTrace, List.filterMap_map]
  refine (List.filterMap_congr fun entry _ => ?_).trans List.filterMap_some
  exact linkEntry_self c _ none entry

theorem linkEntry_of_ne {c d : κ} (hne : d ≠ c) (event : Event P κ)
    (world : Option (WorldEvent P × Mem.Seen P)) (entry : LinkEvent × LinkSeen) :
    linkEntry c (event, ⟨world, some (d, entry)⟩) = none := if_neg hne

variable {queueLen : Nat} {trace : Trace P κ}

/-- The server reads messages within the limit only. -/
theorem payload_le_of_serverReceive {l l' : Link} {msg : DataMsg}
    (h : l.step .serverReceive = some (l', .nodeSend msg)) : msg.payload.length ≤ mtu := by
  obtain ⟨⟨up, m⟩, hreceive, h⟩ := Option.bind_eq_some_iff.mp h
  obtain ⟨⟨x, rest⟩, hx, heq⟩ := Option.map_eq_some_iff.mp hreceive
  cases heq
  have hlength := length_le_of_send (frame_of_receive (toOption_eq_some.mp hx)).1
  cases htold : told x with
  | none => simp [htold] at h
  | some data =>
      have hmsg : data = msg := by simpa [htold] using congrArg Prod.snd (Option.some.inj h)
      rw [← hmsg]
      exact payload_le_of_told htold hlength

theorem withinMTU_of_direct {w : World P Q} {event : WorldEvent P} (h : direct event = false) :
    w.withinMTU event := by
  cases event with
  | send => cases h
  | openNode => trivial
  | drop => trivial
  | close => trivial
  | receive => trivial
  | finish => trivial
  | lookupPublicKey => trivial

theorem world_of_run (run : Runs (step home) proper (new queueLen) trace s) :
    Runs World.step World.withinMTU (World.new queueLen) (worldTrace trace) s.world := by
  refine run.part State.world (fun entry => entry.2.world) ?_
  intro s event s' seen hproper hstep
  cases moves_of_step hstep with
  | service h => exact Or.inr ⟨_, _, rfl, withinMTU_of_direct hproper, h⟩
  | link => exact Or.inl ⟨rfl, rfl⟩
  | other => exact Or.inl ⟨rfl, rfl⟩
  | send h hsend => exact Or.inr ⟨_, _, rfl, payload_le_of_serverReceive h, hsend⟩
  | nodeReceive _ h => exact Or.inr ⟨_, _, rfl, trivial, h⟩
  | forward _ _ h => exact Or.inr ⟨_, _, rfl, trivial, h⟩

theorem setLink_self (s : State P Q κ) (c : κ) (l : Link) : (s.setLink c l).link c = l := by
  simp [State.setLink]

theorem setLink_of_ne (s : State P Q κ) {c d : κ} (hne : d ≠ c) (l : Link) :
    (s.setLink d l).link c = s.link c := by
  simp [State.setLink, Function.update_of_ne (Ne.symm hne)]

/-- A step of one connection is a step of that link and of no other. -/
theorem link_step {c d : κ} (entry : LinkEvent × LinkSeen) {l : Link}
    (world : Option (WorldEvent P × Mem.Seen P))
    (hallowed : (s.link d).othersTellNothing entry.1)
    (hstep : (s.link d).step entry.1 = some (l, entry.2)) :
    (linkEntry c (event, ⟨world, some (d, entry)⟩) = none ∧ (s.setLink d l).link c = s.link c) ∨
    ∃ event' seen', linkEntry c (event, ⟨world, some (d, entry)⟩) = some (event', seen') ∧
      (s.link c).othersTellNothing event' ∧
      (s.link c).step event' = some ((s.setLink d l).link c, seen') := by
  by_cases hsame : d = c
  · subst hsame
    refine Or.inr ⟨entry.1, entry.2, linkEntry_self d event world entry, hallowed, ?_⟩
    rw [setLink_self]
    exact hstep
  · exact Or.inl ⟨linkEntry_of_ne hsame event world entry, setLink_of_ne s hsame l⟩

theorem link_of_run (run : Runs (step home) proper (new queueLen) trace s) (c : κ) :
    Runs Link.step Link.othersTellNothing Link.new (linkTrace c trace) (s.link c) := by
  refine run.part (fun s => s.link c) (linkEntry c) ?_
  intro s event s' seen hproper hstep
  cases moves_of_step hstep with
  | service => exact Or.inl ⟨rfl, rfl⟩
  | @link d event l out h => exact link_step (event, out) none hproper.2 h
  | @other d l out h _ => exact link_step (.serverReceive, out) none trivial h
  | @send d l msg world sent h _ =>
      exact link_step (.serverReceive, .nodeSend msg) _ trivial h
  | nodeReceive => exact Or.inl ⟨rfl, rfl⟩
  | @forward d buf m l out world returned _ h _ =>
      exact link_step (.nodeReceive buf m.src m.payload, out) _ trivial h

end Machine

/-! ## What goes through the service -/

section Service

def sentAny : WorldEvent P × Mem.Seen P → List Mem.Message
  | (_, .sent m _) => [m]
  | _ => []

def acceptedAny : WorldEvent P × Mem.Seen P → List Mem.Message
  | (_, .sent m (some (_, true))) => [m]
  | _ => []

def receivedAny : WorldEvent P × Mem.Seen P → List Mem.Message
  | (.receive _, .received m) => [m]
  | _ => []

def acceptedAt : WorldEvent P × Mem.Seen P → Nat
  | (_, .sent _ (some (n, _))) => n
  | _ => 0

def receivedAt : WorldEvent P × Mem.Seen P → Nat
  | (.receive handle, _) => handle
  | _ => 0

variable {queueLen : Nat} {w : World P Q} {history : List (WorldEvent P × Mem.Seen P)}

theorem coe_acceptedAny {queues : Finset Nat} {entry : WorldEvent P × Mem.Seen P}
    (hmem : acceptedAt entry ∈ queues) :
    (acceptedAny entry : Multiset Mem.Message) =
      ∑ n ∈ queues, (World.acceptedBy n entry : Multiset Mem.Message) := by
  obtain ⟨event, seen⟩ := entry
  cases seen with
  | sent m delivered =>
      rcases delivered with - | ⟨n, accepted⟩
      · simp [acceptedAny, World.acceptedBy]
      · cases accepted with
        | false => simp [acceptedAny, World.acceptedBy]
        | true => exact (sum_coe_ite hmem [m]).symm
  | returned => simp [acceptedAny, World.acceptedBy]
  | received => simp [acceptedAny, World.acceptedBy]
  | publicKey => simp [acceptedAny, World.acceptedBy]

theorem coe_receivedAny {queues : Finset Nat} {entry : WorldEvent P × Mem.Seen P}
    (hmem : receivedAt entry ∈ queues) :
    (receivedAny entry : Multiset Mem.Message) =
      ∑ n ∈ queues, (World.receivedBy n entry : Multiset Mem.Message) := by
  obtain ⟨event, seen⟩ := entry
  cases event with
  | receive handle =>
      cases seen with
      | received m => exact (sum_coe_ite hmem [m]).symm
      | sent => simp [receivedAny, World.receivedBy]
      | returned => simp [receivedAny, World.receivedBy]
      | publicKey => simp [receivedAny, World.receivedBy]
  | openNode => simp [receivedAny, World.receivedBy]
  | drop => simp [receivedAny, World.receivedBy]
  | close => simp [receivedAny, World.receivedBy]
  | send => simp [receivedAny, World.receivedBy]
  | finish => simp [receivedAny, World.receivedBy]
  | lookupPublicKey => simp [receivedAny, World.receivedBy]

/-- All queues together: what was received was accepted. -/
theorem received_le_accepted
    (run : Runs World.step World.withinMTU (World.new queueLen) history w) :
    (history.flatMap receivedAny : Multiset Mem.Message) ≤ history.flatMap acceptedAny ∧
    ((∀ n, w.Open n) → (∀ n, (Q.view (w.incoming n)).items = []) →
      (history.flatMap receivedAny : Multiset Mem.Message) = history.flatMap acceptedAny) := by
  let queues := (history.map acceptedAt).toFinset ∪ (history.map receivedAt).toFinset
  have haccepted := coe_flatMap_eq_sum queues fun entry (hentry : entry ∈ history) =>
    coe_acceptedAny (Finset.mem_union_left _
      (List.mem_toFinset.mpr (List.mem_map_of_mem hentry)))
  have hreceived := coe_flatMap_eq_sum queues fun entry (hentry : entry ∈ history) =>
    coe_receivedAny (Finset.mem_union_right _
      (List.mem_toFinset.mpr (List.mem_map_of_mem hentry)))
  rw [haccepted, hreceived]
  constructor
  · refine Finset.sum_le_sum fun n _ => ?_
    exact ((List.sublist_append_left _ _).trans (World.sublist_of_run run n)).subperm
  · intro hopen hempty
    refine Finset.sum_congr rfl fun n _ => ?_
    have valid := World.valid_of_run (World.valid_new queueLen) run
    rw [← World.fifo_of_run run (valid.closed_eq_false (hopen n)), hempty n, List.append_nil]

/-- No message was dropped, for want of a node or of room. -/
def NoneDropped (history : List (WorldEvent P × Mem.Seen P)) : Prop :=
  ∀ entry ∈ history, acceptedAny entry = sentAny entry

theorem accepted_le_sent (history : List (WorldEvent P × Mem.Seen P)) :
    (history.flatMap acceptedAny : Multiset Mem.Message) ≤ history.flatMap sentAny := by
  refine (List.Sublist.flatMap_right _ ?_).subperm
  rintro ⟨event, seen⟩ -
  unfold acceptedAny
  split
  · next heq =>
      cases heq
      exact List.Sublist.refl _
  · exact List.nil_sublist _

theorem accepted_eq_sent (hnone : NoneDropped history) :
    history.flatMap acceptedAny = history.flatMap sentAny :=
  List.flatMap_congr hnone

end Service

/-! ## What goes through the connections -/

section Connections

variable [DecidableEq κ] [Fintype κ] {home : κ → Nat} {addr : κ → Addr}
  {s s' : State P Q κ} {event : Event P κ} {seen : Observed P κ} {trace : Trace P κ}
  {queueLen : Nat}

/-- What a client sends goes out under the address of its node. -/
def fromClient (addr : Addr) (msg : DataMsg) : Mem.Message := ⟨addr, msg.addr, msg.payload⟩

def toClient (addr : Addr) (msg : DataMsg) : Mem.Message := ⟨msg.addr, addr, msg.payload⟩

/-- The messages of all connections. -/
def total (messages : LinkTrace → List DataMsg) (tag : Addr → DataMsg → Mem.Message)
    (addr : κ → Addr) (trace : Trace P κ) : Multiset Mem.Message :=
  ∑ c, Multiset.ofList ((messages (linkTrace c trace)).map (tag (addr c)))

theorem total_concat {messages : LinkTrace → List DataMsg} (hnil : messages [] = [])
    (happend : ∀ first second, messages (first ++ second) = messages first ++ messages second)
    (tag : Addr → DataMsg → Mem.Message) (addr : κ → Addr) (trace : Trace P κ)
    (entry : Event P κ × Observed P κ) :
    total messages tag addr (trace ++ [entry]) = total messages tag addr trace +
      entry.2.link.elim 0 fun l => Multiset.ofList ((messages [l.2]).map (tag (addr l.1))) := by
  have hone : ∀ c, (messages (linkTrace c (trace ++ [entry]))).map (tag (addr c)) =
      (messages (linkTrace c trace)).map (tag (addr c)) ++
        (messages (linkEntry c entry).toList).map (tag (addr c)) := by
    intro c
    rw [← List.map_append, ← happend]
    cases hentry : linkEntry c entry with
    | none => simp [linkTrace, hentry]
    | some item => simp [linkTrace, hentry]
  simp only [total, hone, ← Multiset.coe_add]
  rw [Finset.sum_add_distrib]
  refine congrArg (_ + ·) ?_
  obtain ⟨event, world, link⟩ := entry
  rcases link with - | ⟨d, item⟩
  · refine Finset.sum_eq_zero fun c _ => ?_
    change Multiset.ofList ((messages []).map (tag (addr c))) = 0
    rw [hnil]
    rfl
  · rw [Finset.sum_eq_single_of_mem d (Finset.mem_univ d)]
    · rw [linkEntry_self]
      rfl
    · intro c _ hne
      rw [linkEntry_of_ne (Ne.symm hne), Option.toList_none, hnil]
      rfl

theorem total_mono {messages messages' : LinkTrace → List DataMsg}
    (h : ∀ c, Multiset.ofList (messages (linkTrace c trace)) ≤
      Multiset.ofList (messages' (linkTrace c trace)))
    (tag : Addr → DataMsg → Mem.Message) (addr : κ → Addr) :
    total messages tag addr trace ≤ total messages' tag addr trace := by
  refine Finset.sum_le_sum fun c _ => ?_
  simp only [← Multiset.map_coe]
  exact Multiset.map_le_map (h c)

theorem total_congr {messages messages' : LinkTrace → List DataMsg}
    (h : ∀ c, Multiset.ofList (messages (linkTrace c trace)) =
      Multiset.ofList (messages' (linkTrace c trace)))
    (tag : Addr → DataMsg → Mem.Message) (addr : κ → Addr) :
    total messages tag addr trace = total messages' tag addr trace := by
  refine Finset.sum_congr rfl fun c _ => ?_
  simp only [← Multiset.map_coe]
  rw [h c]

/-! ### Addresses -/

/-- `addr` has the address of the node of each connection. -/
def Named (home : κ → Nat) (addr : κ → Addr) (w : World P Q) : Prop :=
  ∀ c node, w.opened[home c]? = some node → node.localAddr = addr c

omit [Fintype κ] in
theorem opened_step (h : Moves home s event s' seen) {n : Nat} {node : Mem.Node P}
    (hn : s.world.opened[n]? = some node) : s'.world.opened[n]? = some node := by
  cases h with
  | service h => exact World.opened_moves (World.moves_of_step h) hn
  | link => exact hn
  | other => exact hn
  | send _ h => exact World.opened_moves (World.moves_of_step h) hn
  | nodeReceive _ h => exact World.opened_moves (World.moves_of_step h) hn
  | forward _ _ h => exact World.opened_moves (World.moves_of_step h) hn

omit [Fintype κ] in
theorem Named.before (named : Named home addr s'.world) (h : Moves home s event s' seen) :
    Named home addr s.world :=
  fun c node hnode => named c node (opened_step h hnode)

omit [Fintype κ] in
/-- What was taken from a node was for the address of the node. -/
theorem pulled_addressed (run : Runs (step home) proper (new queueLen) trace s) {c : κ}
    {m : Mem.Message} (hm : s.pulled c = some m) :
    ∃ node, s.world.opened[home c]? = some node ∧ node.localAddr = m.dst := by
  revert c m
  refine run.history (motive := fun _ s => ∀ {c m}, s.pulled c = some m →
    ∃ node, s.world.opened[home c]? = some node ∧ node.localAddr = m.dst) (by simp [new]) ?_
  intro trace s event s' seen hrun hold _ hstep c m hm
  have hmoves := moves_of_step hstep
  suffices hbefore : ∃ node, s.world.opened[home c]? = some node ∧ node.localAddr = m.dst by
    obtain ⟨node, hnode, hhome⟩ := hbefore
    exact ⟨node, opened_step hmoves hnode, hhome⟩
  cases hmoves with
  | service => exact hold hm
  | link => exact hold hm
  | other => exact hold hm
  | send => exact hold hm
  | @nodeReceive d first world hfree h =>
      by_cases hsame : c = d
      · subst hsame
        have hfirst : first = m := by simpa [State.setPulled] using hm
        subst hfirst
        obtain ⟨⟨other, queue⟩, hreceive, h⟩ := Option.bind_eq_some_iff.mp h
        cases h
        obtain ⟨rest, hitems, -⟩ := Q.view_receive _ _ _ hreceive
        have hworld := world_of_run hrun
        refine World.addressed_of_run hworld ((World.sublist_of_run hworld (home c)).subset ?_)
        rw [hitems]
        simp
      · have hkeep : s.pulled c = some m := by simpa [State.setPulled, hsame] using hm
        exact hold hkeep
  | @forward d buf first l out world returned hpulled h _ =>
      by_cases hsame : c = d
      · subst hsame
        simp [State.setPulled] at hm
      · have hkeep : s.pulled c = some m := by
          simpa [State.setPulled, State.setLink, hsame] using hm
        exact hold hkeep

/-! ### From the clients to the service -/

/-- Only the server's read loop calls the node. -/
theorem nodeSends_of_ne {l l' : Link} {event : LinkEvent} {seen : LinkSeen}
    (h : l.step event = some (l', seen)) (hne : event ≠ .serverReceive) :
    nodeSends [(event, seen)] = [] := by
  have hquiet : ∀ msg, seen ≠ .nodeSend msg := by
    rintro msg rfl
    cases event with
    | serverReceive => exact hne rfl
    | clientHandle m =>
        rw [Link.step] at h
        split at h
        · cases htold : told m <;> simp [htold] at h
        · cases h
    | clientSend =>
        obtain ⟨_, -, h⟩ := Option.bind_eq_some_iff.mp h
        cases h
    | clientOther =>
        obtain ⟨_, -, h⟩ := Option.bind_eq_some_iff.mp h
        cases h
    | up =>
        obtain ⟨_, -, h⟩ := Option.bind_eq_some_iff.mp h
        cases h
    | nodeReceive =>
        obtain ⟨_, -, h⟩ := Option.bind_eq_some_iff.mp h
        cases h
    | serverOther =>
        obtain ⟨_, -, h⟩ := Option.bind_eq_some_iff.mp h
        cases h
    | down =>
        obtain ⟨_, -, h⟩ := Option.bind_eq_some_iff.mp h
        cases h
    | clientReceive =>
        obtain ⟨_, -, h⟩ := Option.bind_eq_some_iff.mp h
        cases h
  cases seen with
  | nodeSend msg => exact absurd rfl (hquiet msg)
  | nothing => rfl
  | delivered => rfl

/-- Messages are sent only in calls that the servers of the nodes make. -/
theorem sentAny_of_direct {w w' : World P Q} {event : WorldEvent P} {seen : Mem.Seen P}
    (h : w.step event = some (w', seen)) (hdirect : direct event = false) :
    sentAny (event, seen) = [] := by
  cases World.moves_of_step h with
  | unreachable => cases hdirect
  | deliver => cases hdirect
  | receive => cases hdirect
  | finish => cases hdirect
  | openNode => rfl
  | refused => rfl
  | drop => rfl
  | close => rfl
  | found => rfl
  | unknown => rfl

/-- What the service is asked to send is what the connections ask for. -/
theorem sends_of_run (run : Runs (step home) proper (new queueLen) trace s)
    (named : Named home addr s.world) :
    ((worldTrace trace).flatMap sentAny : Multiset Mem.Message) =
      total nodeSends fromClient addr trace := by
  revert named
  refine run.history (motive := fun trace s => Named home addr s.world →
    ((worldTrace trace).flatMap sentAny : Multiset Mem.Message) =
      total nodeSends fromClient addr trace) ?_ ?_
  · intro _
    exact (Finset.sum_eq_zero fun _ _ => rfl).symm
  · intro trace s event s' seen hrun hold hproper hstep named
    have hmoves := moves_of_step hstep
    have hnamed := named.before hmoves
    rw [total_concat rfl nodeSends_append, ← hold hnamed, worldTrace, List.filterMap_append,
      List.flatMap_append, ← Multiset.coe_add]
    refine congrArg (_ + ·) ?_
    cases hmoves with
    | service h => simp [sentAny_of_direct h hproper]
    | @link c event l out h =>
        have hne : event ≠ .serverReceive := by
          rintro rfl
          simp [proper, served] at hproper
        simp [nodeSends_of_ne h hne]
    | @other c l out h hother =>
        cases out with
        | nodeSend msg => exact absurd rfl (hother msg)
        | nothing => rfl
        | delivered => rfl
    | @send c l msg world sent h hsend =>
        have hsame : ∀ node : Mem.Node P, s.world.opened[home c]? = some node →
            (⟨node.localAddr, msg.addr, msg.payload⟩ : Mem.Message) = fromClient (addr c) msg := by
          intro node hnode
          rw [fromClient, hnamed c node hnode]
        cases World.moves_of_step hsend with
        | unreachable hnode =>
            rw [hsame _ hnode]
            rfl
        | deliver hnode _ =>
            rw [hsame _ hnode]
            rfl
    | nodeReceive => rfl
    | forward _ h hfinish =>
        cases World.moves_of_step hfinish
        simp [sentAny, nodeSends_of_ne h (by simp)]

/-! ### From the service to the clients -/

/-- What the receive loops have taken from the nodes and not passed on. -/
def pending (s : State P Q κ) : Multiset Mem.Message :=
  ∑ c, Multiset.ofList (s.pulled c).toList

theorem pending_setPulled (s : State P Q κ) (c : κ) (m : Option Mem.Message) :
    pending (s.setPulled c m) + Multiset.ofList (s.pulled c).toList =
      pending s + Multiset.ofList m.toList :=
  sum_update_add (fun (_ : κ) (pulled : Option Mem.Message) => Multiset.ofList pulled.toList)
    s.pulled c m

theorem receivedAny_of_direct {event : WorldEvent P} (h : direct event = false)
    (seen : Mem.Seen P) : receivedAny (event, seen) = [] := by
  cases event with
  | receive => cases h
  | finish => cases h
  | send => rfl
  | openNode => rfl
  | drop => rfl
  | close => rfl
  | lookupPublicKey => rfl

theorem nodeReceives_of_not_served {event : LinkEvent} (h : served event = false)
    (seen : LinkSeen) : nodeReceives [(event, seen)] = [] := by
  cases event with
  | nodeReceive => cases h
  | serverReceive => rfl
  | clientSend => rfl
  | clientOther => rfl
  | up => rfl
  | serverOther => rfl
  | down => rfl
  | clientReceive => rfl
  | clientHandle => rfl

/-- What the nodes received is passed on, or about to be. -/
theorem receives_of_run (run : Runs (step home) proper (new queueLen) trace s)
    (named : Named home addr s.world) :
    ((worldTrace trace).flatMap receivedAny : Multiset Mem.Message) =
      total nodeReceives toClient addr trace + pending s := by
  revert named
  refine run.history (motive := fun trace s => Named home addr s.world →
    ((worldTrace trace).flatMap receivedAny : Multiset Mem.Message) =
      total nodeReceives toClient addr trace + pending s) ?_ ?_
  · intro _
    have htotal : total nodeReceives toClient addr ([] : Trace P κ) = 0 :=
      Finset.sum_eq_zero fun _ _ => rfl
    have hpending : pending (new queueLen : State P Q κ) = 0 := Finset.sum_eq_zero fun _ _ => rfl
    rw [htotal, hpending]
    rfl
  · intro trace s event s' seen hrun hold hproper hstep named
    have hmoves := moves_of_step hstep
    have hnamed := named.before hmoves
    rw [total_concat rfl nodeReceives_append, worldTrace, List.filterMap_append,
      List.flatMap_append, ← Multiset.coe_add]
    change ((worldTrace trace).flatMap receivedAny : Multiset Mem.Message) + _ = _
    rw [hold hnamed]
    cases hmoves with
    | @service event world out h =>
        simp [receivedAny_of_direct hproper out, pending]
    | @link c event l out h =>
        simp [nodeReceives_of_not_served hproper.1 out, pending, State.setLink]
    | other => simp [nodeReceives, pending, State.setLink]
    | send => simp [nodeReceives, receivedAny, pending, State.setLink]
    | @nodeReceive c m world hfree h =>
        have hset := pending_setPulled s c (some m)
        rw [hfree, Option.toList_none, Multiset.coe_nil, add_zero] at hset
        change total nodeReceives toClient addr trace + pending s + Multiset.ofList [m] =
          total nodeReceives toClient addr trace + 0 + pending (s.setPulled c (some m))
        rw [hset, add_zero, add_assoc]
        rfl
    | @forward c buf m l out world returned hpulled h hfinish =>
        have hset := pending_setPulled (s.setLink c l) c none
        obtain ⟨node, hnode, hdst⟩ := pulled_addressed hrun hpulled
        have hm : toClient (addr c) ⟨m.src, m.payload⟩ = m := by
          rw [toClient, ← hnamed c node hnode, hdst]
        change pending _ + Multiset.ofList (s.pulled c).toList = pending s + 0 at hset
        rw [hpulled, add_zero] at hset
        cases World.moves_of_step hfinish
        change total nodeReceives toClient addr trace + pending s + 0 =
          total nodeReceives toClient addr trace +
            Multiset.ofList [toClient (addr c) ⟨m.src, m.payload⟩] +
            pending ((s.setLink c l).setPulled c none)
        rw [hm, ← hset, add_zero, Option.toList_some, add_comm (pending _), ← add_assoc]

/-! ### Buffers -/

/-- How many connections hold a message of the node. -/
def holding (home : κ → Nat) (s : State P Q κ) (n : Nat) : Nat :=
  ∑ c, if home c = n then (s.pulled c).toList.length else 0

theorem holding_setPulled (home : κ → Nat) (s : State P Q κ) (c : κ) (m : Option Mem.Message)
    (n : Nat) :
    holding home (s.setPulled c m) n + (if home c = n then (s.pulled c).toList.length else 0) =
      holding home s n + if home c = n then m.toList.length else 0 :=
  sum_update_add (fun d (pulled : Option Mem.Message) =>
    if home d = n then pulled.toList.length else 0) s.pulled c m

theorem quiet_of_direct {event : WorldEvent P} (h : direct event = false) (n : Nat)
    (seen : Mem.Seen P) :
    World.receivedBy n (event, seen) = [] ∧ World.finishes n (event, seen) = false := by
  cases event with
  | receive => cases h
  | finish => cases h
  | send => exact ⟨rfl, rfl⟩
  | openNode => exact ⟨rfl, rfl⟩
  | drop => exact ⟨rfl, rfl⟩
  | close => exact ⟨rfl, rfl⟩
  | lookupPublicKey => exact ⟨rfl, rfl⟩

/-- The buffers of a node in use are those whose messages its connections hold. -/
theorem handling_of_run (run : Runs (step home) proper (new queueLen) trace s) (n : Nat) :
    (Q.view (s.world.incoming n)).handling = holding home s n := by
  refine run.history (motive := fun _ s =>
    (Q.view (s.world.incoming n)).handling = holding home s n) ?_ ?_
  · simp [new, World.new, Q.view_new, QueueView.empty, holding]
  · intro trace s event s' seen hrun hold hproper hstep
    have hworld := world_of_run hrun
    cases moves_of_step hstep with
    | @service event world out h =>
        have hone := (World.flows_of_step hworld (withinMTU_of_direct hproper) h n).handling
        obtain ⟨hnone, hquiet⟩ := quiet_of_direct hproper n out
        rw [hnone, hquiet] at hone
        simpa [hold, holding] using hone
    | link => exact hold
    | other => exact hold
    | @send c l msg world sent h hsend =>
        have hsize : s.world.withinMTU (.send (home c) msg.addr msg.payload) :=
          payload_le_of_serverReceive h
        have hone := (World.flows_of_step hworld hsize hsend n).handling
        simpa [World.receivedBy, World.finishes, hold, holding, State.setLink] using hone
    | @nodeReceive c m world hfree h =>
        have hsize : s.world.withinMTU (.receive (home c)) := trivial
        have hone := (World.flows_of_step hworld hsize h n).handling
        have hset := holding_setPulled home s c (some m) n
        change (Q.view (world.incoming n)).handling = holding home (s.setPulled c (some m)) n
        rw [hfree] at hset
        have htaken : (World.receivedBy n (.receive (home c), (.received m : Mem.Seen P))).length =
            if home c = n then 1 else 0 := by
          rw [World.receivedBy]
          split <;> rfl
        simp only [htaken, World.finishes, Bool.toNat_false, Option.toList_none, List.length_nil,
          Option.toList_some, List.length_singleton, ite_self] at hone hset
        omega
    | @forward c buf m l out world returned hpulled h hfinish =>
        have hsize : s.world.withinMTU (.finish (home c)) := trivial
        have hone := (World.flows_of_step hworld hsize hfinish n).handling
        have hset := holding_setPulled home (s.setLink c l) c none n
        change (Q.view (world.incoming n)).handling =
          holding home ((s.setLink c l).setPulled c none) n
        change _ + (if home c = n then (s.pulled c).toList.length else 0) = holding home s n + _
          at hset
        have hfinished : (World.finishes n (.finish (home c), returned)).toNat =
            if home c = n then 1 else 0 := by
          rw [World.finishes]
          by_cases hhome : home c = n <;> simp [hhome]
        simp only [hfinished, hpulled, World.receivedBy, Option.toList_none, List.length_nil,
          Option.toList_some, List.length_singleton, ite_self] at hone hset
        omega

/-- The node takes the buffer back of a message that has been passed on. -/
theorem finish_of_pulled (run : Runs (step home) proper (new queueLen) trace s) {c : κ}
    (h : (s.pulled c).isSome) : (s.world.step (.finish (home c))).isSome := by
  have hpos : 0 < (Q.view (s.world.incoming (home c))).handling := by
    rw [handling_of_run run]
    refine Nat.lt_of_lt_of_le Nat.zero_lt_one ?_
    refine le_trans ?_ (Finset.single_le_sum (fun _ _ => Nat.zero_le _) (Finset.mem_univ c))
    obtain ⟨m, hm⟩ := Option.isSome_iff_exists.mp h
    simp [hm]
  rw [World.step, if_pos hpos]
  rfl

/-! ### From program to program -/

/-- Nothing is on its way in either direction. -/
def Idle (l : Link) : Prop :=
  (l.up.Flushed ∧ l.up.chunks.flatten = []) ∧
    (l.down.Flushed ∧ l.down.chunks.flatten = []) ∧ l.held = 0

structure Drained (s : State P Q κ) : Prop where
  links : ∀ c, Idle (s.link c)
  pulled : ∀ c, s.pulled c = none
  queues : ∀ n, (Q.view (s.world.incoming n)).items = []

structure Connected (home : κ → Nat) (addr : κ → Addr) (trace : Trace P κ) (s : State P Q κ) :
    Prop where
  /-- What the programs get, other programs have sent, each message as often. -/
  once : total hubGets toClient addr trace ≤ total clientSends fromClient addr trace
  complete : Drained s → NoneDropped (worldTrace trace) → (∀ n, s.world.Open n) →
    total hubGets toClient addr trace = total clientSends fromClient addr trace
  /-- A connection that holds a message of its node can give the buffer back. -/
  returned : ∀ c, (s.pulled c).isSome → (s.world.step (.finish (home c))).isSome

/--
Whatever the programs do, however their connections break up and mix their
messages and whichever of them share a node: a program gets a message only if
one was sent to the address of its node, by a program on a connection to the node
whose address it carries, and not more often than it was sent.  If no queue was
full, no address unknown and no node closed, then all messages have arrived once
nothing is on its way.
-/
theorem programs_connected (run : Runs (step home) proper (new queueLen) trace s)
    (named : Named home addr s.world) : Connected home addr trace s := by
  have hpath : ∀ c, DataPath (linkTrace c trace) (s.link c) :=
    fun c => (carried_of_run (link_of_run run c)).dataPath
  have hworld := world_of_run run
  have hsends := sends_of_run run named
  have hreceives := receives_of_run run named
  refine ⟨?_, ?_, fun c => finish_of_pulled run⟩
  · calc total hubGets toClient addr trace
        ≤ total nodeReceives toClient addr trace :=
          total_mono (fun c => (hpath c).down_once) _ _
      _ ≤ (worldTrace trace).flatMap receivedAny := by
          rw [hreceives]
          exact Multiset.le_add_right _ _
      _ ≤ (worldTrace trace).flatMap acceptedAny := (received_le_accepted hworld).1
      _ ≤ (worldTrace trace).flatMap sentAny := accepted_le_sent _
      _ = total nodeSends fromClient addr trace := hsends
      _ ≤ total clientSends fromClient addr trace :=
          total_mono (fun c => (hpath c).up_in_order.sublist.subperm) _ _
  · intro drained hnone hopen
    have hpending : pending s = 0 := by
      refine Finset.sum_eq_zero fun c _ => ?_
      rw [drained.pulled c]
      rfl
    calc total hubGets toClient addr trace
        = total nodeReceives toClient addr trace := by
          refine total_congr (fun c => ?_) _ _
          obtain ⟨-, ⟨flushed, hread⟩, hheld⟩ := drained.links c
          exact (hpath c).down_complete flushed hread hheld
      _ = (worldTrace trace).flatMap receivedAny := by rw [hreceives, hpending, add_zero]
      _ = (worldTrace trace).flatMap acceptedAny :=
          (received_le_accepted hworld).2 hopen drained.queues
      _ = (worldTrace trace).flatMap sentAny := congrArg _ (accepted_eq_sent hnone)
      _ = total nodeSends fromClient addr trace := hsends
      _ = total clientSends fromClient addr trace := by
          refine total_congr (fun c => ?_) _ _
          obtain ⟨⟨flushed, hread⟩, -⟩ := drained.links c
          rw [(hpath c).up_complete flushed hread]

end Connections

/-- One client's message is taken from the other's node. -/
def sampleProgram : List (Event samplePrimitives Bool) :=
  [.service (.openNode (.base (sampleSigner 7))), .service (.openNode (.base (sampleSigner 8))),
    .link false (.up (.write 41)), .link false (.up .unlock), .link false (.up (.arrive 41)),
    .serverReceive false, .nodeReceive true]

/-- It goes on to the other client. -/
def sampleReturn : List LinkEvent :=
  [.down (.write 41), .down .unlock, .down (.arrive 41), .clientReceive,
    .clientHandle (Content.data (World.sampleAddr 7) [7]).bytes]

/-- The programs, on queues that keep their contents when they are closed. -/
abbrev SampleState := State samplePrimitives (MessageQueue.bounded Mem.Message.size) Bool

theorem programs_connected_sample :
    ∃ (trace : Trace samplePrimitives Bool) (s : SampleState),
      trace.map Prod.fst = .link false (.clientSend (World.sampleAddr 8) [7]) :: sampleProgram ++
        .forward true sampleBuf :: sampleReturn.map (.link true) ∧
      Runs (step Bool.toNat) proper (new 4) trace s ∧
      hubGets (linkTrace true trace) = [⟨World.sampleAddr 7, [7]⟩] ∧
      Connected Bool.toNat (fun c => World.sampleAddr (if c then 8 else 7)) trace s := by
  have hreplay : (replay (step Bool.toNat) proper ((new 4 : SampleState).setLink false
      ⟨.posting (.data (World.sampleAddr 8) [7]), Pipe.new, 0⟩) sampleProgram).map (fun result =>
        (result.1.pulled true, result.1.link true, hubGets (linkTrace true result.2),
          result.1.world.opened.map Mem.Node.localAddr)) =
      some (some ⟨World.sampleAddr 7, World.sampleAddr 8, [7]⟩, Link.new, [],
        [World.sampleAddr 7, World.sampleAddr 8]) := by
    decide +kernel
  obtain ⟨trace, s, hevents, run, hall⟩ := exists_run_of_map hreplay
  simp only [Prod.mk.injEq] at hall
  obtain ⟨hpulled, hlink, hquiet, hopened⟩ := hall
  have hsend := clientSend_of_fits (c := Link.new) rfl (World.sampleAddr 8)
    (show [7].length ≤ mtu by decide)
  have first : Runs (step Bool.toNat) proper (new 4 : SampleState) _ _ :=
    Runs.single (by exact ⟨rfl, trivial⟩) (step_link (c := false) hsend)
  have taken := first.trans run
  -- the server passes the message on and gives its buffer back
  obtain ⟨⟨world, returned⟩, hfinish⟩ := Option.isSome_iff_exists.mp
    (finish_of_pulled taken (c := true) (by rw [hpulled]; rfl))
  have hreceive := nodeReceive_of_fits (c := s.link true) (by rw [hlink]; rfl) sampleBuf
    (World.sampleAddr 7) (show [7].length ≤ mtu by decide)
  have hforward : step Bool.toNat s (.forward true sampleBuf) = _ :=
    step_forward hpulled hreceive hfinish
  have hproper : proper s (.forward true sampleBuf) := trivial
  have passed := taken.next hproper hforward
  have hback : (replay Link.step
      (fun l event => served event = false ∧ l.othersTellNothing event)
      ⟨Pipe.new, .posting (.data (World.sampleAddr 7) [7]), 0⟩ sampleReturn).map
      (fun result => hubGets result.2) = some [⟨World.sampleAddr 7, [7]⟩] := by
    decide +kernel
  obtain ⟨entries, l, hreturn, back, hgets⟩ := exists_run_of_map hback
  have whole := passed.trans (runs_link (c := true) (by
    simpa [State.setPulled, State.setLink, hlink, Link.new] using back))
  have hworld : world.opened = s.world.opened := by
    cases World.moves_of_step hfinish
    rfl
  have named : Named Bool.toNat (fun c => World.sampleAddr (if c then 8 else 7)) world := by
    intro c node hnode
    rw [hworld] at hnode
    have haddr := congrArg (fun l => l[c.toNat]?) hopened
    simp only [List.getElem?_map, hnode, Option.map_some] at haddr
    cases c with
    | false => exact Option.some.inj haddr
    | true => exact Option.some.inj haddr
  refine ⟨_, _, ?_, whole, ?_, programs_connected whole named⟩
  · simp [hevents, ← hreturn]
  · simp only [linkTrace, List.filterMap_append, hubGets_append]
    change [] ++ hubGets (linkTrace true trace) ++ [] ++
      hubGets (linkTrace true (entries.map _)) = _
    rw [hquiet, linkTrace_map_link, hgets]
    rfl

end Inet256.Remote
