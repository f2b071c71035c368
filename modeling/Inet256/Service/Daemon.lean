import Inet256.Discovery.LanPeers
import Inet256.Service.Nodes

/-!
# The peers of the daemon

The main node of a daemon reads its peers through a chain of stores: the nodes
that clients have open, the configured peers, and for every discovery service a
copy of the configured peers with the addresses that the service has found.
Clients open and close nodes and the services find addresses in any order.
-/

namespace Inet256.Inet256d

open Inet256.Foundation
open Inet256.Crypto
open Inet256.Discovery
open Inet256.Mesh256 (TransportAddr nameMemSwarm)

variable {P : Primitives}

/-! ## Discovery services -/

inductive ServiceKind where
  | localNetwork
  | central
  deriving DecidableEq

/-- A service with its own store; `round` is what a polling round has yet to look up. -/
structure Finder where
  kind : ServiceKind
  peers : Peers.Store TransportAddr
  round : List Addr

inductive FinderEvent where
  /-- A round begins with the peers in the order in which they are listed. -/
  | poll (order : List Addr)
  | lookup (result : Except String (List String))
  /-- The service takes a message from the bus. -/
  | message (ps : List Addr) (memory : Nat → Bytes) (msg : Lan.Message)

def copyPeers (dst : Peers.Store TransportAddr) (order : List Addr) :
    Peers.Store TransportAddr :=
  order.foldl Peers.Store.add dst

/-- What a message from the bus lets the service store. -/
def announced (codecs : Lan.Codecs) (params : Lan.Params TransportAddr) (ps : List Addr)
    (memory : Nat → Bytes) (msg : Lan.Message) : Option (Addr × List TransportAddr) :=
  match msg.openWith codecs memory [params.localID] with
  | .error (.error _) =>
      match Lan.readAdvertisement codecs params memory ps msg with
      | .ok (id, addrs, _) => some (id, addrs)
      | .error _ => none
  | _ => none

/-- The observation is the peer whose addresses are set.  A panic ends the process. -/
def Finder.step (codecs : Lan.Codecs) (params : Lan.Params TransportAddr) (f : Finder) :
    FinderEvent → Option (Finder × Option (Addr × List TransportAddr))
  | .poll order =>
      if f.kind = .central ∧ f.round = [] ∧ f.peers.Ranges order then
        some ({ f with round := order }, none)
      else none
  | .lookup result =>
      match f.round, result with
      | [], _ => none
      | _ :: _, .error _ => some ({ f with round := [] }, none)
      | target :: rest, .ok addrStrs =>
          match parseAddrs params.addrParser addrStrs with
          | .error _ => some ({ f with round := [] }, none)
          | .ok addrs =>
              some ({ f with peers := Peers.setAddrs f.peers target addrs, round := rest },
                some (target, addrs))
  | .message ps memory msg =>
      if f.kind = .localNetwork ∧ f.peers.Ranges ps then
        match Lan.handleMessage codecs params f.peers ps memory msg with
        | (_, .error (.panic _)) => none
        | (peers, _) => some ({ f with peers }, announced codecs params ps memory msg)
      else none

/-! ## The daemon -/

structure Daemon (P : Primitives) where
  server : Instances (Mesh256.Server P) (Mesh256.Node P)
  configured : Peers.Store TransportAddr
  finders : List Finder

inductive Event (P : Primitives) where
  | call (call : Call (PrivateKey P))
  | finder (i : Nat) (event : FinderEvent)

inductive Seen where
  | returned (err : Option String)
  | found (i : Nat) (addrs : Option (Addr × List TransportAddr))

namespace Daemon

/-- `order` is the order in which the configured peers are listed to copy them. -/
def new (mainID : Addr) (configured : Peers.Store TransportAddr) (order : List Addr)
    (kinds : List ServiceKind) : Daemon P where
  server := Registry.start (Mesh256.Server.new mainID)
  configured
  finders := kinds.map fun kind => ⟨kind, copyPeers ∅ order, []⟩

def step (codecs : Lan.Codecs) (params : Lan.Params TransportAddr) (s : Daemon P) :
    Event P → Option (Daemon P × Seen)
  | .call call => do
      let (server, err) ← (Mesh256.registry P).step s.server call
      some ({ s with server }, .returned err)
  | .finder i event => do
      let f ← s.finders[i]?
      let (f', addrs) ← f.step codecs params event
      some ({ s with finders := s.finders.set i f' }, .found i addrs)

/-- The stores of the main node, as `NewServer` and `Run` chain them. -/
def mainPeers (s : Daemon P) : Peers.View TransportAddr :=
  Peers.ChainStore.view [s.server.state.mainMemPeers.view,
    Peers.ChainStore.view (s.configured.view :: s.finders.map fun f => f.peers.view)]

end Daemon

/-! ## What a service finds -/

theorem lookup_add (s : Peers.Store TransportAddr) (id other : Addr) :
    (s.add id).lookup other =
      if other = id then some ((s.lookup id).getD ⟨[]⟩) else s.lookup other := by
  unfold Peers.Store.add
  split
  · next info hinfo =>
      rw [hinfo]
      split
      · next hsame => rw [hsame, hinfo, Option.getD_some]
      · rfl
  · next hnone => rw [GoMap.lookup_insert_eq, hnone, Option.getD_none]

theorem lookup_copyPeers (order : List Addr) (id : Addr) :
    (copyPeers ∅ order).lookup id = if id ∈ order then some ⟨[]⟩ else none := by
  unfold copyPeers
  induction order using List.reverseRecOn with
  | nil => rfl
  | append_singleton order last ih =>
      rw [List.foldl_append, List.foldl_cons, List.foldl_nil, lookup_add]
      by_cases hid : id = last
      · subst hid
        have hmem : id ∈ order ++ [id] := by simp
        rw [if_pos rfl, ih, if_pos hmem]
        split <;> rfl
      · have hmem : id ∈ order ++ [last] ↔ id ∈ order := by simp [hid]
        rw [if_neg hid, ih, if_congr hmem rfl rfl]

/-- The addresses that were found, if they are of this peer. -/
def foundFor (id : Addr) (found : Option (Addr × List TransportAddr)) :
    Option (List TransportAddr) :=
  found.bind fun entry => if entry.1 = id then some entry.2 else none

/-- What is found is set for a peer of the store, and nothing else changes. -/
structure Finds (f f' : Finder) (found : Option (Addr × List TransportAddr)) : Prop where
  peers : ∀ id, f'.peers.lookup id =
    (f.peers.lookup id).map fun info => ⟨(foundFor id found).getD info.addrs⟩
  known : ∀ entry ∈ found, (f.peers.lookup entry.1).isSome = true
  round : ∀ id ∈ f'.round, id ∈ f.round ∨ (f.peers.lookup id).isSome = true

variable {codecs : Lan.Codecs} {params : Lan.Params TransportAddr} {f f' : Finder}
  {found : Option (Addr × List TransportAddr)}

theorem map_foundFor_none (id : Addr) (info : Option (Peers.Info TransportAddr)) :
    (info.map fun info => Peers.Info.mk ((foundFor id none).getD info.addrs)) = info := by
  cases info <;> rfl

theorem lookup_setAddrs_foundFor (peers : Peers.Store TransportAddr) (target : Addr)
    (addrs : List TransportAddr) (id : Addr) :
    (Peers.setAddrs peers target addrs).lookup id = (peers.lookup id).map fun info =>
      ⟨(foundFor id (some (target, addrs))).getD info.addrs⟩ := by
  rw [Lan.lookup_setAddrs]
  by_cases hid : id = target
  · subst hid
    simp [foundFor]
  · simp only [foundFor, Option.bind_some, if_neg hid, if_neg (Ne.symm hid)]
    cases peers.lookup id <;> rfl

/-- The message is handled as it is read. -/
theorem handleMessage_eq (codecs : Lan.Codecs) (params : Lan.Params TransportAddr)
    (peers : Peers.Store TransportAddr) (ps : List Addr) (memory : Nat → Bytes)
    (msg : Lan.Message) :
    (Lan.handleMessage codecs params peers ps memory msg).1 =
      (announced codecs params ps memory msg).elim peers
        fun entry => Peers.setAddrs peers entry.1 entry.2 := by
  unfold Lan.handleMessage announced
  cases msg.openWith codecs memory [params.localID] with
  | ok opened => rfl
  | error fault =>
      cases fault with
      | panic text => rfl
      | error err =>
          cases Lan.readAdvertisement codecs params memory ps msg with
          | ok read => rfl
          | error fault => rfl

/-- Only a peer that was tried is found to have announced. -/
theorem mem_of_announced {ps : List Addr} {memory : Nat → Bytes} {msg : Lan.Message}
    {entry : Addr × List TransportAddr}
    (h : announced codecs params ps memory msg = some entry) : entry.1 ∈ ps := by
  unfold announced at h
  split at h
  · split at h
    · next id addrs solicit hread =>
        cases h
        unfold Lan.readAdvertisement at hread
        obtain ⟨⟨i, data⟩, -, hread⟩ := Go.bind_eq_ok.mp hread
        dsimp only at hread
        split at hread
        · cases hread
        · split at hread
          · cases hread
          · split at hread
            · cases hread
            · next hid =>
                cases hread
                exact List.mem_of_getElem? hid
    · cases h
  · cases h

theorem finds_of_step {event : FinderEvent} (hround : ∀ id ∈ f.round, (f.peers.lookup id).isSome)
    (h : f.step codecs params event = some (f', found)) : Finds f f' found := by
  cases event with
  | poll order =>
      obtain ⟨⟨-, -, hranges⟩, h⟩ := Option.ite_none_right_eq_some.mp h
      cases h
      refine ⟨fun id => (map_foundFor_none id _).symm, by simp, fun id hid => Or.inr ?_⟩
      exact Option.isSome_iff_exists.mpr ((hranges.mem_iff id).mp hid)
  | lookup result =>
      unfold Finder.step at h
      dsimp only at h
      split at h
      · cases h
      · cases h
        exact ⟨fun id => (map_foundFor_none id _).symm, by simp, by simp⟩
      · next target rest addrStrs hfirst =>
          split at h
          · cases h
            exact ⟨fun id => (map_foundFor_none id _).symm, by simp, by simp⟩
          · next addrs hparse =>
              cases h
              refine ⟨lookup_setAddrs_foundFor f.peers target addrs, ?_, fun id hid => Or.inl ?_⟩
              · rintro entry ⟨⟩
                exact hround target (by simp [hfirst])
              · rw [hfirst]
                exact List.mem_cons_of_mem _ hid
  | message ps memory msg =>
      obtain ⟨⟨-, hranges⟩, h⟩ := Option.ite_none_right_eq_some.mp h
      split at h
      · cases h
      · next peers _ _ hhandle =>
          cases h
          have hpeers := handleMessage_eq codecs params f.peers ps memory msg
          rw [hhandle] at hpeers
          dsimp only at hpeers
          refine ⟨?_, ?_, fun id hid => Or.inl hid⟩
          · intro id
            dsimp only
            rw [hpeers]
            cases announced codecs params ps memory msg with
            | none => exact (map_foundFor_none id _).symm
            | some entry => exact lookup_setAddrs_foundFor f.peers entry.1 entry.2 id
          · intro entry hentry
            have hmem := mem_of_announced hentry
            exact Option.isSome_iff_exists.mpr ((hranges.mem_iff entry.1).mp hmem)

/-! ## What every run keeps -/

/-- What an observation says of the addresses that a service has for a peer. -/
def seenFor (i : Nat) (id : Addr) : Seen → Option (List TransportAddr)
  | .returned _ => none
  | .found j found => if j = i then foundFor id found else none

/-- The addresses that a service has found last for a peer. -/
def discovered (i : Nat) (id : Addr) (trace : List (Event P × Seen)) :
    Option (List TransportAddr) :=
  (trace.filterMap fun entry => seenFor i id entry.2).getLast?

theorem discovered_concat (i : Nat) (id : Addr) (trace : List (Event P × Seen))
    (event : Event P) (seen : Seen) :
    discovered i id (trace ++ [(event, seen)]) =
      (seenFor i id seen).or (discovered i id trace) := by
  unfold discovered
  rw [List.filterMap_append]
  cases h : seenFor i id seen with
  | none => simp [h]
  | some addrs => simp [h]

/-- A client's node is a peer at the address of its swarm, exactly as long as it is open. -/
def Mirrors (server : Mesh256.Server P) : Prop :=
  ∀ id, server.mainMemPeers.lookup id =
    (server.nodes.lookup id).map fun n => ⟨[⟨nameMemSwarm, n.serial⟩]⟩

theorem mirrors_openNode {server server' : Mesh256.Server P} {privateKey : PrivateKey P}
    {serial : Nat} {n : Mesh256.Node P} (h : Mirrors server)
    (hopen : server.openNode privateKey serial = .ok (server', n)) : Mirrors server' := by
  unfold Mesh256.Server.openNode at hopen
  split at hopen
  · cases hopen
  · next id hid =>
      split at hopen
      · cases hopen
      · split at hopen
        · cases hopen
        · cases hopen
          intro other
          rw [Lan.lookup_setAddrs, lookup_add, lookup_add, if_pos rfl, GoMap.lookup_insert_eq]
          by_cases hother : other = id
          · rw [if_pos hother, if_pos hother]
            rfl
          · rw [if_neg hother, if_neg hother, if_neg hother]
            exact h other

theorem mirrors_drop {server : Mesh256.Server P} {privateKey : PrivateKey P}
    {closeErr : Option String} {retired : Retired (Mesh256.Server P) (Mesh256.Node P)}
    (h : Mirrors server) (hdrop : server.drop privateKey closeErr = .ok retired) :
    Mirrors retired.state := by
  obtain ⟨id, -, hdrop⟩ := Go.bind_eq_ok.mp hdrop
  split at hdrop
  · cases hdrop
    exact h
  · cases hdrop
    intro other
    rw [Peers.Store.remove, GoMap.lookup_erase_eq, GoMap.lookup_erase_eq]
    by_cases hother : other = id
    · rw [if_pos hother, if_pos hother]
      rfl
    · rw [if_neg hother, if_neg hother]
      exact h other

theorem mirrors_step {server server' : Instances (Mesh256.Server P) (Mesh256.Node P)}
    {call : Call (PrivateKey P)} {err : Option String} (h : Mirrors server.state)
    (hstep : (Mesh256.registry P).step server call = some (server', err)) :
    Mirrors server'.state := by
  cases call with
  | issue key =>
      simp only [Registry.step] at hstep
      split at hstep
      · next hopen =>
          cases hstep
          exact mirrors_openNode h hopen
      · cases hstep
        exact h
      · cases hstep
  | drop key closeErr =>
      simp only [Registry.step, Option.bind_eq_bind, Option.bind_eq_some_iff,
        toOption_eq_some] at hstep
      obtain ⟨_, -, retired, hdrop, hstep⟩ := hstep
      cases hstep
      exact mirrors_drop h hdrop
  | close handle closeErr =>
      simp only [Registry.step, Option.bind_eq_bind, Option.bind_eq_some_iff,
        toOption_eq_some] at hstep
      obtain ⟨_, -, retired, hclose, hstep⟩ := hstep
      cases hstep
      exact mirrors_drop h hclose

/-- The stores, as the calls and the services have left them. -/
structure Kept (config : Peers.Store TransportAddr) (count : Nat)
    (trace : List (Event P × Seen)) (s : Daemon P) : Prop where
  nodes : Mirrors s.server.state
  configured : s.configured = config
  count : s.finders.length = count
  peers : ∀ (i : Nat) (f : Finder), s.finders[i]? = some f → ∀ id,
    f.peers.lookup id = (config.lookup id).map fun _ => ⟨(discovered i id trace).getD []⟩
  round : ∀ f ∈ s.finders, ∀ id ∈ f.round, (config.lookup id).isSome = true
  found : ∀ i id addrs, discovered i id trace = some addrs → (config.lookup id).isSome = true

variable {config : Peers.Store TransportAddr} {count : Nat} {trace : List (Event P × Seen)}
  {s s' : Daemon P}

theorem kept_new (mainID : Addr) {order : List Addr} (hconfig : config.Ranges order)
    (kinds : List ServiceKind) :
    Kept config kinds.length [] (Daemon.new mainID config order kinds : Daemon P) where
  nodes _ := rfl
  configured := rfl
  count := List.length_map _
  peers := by
    intro i f hf id
    obtain ⟨kind, -, rfl⟩ := List.mem_map.mp (List.mem_of_getElem? hf)
    have hmem := hconfig.mem_iff id
    dsimp only
    rw [lookup_copyPeers]
    cases hinfo : config.lookup id with
    | none =>
        rw [if_neg fun h => by simp [hinfo, hmem] at h]
        rfl
    | some info =>
        rw [if_pos (hmem.mpr ⟨info, hinfo⟩)]
        rfl
  round := by
    intro f hf id hid
    obtain ⟨kind, -, rfl⟩ := List.mem_map.mp hf
    cases hid
  found := by simp [discovered]

/-- What a service finds is stored, and found last. -/
theorem Kept.finder (kept : Kept config count trace s) {i : Nat} {event : FinderEvent}
    (hf : s.finders[i]? = some f) (hstep : f.step codecs params event = some (f', found)) :
    Kept config count (trace ++ [(.finder i event, .found i found)])
      { s with finders := s.finders.set i f' } := by
  have hmem := List.mem_of_getElem? hf
  -- the peers of the store are the configured ones
  have hknown : ∀ id, (f.peers.lookup id).isSome = (config.lookup id).isSome := by
    intro id
    rw [kept.peers i f hf id, Option.isSome_map]
  have hround : ∀ id ∈ f.round, (f.peers.lookup id).isSome = true := by
    intro id hid
    rw [hknown]
    exact kept.round f hmem id hid
  have finds := finds_of_step hround hstep
  refine ⟨kept.nodes, kept.configured, (List.length_set ..).trans kept.count, ?_, ?_, ?_⟩
  · intro j g hg id
    rw [discovered_concat]
    by_cases hj : i = j
    · subst hj
      obtain ⟨hi, -⟩ := List.getElem?_eq_some_iff.mp hf
      obtain rfl : f' = g := by simpa [List.getElem?_set_self hi] using hg
      rw [finds.peers, kept.peers i f hf id, Option.map_map, seenFor, if_pos rfl]
      cases foundFor id found <;> rfl
    · dsimp only at hg
      rw [List.getElem?_set_ne hj] at hg
      rw [kept.peers j g hg id, seenFor, if_neg hj, Option.none_or]
  · intro g hg id hid
    rcases List.mem_or_eq_of_mem_set hg with hold | rfl
    · exact kept.round g hold id hid
    · rcases finds.round id hid with hold | hlisted
      · exact kept.round f hmem id hold
      · rw [← hknown]
        exact hlisted
  · intro j id addrs haddrs
    rw [discovered_concat, seenFor] at haddrs
    split at haddrs
    · cases hfound : foundFor id found with
      | none =>
          rw [hfound, Option.none_or] at haddrs
          exact kept.found j id addrs haddrs
      | some own =>
          obtain ⟨entry, hentry, hown⟩ := Option.bind_eq_some_iff.mp hfound
          obtain ⟨rfl, -⟩ := Option.ite_none_right_eq_some.mp hown
          rw [← hknown]
          exact finds.known entry hentry
    · rw [Option.none_or] at haddrs
      exact kept.found j id addrs haddrs

theorem Kept.call (kept : Kept config count trace s) {call : Call (PrivateKey P)}
    {server : Instances (Mesh256.Server P) (Mesh256.Node P)} {err : Option String}
    (hstep : (Mesh256.registry P).step s.server call = some (server, err)) :
    Kept config count (trace ++ [(.call call, .returned err)]) { s with server } := by
  have hsame : ∀ i id, discovered i id (trace ++ [(.call call, .returned err)]) =
      discovered i id trace := by
    intro i id
    rw [discovered_concat]
    rfl
  refine ⟨mirrors_step kept.nodes hstep, kept.configured, kept.count, ?_, kept.round, ?_⟩
  · intro i f hf id
    rw [hsame]
    exact kept.peers i f hf id
  · intro i id addrs haddrs
    rw [hsame] at haddrs
    exact kept.found i id addrs haddrs

theorem kept_run {mainID : Addr} {order : List Addr} (hconfig : config.Ranges order)
    {kinds : List ServiceKind}
    (run : Runs (Daemon.step codecs params) anyEvent (Daemon.new mainID config order kinds)
      trace s) : Kept config kinds.length trace s := by
  refine run.history (motive := fun trace s => Kept config kinds.length trace s)
    (kept_new mainID hconfig kinds) ?_
  intro trace s event s' seen _ kept _ hstep
  cases event with
  | call call =>
      simp only [Daemon.step, Option.bind_eq_bind, Option.bind_eq_some_iff] at hstep
      obtain ⟨⟨server, err⟩, hserver, hstep⟩ := hstep
      cases hstep
      exact kept.call hserver
  | finder i event =>
      simp only [Daemon.step, Option.bind_eq_bind, Option.bind_eq_some_iff] at hstep
      obtain ⟨f, hf, ⟨f', found⟩, hfinder, hstep⟩ := hstep
      cases hstep
      exact kept.finder hf hfinder

/-! ## What the main node sees -/

/-- From the node that is open, from the configuration, and from each service in turn. -/
def shown (config : Peers.Store TransportAddr) (count : Nat) (trace : List (Event P × Seen))
    (s : Daemon P) (id : Addr) : List TransportAddr :=
  ((s.server.state.nodes.lookup id).map fun n => TransportAddr.mk nameMemSwarm n.serial).toList ++
    (((config.lookup id).map Peers.Info.addrs).getD [] ++
      (List.range count).flatMap fun i => (discovered i id trace).getD [])

theorem agrees_mainPeers (s : Daemon P) : s.mainPeers.Agrees := by
  refine Peers.ChainStore.agrees fun view hview => ?_
  rcases List.mem_pair.mp hview with rfl | rfl
  · exact Peers.Store.agrees _
  · refine Peers.ChainStore.agrees fun view hview => ?_
    rcases List.mem_cons.mp hview with rfl | hview
    · exact Peers.Store.agrees _
    · obtain ⟨f, -, rfl⟩ := List.mem_map.mp hview
      exact Peers.Store.agrees _

/-- The services show what they found for the configured peers. -/
theorem Kept.flatMap_finders (kept : Kept config count trace s) (id : Addr) :
    (s.finders.map fun f => f.peers.view).flatMap (Peers.ChainStore.addrsOf id) =
      (List.range count).flatMap fun i => (discovered i id trace).getD [] := by
  rw [List.flatMap_def, List.flatMap_def, List.map_map]
  congr 1
  refine List.ext_getElem? fun i => ?_
  rw [List.getElem?_map, List.getElem?_map]
  cases hf : s.finders[i]? with
  | none =>
      have hcount : count ≤ i := by
        rw [← kept.count]
        exact List.getElem?_eq_none_iff.mp hf
      rw [List.getElem?_eq_none (by rw [List.length_range]; exact hcount)]
      rfl
  | some f =>
      have hcount : i < count := by
        rw [← kept.count]
        exact (List.getElem?_eq_some_iff.mp hf).1
      rw [List.getElem?_range hcount]
      simp only [Option.map_some, Function.comp_apply, Peers.ChainStore.addrsOf,
        Peers.Store.view, kept.peers i f hf id]
      cases hinfo : config.lookup id with
      | some info => rfl
      | none =>
          cases hfound : discovered i id trace with
          | none => rfl
          | some addrs =>
              have hknown := kept.found i id addrs hfound
              rw [hinfo] at hknown
              cases hknown

theorem Kept.get_mainPeers (kept : Kept config count trace s) (id : Addr) :
    s.mainPeers.get id =
      if (s.server.state.nodes.lookup id).isSome || (config.lookup id).isSome then
        some ⟨shown config count trace s id⟩ else none := by
  have hpeers : ∀ view ∈ s.finders.map (fun f => f.peers.view),
      (view.get id).isSome = true → (config.lookup id).isSome = true := by
    intro view hview hsome
    obtain ⟨f, hf, rfl⟩ := List.mem_map.mp hview
    obtain ⟨i, hi⟩ := List.getElem?_of_mem hf
    simpa [Peers.Store.view, kept.peers i f hi id] using hsome
  have hrest : (Peers.ChainStore.view
      (s.configured.view :: s.finders.map fun f => f.peers.view)).get id =
      if (config.lookup id).isSome then
        some ⟨((config.lookup id).map Peers.Info.addrs).getD [] ++
          (List.range count).flatMap fun i => (discovered i id trace).getD []⟩
      else none := by
    refine (Peers.ChainStore.get_eq _ id).trans ?_
    rw [kept.configured, List.any_cons, List.flatMap_cons, kept.flatMap_finders]
    refine if_congr ?_ rfl rfl
    rw [Bool.or_eq_true, List.any_eq_true]
    exact or_iff_left_of_imp fun ⟨view, hview, hsome⟩ => hpeers view hview hsome
  have hnode : s.server.state.mainMemPeers.view.get id =
      (s.server.state.nodes.lookup id).map fun n => ⟨[⟨nameMemSwarm, n.serial⟩]⟩ := kept.nodes id
  refine (Peers.ChainStore.get_eq _ id).trans ?_
  simp only [List.any_cons, List.any_nil, List.flatMap_cons, List.flatMap_nil, List.append_nil,
    Peers.ChainStore.addrsOf, hrest, hnode, shown]
  cases s.server.state.nodes.lookup id with
  | none =>
      cases config.lookup id with
      | none => rfl
      | some info => rfl
  | some n =>
      cases hinfo : config.lookup id with
      | some info => rfl
      | none =>
          have hfound : ∀ i, discovered i id trace = none := by
            intro i
            cases hfound : discovered i id trace with
            | none => rfl
            | some addrs => simpa [hinfo] using kept.found i id addrs hfound
          simp [hfound]

/--
In whatever order clients use the server and the services find addresses, the main node has
the configured peers and the nodes that are open now, each with the address of its swarm,
its configured addresses, and what each service has found last, in this order.
-/
theorem main_peers_shown {mainID : Addr} {order : List Addr} (hconfig : config.Ranges order)
    {kinds : List ServiceKind}
    (run : Runs (Daemon.step codecs params) anyEvent (Daemon.new mainID config order kinds)
      trace s) (id : Addr) :
    s.mainPeers.get id =
      (if (s.server.state.nodes.lookup id).isSome || (config.lookup id).isSome then
        some ⟨shown config kinds.length trace s id⟩ else none) ∧
    s.mainPeers.contains id = (s.mainPeers.get id).isSome ∧
    (id ∈ s.mainPeers.list ↔ (s.mainPeers.get id).isSome = true) ∧
    ∀ i addrs, discovered i id trace = some addrs → (config.lookup id).isSome = true := by
  have kept := kept_run hconfig run
  have agrees := agrees_mainPeers s
  exact ⟨kept.get_mainPeers id, agrees.contains id, agrees.list id,
    fun i addrs => kept.found i id addrs⟩

def samplePeer : Addr := copyTo 32 [2]

def sampleConfig : Peers.Store TransportAddr := Finmap.insert samplePeer ⟨[⟨"quic+udp", 1⟩]⟩ ∅

/-- Addresses are numbered by the length of their text. -/
def sampleParams : Lan.Params TransportAddr where
  localID := copyTo 32 [1]
  addrParser data := .ok ⟨"quic+udp", data.length⟩

/-- A client opens a node, and two rounds of polling are made. -/
def sampleEvents : List (Event samplePrimitives) :=
  [.call (.issue Service.sampleKey), .finder 0 (.poll [samplePeer]),
    .finder 0 (.lookup (.ok ["ab"])), .finder 0 (.poll [samplePeer]),
    .finder 0 (.lookup (.ok ["abc", "abcd"])), .finder 0 (.poll [samplePeer]),
    .finder 0 (.lookup (.error "unavailable"))]

theorem main_peers_shown_sample :
    ∃ trace s, trace.map Prod.fst = sampleEvents ∧
      Runs (Daemon.step Lan.sampleSealed sampleParams) anyEvent
        (Daemon.new (copyTo 32 [1]) sampleConfig [samplePeer] [.central, .localNetwork])
        trace s ∧
      s.mainPeers.get samplePeer =
        some ⟨[⟨"quic+udp", 1⟩, ⟨"quic+udp", 3⟩, ⟨"quic+udp", 4⟩]⟩ ∧
      s.mainPeers.contains samplePeer = (s.mainPeers.get samplePeer).isSome := by
  have hconfig : GoMap.Ranges sampleConfig [samplePeer] := by
    apply GoMap.Ranges.insert GoMap.ranges_empty
    simp
  have hreplay : (replay (Daemon.step Lan.sampleSealed sampleParams) anyEvent
      (Daemon.new (copyTo 32 [1]) sampleConfig [samplePeer] [.central, .localNetwork])
      sampleEvents).map (fun result => result.1.mainPeers.get samplePeer) =
        some (some ⟨[⟨"quic+udp", 1⟩, ⟨"quic+udp", 3⟩, ⟨"quic+udp", 4⟩]⟩) := by
    decide +kernel
  obtain ⟨trace, s, hevents, run, hget⟩ := exists_run_of_map hreplay
  exact ⟨trace, s, hevents, run, hget, (main_peers_shown hconfig run samplePeer).2.1⟩

end Inet256.Inet256d
