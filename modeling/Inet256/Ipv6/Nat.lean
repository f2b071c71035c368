import Inet256.Foundation.Runs
import Inet256.Foundation.Runtime
import Inet256.Pki.Codec

/-!
# The NAT table

Every client of the table has a node of its own, under whose address it is known
outside.  Three maps go from the client to the address, from the address back,
and from the address to the node.  Adding a client does not look for a node that
the client already has.
-/

namespace Inet256.Ipv6

open Inet256.Foundation

abbrev IPv6Addr := List.Vector UInt8 16

/-! ## The table -/

structure NATTable (ν : Type) where
  outbound : GoMap IPv6Addr Addr
  inbound : GoMap Addr IPv6Addr
  vnodes : GoMap Addr ν

/-- A call, with what the key generator and the service return to it. -/
inductive NATCall (ν : Type) where
  | addClient (ip : IPv6Addr) (generateErr : Option String) (opened : Except String ν)
  | deleteClient (ip : IPv6Addr)

/-- The address that was returned, or the node that was closed; a panic changes nothing. -/
inductive NATSeen (ν : Type) where
  | added (outside : Addr)
  | panicked
  | closed (node : Option ν)

abbrev NATTrace (ν : Type) := List (NATCall ν × NATSeen ν)

namespace NATTable

variable {ν : Type} (localAddr : ν → Addr)

def new : NATTable ν := ⟨∅, ∅, ∅⟩

def addClient (nt : NATTable ν) (ip : IPv6Addr) (generateErr : Option String)
    (opened : Except String ν) : Go (NATTable ν × Addr) :=
  match generateErr with
  | some err => crash err
  | none =>
      match opened with
      | .error err => crash err
      | .ok vnode =>
          let outside := localAddr vnode
          .ok (⟨nt.outbound.insert ip outside, nt.inbound.insert outside ip,
            nt.vnodes.insert outside vnode⟩, outside)

/-- An error from `Close` is logged. -/
def deleteClient (nt : NATTable ν) (ip : IPv6Addr) : Go (NATTable ν × Option ν) :=
  match nt.outbound.lookup ip with
  | none => .ok (nt, none)
  | some addr =>
      match nt.vnodes.lookup addr with
      | none => crash "nil pointer dereference"
      | some vnode =>
          .ok (⟨nt.outbound.erase ip, nt.inbound.erase addr, nt.vnodes.erase addr⟩, some vnode)

def nodeByInner (nt : NATTable ν) (ip : IPv6Addr) : Option ν :=
  match nt.outbound.lookup ip with
  | none => none
  | some addr => nt.vnodes.lookup addr

def nodeByOuter (nt : NATTable ν) (addr : Addr) : Option ν := nt.vnodes.lookup addr

def step (nt : NATTable ν) : NATCall ν → Option (NATTable ν × NATSeen ν)
  | .addClient ip generateErr opened =>
      match nt.addClient localAddr ip generateErr opened with
      | .ok (nt, outside) => some (nt, .added outside)
      | .error _ => some (nt, .panicked)
  | .deleteClient ip =>
      match nt.deleteClient ip with
      | .ok (nt, closed) => some (nt, .closed closed)
      | .error _ => some (nt, .panicked)

end NATTable

/-! ## What the calls ask for -/

section Trace

variable {ν : Type}

/-- The nodes that were opened, with their clients. -/
def added (trace : NATTrace ν) : List (IPv6Addr × ν) :=
  trace.filterMap fun entry =>
    match entry with
    | (.addClient ip _ opened, .added _) => opened.toOption.map fun node => (ip, node)
    | _ => none

def closedNodes (trace : NATTrace ν) : List ν :=
  trace.filterMap fun entry =>
    match entry with
    | (_, .closed node) => node
    | _ => none

/-- The client was added, and not deleted since. -/
def present (ip : IPv6Addr) (trace : NATTrace ν) : Bool :=
  trace.foldl (fun here entry =>
    match entry with
    | (.addClient ip' _ _, .added _) => here || ip' == ip
    | (.deleteClient ip', _) => here && ip' != ip
    | _ => here) false

/-- A client was added while it was there. -/
def Readded (trace : NATTrace ν) : Prop :=
  ∃ before ip generateErr opened outside, present ip before = true ∧
    before ++ [(.addClient ip generateErr opened, .added outside)] <+: trace

/-- The nodes have different addresses. -/
def DistinctAddrs (localAddr : ν → Addr) (trace : NATTrace ν) : Prop :=
  ((added trace).map fun client => localAddr client.2).Nodup

theorem added_concat (trace : NATTrace ν) (entry : NATCall ν × NATSeen ν) :
    added (trace ++ [entry]) = added trace ++ added [entry] :=
  List.filterMap_append

theorem added_deleteClient (trace : NATTrace ν) (ip : IPv6Addr) (seen : NATSeen ν) :
    added (trace ++ [(.deleteClient ip, seen)]) = added trace :=
  (added_concat _ _).trans (List.append_nil _)

theorem closedNodes_concat (trace : NATTrace ν) (entry : NATCall ν × NATSeen ν) :
    closedNodes (trace ++ [entry]) = closedNodes trace ++ closedNodes [entry] :=
  List.filterMap_append

theorem present_nil (ip : IPv6Addr) : present ip ([] : NATTrace ν) = false :=
  rfl

theorem present_addClient (trace : NATTrace ν) (ip ip' : IPv6Addr) (generateErr : Option String)
    (opened : Except String ν) (outside : Addr) :
    present ip' (trace ++ [(.addClient ip generateErr opened, .added outside)]) =
      (present ip' trace || ip == ip') :=
  List.foldl_concat _ _ _ _

theorem present_deleteClient (trace : NATTrace ν) (ip ip' : IPv6Addr) (seen : NATSeen ν) :
    present ip' (trace ++ [(.deleteClient ip, seen)]) = (present ip' trace && ip != ip') :=
  List.foldl_concat _ _ _ _

theorem present_panicked (trace : NATTrace ν) (ip ip' : IPv6Addr) (generateErr : Option String)
    (opened : Except String ν) :
    present ip' (trace ++ [(.addClient ip generateErr opened, .panicked)]) = present ip' trace :=
  List.foldl_concat _ _ _ _

theorem DistinctAddrs.init {localAddr : ν → Addr} {trace : NATTrace ν}
    {entry : NATCall ν × NATSeen ν} (h : DistinctAddrs localAddr (trace ++ [entry])) :
    DistinctAddrs localAddr trace := by
  rw [DistinctAddrs, added_concat, List.map_append] at h
  exact (List.nodup_append.mp h).1

/-- A node that is added last has an address that no other has. -/
theorem DistinctAddrs.ne_last {localAddr : ν → Addr} {trace : NATTrace ν} {ip : IPv6Addr}
    {generateErr : Option String} {node : ν} {outside : Addr}
    (h : DistinctAddrs localAddr
      (trace ++ [(.addClient ip generateErr (.ok node), .added outside)])) :
    ∀ client ∈ added trace, localAddr client.2 ≠ localAddr node := by
  intro client hclient
  rw [DistinctAddrs, added_concat, List.map_append] at h
  exact (List.nodup_append.mp h).2.2 _ (List.mem_map_of_mem hclient) _
    (List.mem_singleton_self _)

theorem not_readded_nil : ¬ Readded ([] : NATTrace ν) := by
  rintro ⟨before, ip, generateErr, opened, outside, -, hprefix⟩
  have hnil := List.prefix_nil.mp hprefix
  simp at hnil

theorem readded_concat_iff (trace : NATTrace ν) (entry : NATCall ν × NATSeen ν) :
    Readded (trace ++ [entry]) ↔ Readded trace ∨ ∃ ip generateErr opened outside,
      entry = (.addClient ip generateErr opened, .added outside) ∧ present ip trace = true := by
  constructor
  · rintro ⟨before, ip, generateErr, opened, outside, hpresent, hprefix⟩
    rcases List.prefix_concat_iff.mp hprefix with heq | hbefore
    · obtain ⟨rfl, hentry⟩ := List.append_inj' heq rfl
      rw [List.singleton_inj] at hentry
      exact Or.inr ⟨ip, generateErr, opened, outside, hentry.symm, hpresent⟩
    · exact Or.inl ⟨before, ip, generateErr, opened, outside, hpresent, hbefore⟩
  · rintro (⟨before, ip, generateErr, opened, outside, hpresent, hprefix⟩ |
      ⟨ip, generateErr, opened, outside, rfl, hpresent⟩)
    · exact ⟨before, ip, generateErr, opened, outside, hpresent,
        hprefix.trans (List.prefix_append _ _)⟩
    · exact ⟨trace, ip, generateErr, opened, outside, hpresent, List.prefix_rfl⟩

theorem readded_addClient_iff (trace : NATTrace ν) (ip : IPv6Addr)
    (generateErr : Option String) (opened : Except String ν) (outside : Addr) :
    Readded (trace ++ [(.addClient ip generateErr opened, .added outside)]) ↔
      Readded trace ∨ present ip trace = true := by
  simp [readded_concat_iff]

theorem readded_deleteClient_iff (trace : NATTrace ν) (ip : IPv6Addr) (seen : NATSeen ν) :
    Readded (trace ++ [(.deleteClient ip, seen)]) ↔ Readded trace := by
  simp [readded_concat_iff]

theorem readded_panicked_iff (trace : NATTrace ν) (call : NATCall ν) :
    Readded (trace ++ [(call, .panicked)]) ↔ Readded trace := by
  simp [readded_concat_iff]

end Trace

namespace NATTable

variable {ν : Type} {localAddr : ν → Addr} {trace : NATTrace ν} {nt nt' : NATTable ν}

/-! ## What every run keeps -/

structure Sound (localAddr : ν → Addr) (trace : NATTrace ν) (nt : NATTable ν) : Prop where
  outbound : ∀ ip a, nt.outbound.lookup ip = some a → nt.inbound.lookup a = some ip
  inbound : ∀ a ip, nt.inbound.lookup a = some ip →
    ∃ node, nt.vnodes.lookup a = some node ∧ (ip, node) ∈ added trace
  vnodes : ∀ a node, nt.vnodes.lookup a = some node →
    localAddr node = a ∧ ∃ ip, nt.inbound.lookup a = some ip
  kept : ∀ ip node, (ip, node) ∈ added trace →
    node ∈ closedNodes trace ∨ nt.vnodes.lookup (localAddr node) = some node
  present : ∀ ip, present ip trace = (nt.outbound.lookup ip).isSome

/-- An address that leads to a client which is known under another one. -/
def Stale (nt : NATTable ν) : Prop :=
  ∃ a ip, nt.inbound.lookup a = some ip ∧ nt.outbound.lookup ip ≠ some a

theorem sound_new : Sound localAddr [] (new : NATTable ν) where
  outbound := by simp [new]
  inbound := by simp [new]
  vnodes := by simp [new]
  kept := by simp [added]
  present := by simp [Ipv6.present, new]

theorem Sound.not_inbound (sound : Sound localAddr trace nt) {node : ν}
    (hnew : ∀ client ∈ added trace, localAddr client.2 ≠ localAddr node) :
    nt.inbound.lookup (localAddr node) = none := by
  rw [Option.eq_none_iff_forall_ne_some]
  intro ip hip
  obtain ⟨other, hother, hadded⟩ := sound.inbound _ ip hip
  exact hnew _ hadded (sound.vnodes _ other hother).1

/-! ### Adding a client -/

def insertClient (localAddr : ν → Addr) (nt : NATTable ν) (ip : IPv6Addr) (node : ν) :
    NATTable ν :=
  ⟨nt.outbound.insert ip (localAddr node), nt.inbound.insert (localAddr node) ip,
    nt.vnodes.insert (localAddr node) node⟩

theorem Sound.insertClient (sound : Sound localAddr trace nt) {ip : IPv6Addr}
    {generateErr : Option String} {node : ν} {outside : Addr}
    (hnew : ∀ client ∈ added trace, localAddr client.2 ≠ localAddr node) :
    Sound localAddr (trace ++ [(.addClient ip generateErr (.ok node), .added outside)])
      (nt.insertClient localAddr ip node) := by
  have hadded : added (trace ++ [(.addClient ip generateErr (.ok node), .added outside)]) =
      added trace ++ [(ip, node)] := added_concat _ _
  have hclosed : closedNodes (trace ++ [(.addClient ip generateErr (.ok node), .added outside)]) =
      closedNodes trace :=
    (closedNodes_concat _ _).trans (List.append_nil _)
  have hnone := sound.not_inbound hnew
  constructor
  · intro ip' a h
    rcases GoMap.lookup_insert_cases h with ⟨rfl, rfl⟩ | ⟨-, hold⟩
    · exact Finmap.lookup_insert _
    · exact GoMap.lookup_insert_of_absent hnone (sound.outbound ip' a hold)
  · intro a ip' h
    rw [hadded]
    rcases GoMap.lookup_insert_cases h with ⟨rfl, rfl⟩ | ⟨hne, hold⟩
    · exact ⟨node, Finmap.lookup_insert _, by simp⟩
    · obtain ⟨other, hother, hmem⟩ := sound.inbound a ip' hold
      refine ⟨other, ?_, List.mem_append_left _ hmem⟩
      rw [NATTable.insertClient, GoMap.lookup_insert_eq, if_neg hne, hother]
  · intro a other h
    rcases GoMap.lookup_insert_cases h with ⟨rfl, rfl⟩ | ⟨hne, hold⟩
    · exact ⟨rfl, ip, Finmap.lookup_insert _⟩
    · obtain ⟨haddr, ip', hip'⟩ := sound.vnodes a other hold
      exact ⟨haddr, ip', GoMap.lookup_insert_of_absent hnone hip'⟩
  · intro ip' other hmem
    rw [hclosed]
    rw [hadded] at hmem
    rcases List.mem_append.mp hmem with hold | hlast
    · refine (sound.kept ip' other hold).imp_right fun hkept => ?_
      rw [NATTable.insertClient, GoMap.lookup_insert_eq, if_neg (hnew _ hold), hkept]
    · cases List.mem_singleton.mp hlast
      exact Or.inr (Finmap.lookup_insert _)
  · intro ip'
    rw [present_addClient, sound.present, NATTable.insertClient, GoMap.lookup_insert_eq]
    by_cases hsame : ip' = ip
    · simp [hsame]
    · simp [hsame, Ne.symm hsame]

/-- An entry becomes stale when its client is given another node. -/
theorem Sound.stale_insertClient_iff (sound : Sound localAddr trace nt) {ip : IPv6Addr}
    {node : ν} (hnew : ∀ client ∈ added trace, localAddr client.2 ≠ localAddr node) :
    (nt.insertClient localAddr ip node).Stale ↔ nt.Stale ∨ Ipv6.present ip trace = true := by
  have hnone := sound.not_inbound hnew
  rw [sound.present, Option.isSome_iff_exists]
  constructor
  · rintro ⟨a, ip', hin, hout⟩
    rcases GoMap.lookup_insert_cases hin with ⟨rfl, rfl⟩ | ⟨hne, hold⟩
    · exact absurd (Finmap.lookup_insert _) hout
    · by_cases hsame : nt.outbound.lookup ip' = some a
      · -- the client was known under the address, and is no more
        refine Or.inr ⟨a, ?_⟩
        by_cases hip : ip' = ip
        · rw [← hip, hsame]
        · rw [NATTable.insertClient, GoMap.lookup_insert_eq, if_neg hip] at hout
          exact absurd hsame hout
      · exact Or.inl ⟨a, ip', hold, hsame⟩
  · have hstale : ∀ a ip', nt.inbound.lookup a = some ip' →
        (nt.outbound.lookup ip' ≠ some a ∨ ip' = ip) →
        (nt.insertClient localAddr ip node).Stale := by
      intro a ip' hin hout
      refine ⟨a, ip', GoMap.lookup_insert_of_absent hnone hin, ?_⟩
      rw [NATTable.insertClient, GoMap.lookup_insert_eq]
      split
      · rintro heq
        cases heq
        rw [hnone] at hin
        cases hin
      · next hne => exact hout.resolve_right hne
    rintro (⟨a, ip', hin, hout⟩ | ⟨a, hout⟩)
    · exact hstale a ip' hin (Or.inl hout)
    · exact hstale a ip (sound.outbound ip a hout) (Or.inr rfl)

/-! ### Deleting a client -/

theorem Sound.deleteClient_eq (sound : Sound localAddr trace nt) {ip : IPv6Addr} {a : Addr}
    (h : nt.outbound.lookup ip = some a) :
    ∃ node, nt.vnodes.lookup a = some node ∧ nt.deleteClient ip =
      .ok (⟨nt.outbound.erase ip, nt.inbound.erase a, nt.vnodes.erase a⟩, some node) := by
  obtain ⟨node, hnode, -⟩ := sound.inbound a ip (sound.outbound ip a h)
  exact ⟨node, hnode, by simp only [deleteClient, h, hnode]⟩

theorem Sound.eraseClient (sound : Sound localAddr trace nt) {ip : IPv6Addr} {a : Addr} {node : ν}
    (h : nt.outbound.lookup ip = some a) (hnode : nt.vnodes.lookup a = some node) :
    Sound localAddr (trace ++ [(.deleteClient ip, .closed (some node))])
      ⟨nt.outbound.erase ip, nt.inbound.erase a, nt.vnodes.erase a⟩ := by
  have hclosed : closedNodes (trace ++ [(.deleteClient ip, .closed (some node))]) =
      closedNodes trace ++ [node] := closedNodes_concat _ _
  constructor
  · intro ip' a' hout
    obtain ⟨hne, hold⟩ := GoMap.lookup_erase_cases hout
    have hin := sound.outbound ip' a' hold
    refine GoMap.lookup_erase_of_ne ?_ hin
    rintro rfl
    rw [sound.outbound ip a' h, Option.some.injEq] at hin
    exact hne hin.symm
  · intro a' ip' hin
    obtain ⟨hne, hold⟩ := GoMap.lookup_erase_cases hin
    obtain ⟨other, hother, hmem⟩ := sound.inbound a' ip' hold
    rw [added_deleteClient]
    exact ⟨other, GoMap.lookup_erase_of_ne hne hother, hmem⟩
  · intro a' other hother
    obtain ⟨hne, hold⟩ := GoMap.lookup_erase_cases hother
    obtain ⟨haddr, ip', hip'⟩ := sound.vnodes a' other hold
    exact ⟨haddr, ip', GoMap.lookup_erase_of_ne hne hip'⟩
  · intro ip' other hmem
    rw [added_deleteClient] at hmem
    rw [hclosed]
    rcases sound.kept ip' other hmem with hclosed' | hkept
    · exact Or.inl (List.mem_append_left _ hclosed')
    · by_cases hsame : localAddr other = a
      · rw [hsame, hnode, Option.some.injEq] at hkept
        exact Or.inl (by simp [hkept])
      · exact Or.inr (GoMap.lookup_erase_of_ne hsame hkept)
  · intro ip'
    rw [present_deleteClient, sound.present, GoMap.lookup_erase_eq]
    by_cases hsame : ip' = ip
    · simp [hsame]
    · simp [hsame, Ne.symm hsame]

theorem Sound.stale_eraseClient_iff (sound : Sound localAddr trace nt) {ip : IPv6Addr} {a : Addr}
    (h : nt.outbound.lookup ip = some a) :
    Stale ⟨nt.outbound.erase ip, nt.inbound.erase a, nt.vnodes.erase a⟩ ↔ nt.Stale := by
  constructor
  · rintro ⟨a', ip', hin, hout⟩
    obtain ⟨hne, hold⟩ := GoMap.lookup_erase_cases hin
    refine ⟨a', ip', hold, ?_⟩
    by_cases hsame : ip' = ip
    · rw [hsame, h]
      intro heq
      exact hne (Option.some.inj heq).symm
    · rwa [GoMap.lookup_erase_eq, if_neg hsame] at hout
  · rintro ⟨a', ip', hin, hout⟩
    have hne : a' ≠ a := by
      rintro rfl
      rw [sound.outbound ip a' h, Option.some.injEq] at hin
      rw [← hin] at hout
      exact hout h
    refine ⟨a', ip', GoMap.lookup_erase_of_ne hne hin, ?_⟩
    rw [GoMap.lookup_erase_eq]
    split
    · simp
    · exact hout

/-- A call that changes no map, and that no client appears or disappears by. -/
theorem Sound.unchanged (sound : Sound localAddr trace nt) {entry : NATCall ν × NATSeen ν}
    (hadded : added [entry] = []) (hclosed : closedNodes [entry] = [])
    (hpresent : ∀ ip, Ipv6.present ip (trace ++ [entry]) = Ipv6.present ip trace) :
    Sound localAddr (trace ++ [entry]) nt where
  outbound := sound.outbound
  inbound := by
    intro a ip h
    rw [added_concat, hadded, List.append_nil]
    exact sound.inbound a ip h
  vnodes := sound.vnodes
  kept := by
    intro ip node h
    rw [added_concat, hadded, List.append_nil] at h
    rw [closedNodes_concat, hclosed, List.append_nil]
    exact sound.kept ip node h
  present := by
    intro ip
    rw [hpresent, sound.present]

/-! ### Runs -/

/-- The table after any calls: sound, and with a stale entry exactly if a client was readded. -/
theorem sound_of_run (run : Runs (step localAddr) anyEvent new trace nt)
    (hdistinct : DistinctAddrs localAddr trace) :
    Sound localAddr trace nt ∧ (nt.Stale ↔ Readded trace) := by
  revert hdistinct
  refine run.history (motive := fun trace nt => DistinctAddrs localAddr trace →
    Sound localAddr trace nt ∧ (nt.Stale ↔ Readded trace)) ?_ ?_
  · intro _
    refine ⟨sound_new, ?_⟩
    refine iff_of_false ?_ not_readded_nil
    rintro ⟨a, ip, hin, -⟩
    simp [new] at hin
  · intro trace nt call nt' seen _ ih _ hstep hdistinct
    obtain ⟨sound, hstale⟩ := ih hdistinct.init
    cases call with
    | addClient ip generateErr opened =>
        have hpanic := fun err result =>
          sound.unchanged rfl rfl fun ip' => present_panicked trace ip ip' err result
        cases generateErr with
        | some err =>
            cases hstep
            exact ⟨hpanic _ _, hstale.trans (readded_panicked_iff _ _).symm⟩
        | none =>
            cases opened with
            | error err =>
                cases hstep
                exact ⟨hpanic _ _, hstale.trans (readded_panicked_iff _ _).symm⟩
            | ok node =>
                cases hstep
                have hnew := hdistinct.ne_last
                rw [readded_addClient_iff, ← hstale]
                exact ⟨sound.insertClient hnew, sound.stale_insertClient_iff hnew⟩
    | deleteClient ip =>
        rw [readded_deleteClient_iff, ← hstale]
        cases hout : nt.outbound.lookup ip with
        | none =>
            simp only [step, deleteClient, hout, Option.some.injEq, Prod.mk.injEq] at hstep
            obtain ⟨rfl, rfl⟩ := hstep
            refine ⟨sound.unchanged rfl rfl fun ip' => ?_, Iff.rfl⟩
            rw [present_deleteClient, sound.present]
            by_cases hsame : ip' = ip
            · rw [hsame, hout, Option.isSome_none, Bool.false_and]
            · simp [Ne.symm hsame]
        | some a =>
            obtain ⟨node, hnode, hdelete⟩ := sound.deleteClient_eq hout
            simp only [step, hdelete, Option.some.injEq, Prod.mk.injEq] at hstep
            obtain ⟨rfl, rfl⟩ := hstep
            exact ⟨sound.eraseClient hout hnode, sound.stale_eraseClient_iff hout⟩

/-! ## The bijection -/

/--
The maps are inverse to each other, every address has its node, and deleting a
client leaves nothing of it.
-/
structure Bijection (localAddr : ν → Addr) (trace : NATTrace ν) (nt : NATTable ν) : Prop where
  inverse : ∀ ip a, nt.outbound.lookup ip = some a ↔ nt.inbound.lookup a = some ip
  domain : ∀ a, (∃ node, nt.vnodes.lookup a = some node) ↔ ∃ ip, nt.inbound.lookup a = some ip
  address : ∀ a node, nt.vnodes.lookup a = some node → localAddr node = a
  agree : ∀ ip a, nt.outbound.lookup ip = some a → nt.nodeByInner ip = nt.nodeByOuter a
  deleted : ∀ ip, ∃ nt' closed, nt.deleteClient ip = .ok (nt', closed) ∧
    nt'.outbound.lookup ip = none ∧ (∀ a, nt'.inbound.lookup a ≠ some ip) ∧
    ∀ node, (ip, node) ∈ added trace →
      (∀ a, nt'.vnodes.lookup a ≠ some node) ∧ (node ∈ closedNodes trace ∨ closed = some node)

theorem Sound.inbound_of_vnode (sound : Sound localAddr trace nt)
    (hdistinct : DistinctAddrs localAddr trace) {ip : IPv6Addr} {a : Addr} {node : ν}
    (hadded : (ip, node) ∈ added trace) (hnode : nt.vnodes.lookup a = some node) :
    nt.inbound.lookup a = some ip := by
  obtain ⟨-, ip', hip'⟩ := sound.vnodes a node hnode
  obtain ⟨other, hother, hmem⟩ := sound.inbound a ip' hip'
  rw [hnode, Option.some.injEq] at hother
  subst hother
  have hsame := List.inj_on_of_nodup_map hdistinct hmem hadded rfl
  rw [hip', (Prod.mk.inj hsame).1]

/-- Of a client that is not there, a table without stale entries has nothing. -/
theorem Sound.gone (sound : Sound localAddr trace nt) (hfresh : ¬ nt.Stale)
    (hdistinct : DistinctAddrs localAddr trace) {ip : IPv6Addr}
    (hout : nt.outbound.lookup ip = none) :
    (∀ a, nt.inbound.lookup a ≠ some ip) ∧ ∀ node, (ip, node) ∈ added trace →
      (∀ a, nt.vnodes.lookup a ≠ some node) ∧ node ∈ closedNodes trace := by
  have hin : ∀ a, nt.inbound.lookup a ≠ some ip := by
    intro a hin
    exact hfresh ⟨a, ip, hin, by simp [hout]⟩
  refine ⟨hin, fun node hadded => ?_⟩
  have hnode : ∀ a, nt.vnodes.lookup a ≠ some node := fun a hnode =>
    hin a (sound.inbound_of_vnode hdistinct hadded hnode)
  exact ⟨hnode, (sound.kept ip node hadded).resolve_right (hnode _)⟩

theorem Sound.deleted (sound : Sound localAddr trace nt) (hfresh : ¬ nt.Stale)
    (hdistinct : DistinctAddrs localAddr trace) (ip : IPv6Addr) :
    ∃ nt' closed, nt.deleteClient ip = .ok (nt', closed) ∧
      nt'.outbound.lookup ip = none ∧ (∀ a, nt'.inbound.lookup a ≠ some ip) ∧
      ∀ node, (ip, node) ∈ added trace →
        (∀ a, nt'.vnodes.lookup a ≠ some node) ∧
          (node ∈ closedNodes trace ∨ closed = some node) := by
  cases hout : nt.outbound.lookup ip with
  | none =>
      obtain ⟨hin, hnodes⟩ := sound.gone hfresh hdistinct hout
      refine ⟨nt, none, by simp only [deleteClient, hout], hout, hin, fun node hadded => ?_⟩
      exact (hnodes node hadded).imp_right Or.inl
  | some a =>
      obtain ⟨node, hnode, hdelete⟩ := sound.deleteClient_eq hout
      have hgone := (sound.eraseClient hout hnode).gone
        (mt (sound.stale_eraseClient_iff hout).mp hfresh)
        (by rwa [DistinctAddrs, added_deleteClient]) (Finmap.lookup_erase ip _)
      rw [added_deleteClient] at hgone
      refine ⟨_, _, hdelete, Finmap.lookup_erase ip _, hgone.1, fun other hother => ?_⟩
      obtain ⟨hvnodes, hclosed⟩ := hgone.2 other hother
      refine ⟨hvnodes, ?_⟩
      rw [closedNodes_concat, List.mem_append] at hclosed
      refine hclosed.imp_right fun hlast => ?_
      rw [List.mem_singleton.mp hlast]

/-- The table is a bijection after exactly the calls that add no client which is there. -/
theorem nat_bijection_iff (run : Runs (step localAddr) anyEvent new trace nt)
    (hdistinct : DistinctAddrs localAddr trace) :
    Bijection localAddr trace nt ↔ ¬ Readded trace := by
  obtain ⟨sound, hstale⟩ := sound_of_run run hdistinct
  rw [← hstale]
  constructor
  · rintro h ⟨a, ip, hin, hout⟩
    exact hout ((h.inverse ip a).mpr hin)
  · intro hfresh
    refine ⟨?_, ?_, ?_, ?_, sound.deleted hfresh hdistinct⟩
    · intro ip a
      refine ⟨sound.outbound ip a, fun hin => ?_⟩
      by_contra hout
      exact hfresh ⟨a, ip, hin, hout⟩
    · intro a
      constructor
      · rintro ⟨node, hnode⟩
        exact (sound.vnodes a node hnode).2
      · rintro ⟨ip, hip⟩
        obtain ⟨node, hnode, -⟩ := sound.inbound a ip hip
        exact ⟨node, hnode⟩
    · intro a node hnode
      exact (sound.vnodes a node hnode).1
    · intro ip a hout
      simp only [nodeByInner, nodeByOuter, hout]

section Sample

/-- Nodes that are named by the first byte of their address. -/
def sampleLocalAddr (node : UInt8) : Addr := copyTo 32 [node]

def sampleIP (last : UInt8) : IPv6Addr := ⟨List.replicate 15 0 ++ [last], rfl⟩

def sampleAdd (ip : IPv6Addr) (node : UInt8) : NATCall UInt8 × NATSeen UInt8 :=
  (.addClient ip none (.ok node), .added (sampleLocalAddr node))

/-- Two clients, of which the first is deleted and added again. -/
def returningClient : NATTrace UInt8 :=
  [sampleAdd (sampleIP 1) 10, sampleAdd (sampleIP 2) 20,
    (.deleteClient (sampleIP 1), .closed (some 10)), sampleAdd (sampleIP 1) 30]

theorem nat_bijection_returningClient : ∃ nt : NATTable UInt8,
    Runs (step sampleLocalAddr) anyEvent new returningClient nt ∧
      Bijection sampleLocalAddr returningClient nt := by
  have hreplay : replay (step sampleLocalAddr) anyEvent new (returningClient.map Prod.fst) =
      some (_, returningClient) := rfl
  have hdistinct : DistinctAddrs sampleLocalAddr returningClient := by
    unfold DistinctAddrs
    decide
  have hreadded : ¬ Readded returningClient := by
    change ¬ Readded ([] ++ [_] ++ [_] ++ [_] ++ [_])
    simp only [sampleAdd, readded_addClient_iff, readded_deleteClient_iff, not_readded_nil,
      present_addClient, present_deleteClient, present_nil]
    decide
  obtain ⟨run, -⟩ := runs_of_replay hreplay
  exact ⟨_, run, (nat_bijection_iff run hdistinct).mpr hreadded⟩

/-- A client that is added twice. -/
def doubledClient : NATTrace UInt8 :=
  [sampleAdd (sampleIP 1) 10, sampleAdd (sampleIP 1) 20]

/-- The address of a client's first node still leads to it, and not back. -/
theorem not_nat_bijection : ∃ nt : NATTable UInt8,
    Runs (step sampleLocalAddr) anyEvent new doubledClient nt ∧
      DistinctAddrs sampleLocalAddr doubledClient ∧
      nt.inbound.lookup (sampleLocalAddr 10) = some (sampleIP 1) ∧
      nt.outbound.lookup (sampleIP 1) = some (sampleLocalAddr 20) ∧
      ¬ Bijection sampleLocalAddr doubledClient nt := by
  have hreplay : replay (step sampleLocalAddr) anyEvent new (doubledClient.map Prod.fst) =
      some (_, doubledClient) := rfl
  obtain ⟨run, -⟩ := runs_of_replay hreplay
  refine ⟨_, run, by unfold DistinctAddrs; decide, rfl, rfl, fun h => ?_⟩
  have hback := (h.inverse (sampleIP 1) (sampleLocalAddr 10)).mpr rfl
  revert hback
  decide

end Sample

end NATTable

end Inet256.Ipv6
