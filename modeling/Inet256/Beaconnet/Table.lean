import Inet256.Beaconnet.Handlers

/-!
# What a routing table means

The table of a router is determined by the verified beacons it has received,
in order: the entry for an address is the first beacon among those with the
largest counter.  The same history decides which beacons are flooded on.
-/

namespace Inet256.Beaconnet

open Inet256.Foundation
open Inet256.Crypto

variable {P : Primitives}

/-! ## The first maximum of a list -/

def FirstMax {α : Type} (rank : α → Nat) (items : List α) (best : α) : Prop :=
  ∃ before after, items = before ++ best :: after ∧
    (∀ item ∈ before, rank item < rank best) ∧
    (∀ item ∈ after, rank item ≤ rank best)

namespace FirstMax

variable {α : Type} {rank : α → Nat} {items : List α} {best item : α}

theorem mem (h : FirstMax rank items best) : best ∈ items := by
  obtain ⟨before, after, rfl, -, -⟩ := h
  simp

theorem rank_le (h : FirstMax rank items best) (hitem : item ∈ items) :
    rank item ≤ rank best := by
  obtain ⟨before, after, rfl, hbefore, hafter⟩ := h
  rcases List.mem_append.mp hitem with hitem | hitem
  · exact (hbefore item hitem).le
  · rcases List.mem_cons.mp hitem with rfl | hitem
    · exact le_rfl
    · exact hafter item hitem

theorem concat_of_lt (h : ∀ other ∈ items, rank other < rank item) :
    FirstMax rank (items ++ [item]) item :=
  ⟨items, [], rfl, h, by simp⟩

theorem concat_of_le (h : FirstMax rank items best) (hle : rank item ≤ rank best) :
    FirstMax rank (items ++ [item]) best := by
  obtain ⟨before, after, rfl, hbefore, hafter⟩ := h
  refine ⟨before, after ++ [item], by simp, hbefore, ?_⟩
  intro other hother
  rcases List.mem_append.mp hother with hother | hother
  · exact hafter other hother
  · rw [List.mem_singleton.mp hother]
    exact hle

end FirstMax

/-! ## The beacons of a history -/

abbrev RouterTrace (P : Primitives) := List (RouterEvent × List (Effect P))

variable (J : JsonCodec Beacon)

def eventBeacon (P : Primitives) : RouterEvent → Option (Addr × VerifiedBeacon P)
  | .below sender payload => (readBeacon P J payload).toOption.map fun v => (sender, v)
  | .above _ _ => none
  | .heartbeat _ => none

def beaconsOf (origin : Addr) (trace : RouterTrace P) : List (Addr × VerifiedBeacon P) :=
  (trace.filterMap fun entry => eventBeacon J P entry.1).filter fun received =>
    received.2.origin = origin

def rankOf (received : Addr × VerifiedBeacon P) : Nat := received.2.counter.toNat

theorem beaconsOf_concat (origin : Addr) (trace : RouterTrace P) (event : RouterEvent)
    (effects : List (Effect P)) :
    beaconsOf J origin (trace ++ [(event, effects)]) =
      beaconsOf J origin trace ++
        ((eventBeacon J P event).toList.filter fun received =>
          received.2.origin = origin) := by
  unfold beaconsOf
  rw [List.filterMap_append, List.filter_append]
  cases h : eventBeacon J P event <;> simp [h]

theorem origin_of_mem_beaconsOf {origin : Addr} {trace : RouterTrace P}
    {received : Addr × VerifiedBeacon P} (h : received ∈ beaconsOf J origin trace) :
    received.2.origin = origin := by
  simpa using (List.mem_filter.mp h).2

theorem newID_of_mem_beaconsOf {origin : Addr} {trace : RouterTrace P}
    {received : Addr × VerifiedBeacon P} (h : received ∈ beaconsOf J origin trace) :
    newID received.2.key = .ok received.2.origin := by
  obtain ⟨entry, -, hentry⟩ := List.mem_filterMap.mp (List.mem_filter.mp h).1
  unfold eventBeacon at hentry
  split at hentry
  · obtain ⟨v, hv, rfl⟩ := Option.map_eq_some_iff.mp hentry
    obtain ⟨body, -, -, -, -, hid⟩ := readBeacon_eq_ok.mp (toOption_eq_some.mp hv)
    exact hid
  · cases hentry
  · cases hentry

/-! ## The table is the history's first maximum -/

def PeerState.ofReceived (received : Addr × VerifiedBeacon P) : PeerState P where
  next := received.1
  counter := received.2.counter
  publicKey := received.2.key

/-- An address without beacons is unknown; any other has its first newest beacon. -/
def TableOf (trace : RouterTrace P) (r : Router P) : Prop :=
  ∀ origin, (beaconsOf J origin trace = [] ∧ r.lookupPeerState origin = none) ∨
    ∃ best, FirstMax rankOf (beaconsOf J origin trace) best ∧
      r.lookupPeerState origin = some (PeerState.ofReceived best)

variable {J}

theorem TableOf.isNews_iff {trace : RouterTrace P} {r : Router P}
    (table : TableOf J trace r) (v : VerifiedBeacon P) :
    r.isNews v = true ↔
      ∀ received ∈ beaconsOf J v.origin trace, received.2.counter < v.counter := by
  unfold Router.isNews
  rcases table v.origin with ⟨hnone, hlookup⟩ | ⟨best, hbest, hlookup⟩
  · rw [hlookup, hnone]
    simp
  · rw [hlookup]
    change decide (best.2.counter < v.counter) = true ↔ _
    rw [decide_eq_true_iff]
    constructor
    · intro hlt received hreceived
      have hle : rankOf received ≤ rankOf best := hbest.rank_le hreceived
      rw [UInt64.lt_iff_toNat_lt] at hlt ⊢
      exact lt_of_le_of_lt hle hlt
    · intro h
      exact h best hbest.mem

theorem TableOf.keep {trace : RouterTrace P} {r r' : Router P} {event : RouterEvent}
    {effects : List (Effect P)} (table : TableOf J trace r)
    (hevent : eventBeacon J P event = none)
    (hlookup : ∀ origin, r'.lookupPeerState origin = r.lookupPeerState origin) :
    TableOf J (trace ++ [(event, effects)]) r' := by
  intro origin
  rw [beaconsOf_concat, hevent, hlookup]
  simpa using table origin

theorem TableOf.learn {trace : RouterTrace P} {r : Router P} {sender : Addr}
    {payload : Bytes} {v : VerifiedBeacon P} {effects : List (Effect P)}
    (table : TableOf J trace r) (hread : readBeacon P J payload = .ok v) :
    TableOf J (trace ++ [(.below sender payload, effects)]) (r.learn sender v) := by
  intro origin
  have hevent : eventBeacon J P (.below sender payload) = some (sender, v) := by
    simp [eventBeacon, hread, Except.toOption]
  rw [beaconsOf_concat, hevent, Router.lookup_learn]
  by_cases horigin : v.origin = origin
  · subst horigin
    simp only [Option.toList_some, List.filter_cons, decide_true, if_true,
      List.filter_nil, and_true]
    right
    by_cases hnews : r.isNews v = true
    · -- every earlier counter is smaller, so this beacon becomes the first maximum
      rw [if_pos hnews]
      refine ⟨(sender, v), FirstMax.concat_of_lt fun received hreceived => ?_, rfl⟩
      exact UInt64.lt_iff_toNat_lt.mp ((table.isNews_iff v).mp hnews received hreceived)
    · rw [if_neg hnews]
      rcases table v.origin with ⟨hnone, hlookup⟩ | ⟨best, hbest, hlookup⟩
      · exact absurd ((table.isNews_iff v).mpr (by simp [hnone])) hnews
      · refine ⟨best, hbest.concat_of_le ?_, hlookup⟩
        rw [Router.isNews, hlookup] at hnews
        simp only [decide_eq_true_eq, UInt64.lt_iff_toNat_lt, not_lt] at hnews
        exact hnews
  · have hne : ¬ (r.isNews v = true ∧ origin = v.origin) := fun h => horigin h.2.symm
    rw [if_neg hne]
    simpa [horigin] using table origin

theorem TableOf.step {trace : RouterTrace P} {r r' : Router P} {event : RouterEvent}
    {effects : List (Effect P)} (table : TableOf J trace r) (hclean : r.noCleanup event)
    (hstep : r.step J event = some (r', effects)) :
    TableOf J (trace ++ [(event, effects)]) r' := by
  rcases Router.lookup_step hclean hstep with
    ⟨sender, payload, v, rfl, hread, rfl⟩ | ⟨hother, hlookup⟩
  · exact table.learn hread
  · refine table.keep ?_ hlookup
    cases event with
    | below sender payload =>
        cases hread : readBeacon P J payload with
        | ok v => exact absurd hread (hother sender payload v rfl)
        | error fault => simp [eventBeacon, hread, Except.toOption]
    | above dst data => rfl
    | heartbeat now => rfl

theorem reset_lookup {base : RouterBase} {params : RouterParams P} {r : Router P}
    (h : base.reset params = .ok r) (origin : Addr) : r.lookupPeerState origin = none := by
  obtain ⟨localID, -, h⟩ := Go.bind_eq_ok.mp h
  obtain ⟨ourBeacon, -, h⟩ := Go.bind_eq_ok.mp h
  cases h
  exact Finmap.lookup_empty origin

theorem tableOf_run {base : RouterBase} {params : RouterParams P} {r₀ r : Router P}
    {trace : RouterTrace P} (hreset : base.reset params = .ok r₀)
    (run : Runs (Router.step J) Router.noCleanup r₀ trace r) : TableOf J trace r := by
  refine run.history (motive := TableOf J) ?_ ?_
  · intro origin
    exact Or.inl ⟨rfl, reset_lookup hreset origin⟩
  · intro trace state event state' seen _ table hclean hstep
    exact table.step hclean hstep

/-! ## Which beacons are flooded on -/

def sendsTo (peer : Addr) (effects : List (Effect P)) : List Bytes :=
  effects.filterMap fun effect =>
    match effect with
    | .send dst payload => if dst = peer then some payload else none
    | _ => none

def floodPayload (J : JsonCodec Beacon) (r : Router P) (v : VerifiedBeacon P) : Bytes :=
  (Header.make r.localID broadcastAddr typeBeacon).toList ++ J.marshal v.beacon

@[simp] theorem sendsTo_append (peer : Addr) (first second : List (Effect P)) :
    sendsTo peer (first ++ second) = sendsTo peer first ++ sendsTo peer second :=
  List.filterMap_append

theorem sendsTo_map_send (peer : Addr) (payload : Bytes) {targets : List Addr}
    (hnodup : targets.Nodup) :
    sendsTo peer (targets.map fun target => (Effect.send target payload : Effect P)) =
      if peer ∈ targets then [payload] else [] := by
  induction targets with
  | nil => rfl
  | cons target targets ih =>
      obtain ⟨hfresh, hnodup⟩ := List.nodup_cons.mp hnodup
      have hrest := ih hnodup
      simp only [sendsTo, List.map_cons, List.filterMap_cons] at hrest ⊢
      by_cases htarget : target = peer
      · subst htarget
        rw [if_pos rfl, hrest, if_neg hfresh, if_pos (by simp)]
      · rw [if_neg htarget, hrest]
        simp [Ne.symm htarget]

theorem sendsTo_broadcast (r : Router P) {peer exclude : Addr} (hpeer : peer ≠ exclude)
    (mtype : UInt8) (body : Bytes) :
    sendsTo peer (r.broadcast exclude mtype body) =
      if peer ∈ r.peers.list then
        [(Header.make r.localID broadcastAddr mtype).toList ++ body]
      else [] := by
  unfold Router.broadcast
  rw [sendsTo_map_send _ _ (r.peers.nodup.filter _)]
  simp [hpeer]

theorem sendsTo_beaconEffects (r : Router P) {sender peer : Addr} {v : VerifiedBeacon P}
    (hdst : v.hdr.getDst = broadcastAddr) (hpeer : peer ≠ sender) :
    sendsTo peer (r.beaconEffects J sender v) =
      if peer ∈ r.peers.list ∧ r.isNews v = true then [floodPayload J r v] else [] := by
  have hreply : sendsTo peer (if r.isFirst v = true then
      [(r.learn sender v).send sender v.hdr.getSrc typeBeacon
        (J.marshal (r.learn sender v).ourBeacon)] else []) = [] := by
    split <;> simp [sendsTo, Router.send, Ne.symm hpeer]
  have hreport : sendsTo peer [Effect.onAddr v.origin,
      Effect.onPublicKey v.origin v.key] = [] := rfl
  unfold Router.beaconEffects
  simp only [sendsTo_append, hdst, ne_eq, not_true_eq_false, if_false, and_true,
    hreply, hreport, List.append_nil]
  by_cases hnews : r.isNews v = true
  · rw [if_pos hnews, sendsTo_broadcast _ hpeer]
    simp [hnews, floodPayload]
  · simp [hnews, sendsTo]

theorem sameNode_run {allowed : Router P → RouterEvent → Prop} {r₀ r : Router P}
    {trace : RouterTrace P} (run : Runs (Router.step J) allowed r₀ trace r) :
    Router.SameNode r₀ r :=
  run.invariant (motive := Router.SameNode r₀) (Router.SameNode.refl r₀)
    fun _ _ _ _ same _ hstep => same.trans (Router.sameNode_step hstep)

/-- The entry floods a beacon on to a peer that did not send it. -/
def Floods (J : JsonCodec Beacon) (r : Router P)
    (entry : RouterEvent × List (Effect P)) (v : VerifiedBeacon P) (peer : Addr) : Prop :=
  ∃ sender payload, entry.1 = .below sender payload ∧ readBeacon P J payload = .ok v ∧
    v.hdr.getDst = broadcastAddr ∧ peer ≠ sender ∧
    floodPayload J r v ∈ sendsTo peer entry.2

theorem sendsTo_of_run {base : RouterBase} {params : RouterParams P} {r₀ r : Router P}
    {before after : RouterTrace P} {sender : Addr} {payload : Bytes}
    {effects : List (Effect P)} {v : VerifiedBeacon P}
    (hreset : base.reset params = .ok r₀)
    (run : Runs (Router.step J) Router.noCleanup r₀
      (before ++ (.below sender payload, effects) :: after) r)
    (hread : readBeacon P J payload = .ok v) (hdst : v.hdr.getDst = broadcastAddr)
    {peer : Addr} (hpeer : peer ≠ sender) :
    sendsTo peer effects =
      if peer ∈ r₀.peers.list ∧ ∀ received ∈ beaconsOf J v.origin before,
          received.2.counter < v.counter
      then [floodPayload J r₀ v] else [] := by
  obtain ⟨here, there, hrun, -, hstep, -⟩ := run.middle
  have table := tableOf_run hreset hrun
  have same := sameNode_run hrun
  have hbelow := toOption_eq_some.mp hstep
  rw [here.handleBelow_beacon sender hread] at hbelow
  cases hbelow
  rw [sendsTo_beaconEffects here hdst hpeer]
  simp only [table.isNews_iff, same.peers, floodPayload, same.localID]

theorem mem_beaconsOf {before after : RouterTrace P} {sender : Addr} {payload : Bytes}
    {effects : List (Effect P)} {v : VerifiedBeacon P}
    (hread : readBeacon P J payload = .ok v) :
    (sender, v) ∈ beaconsOf J v.origin
      (before ++ (.below sender payload, effects) :: after) := by
  refine List.mem_filter.mpr ⟨List.mem_filterMap.mpr
    ⟨(.below sender payload, effects), by simp, ?_⟩, by simp⟩
  simp [eventBeacon, hread, Except.toOption]

/-! ## The meaning of a run -/

/--
The table and the flooding of a run, read off the beacons it received: which
addresses are known, which beacon each entry comes from, and which beacons went
on to the other peers.
-/
structure TableMeaning (J : JsonCodec Beacon) (r₀ : Router P) (trace : RouterTrace P)
    (r : Router P) : Prop where
  known_iff : ∀ origin, (∃ ps, r.lookupPeerState origin = some ps) ↔
    ∃ received, received ∈ beaconsOf J origin trace
  newest : ∀ origin ps, r.lookupPeerState origin = some ps →
    newID ps.publicKey = .ok origin ∧
    ∃ best, FirstMax rankOf (beaconsOf J origin trace) best ∧
      ps.counter = best.2.counter ∧ ps.next = best.1
  floods_iff : ∀ before sender payload effects after v,
    trace = before ++ (.below sender payload, effects) :: after →
    readBeacon P J payload = .ok v → v.hdr.getDst = broadcastAddr →
    ∀ peer, peer ≠ sender → sendsTo peer effects =
      if peer ∈ r₀.peers.list ∧ ∀ received ∈ beaconsOf J v.origin before,
          received.2.counter < v.counter
      then [floodPayload J r₀ v] else []
  floods_once : ∀ before first middle second after v w peer peer',
    trace = before ++ first :: (middle ++ second :: after) →
    Floods J r₀ first v peer → Floods J r₀ second w peer' →
    (v.origin, v.counter) ≠ (w.origin, w.counter)

theorem tableMeaning_of_run {base : RouterBase} {params : RouterParams P}
    {r₀ r : Router P} {trace : RouterTrace P} (hreset : base.reset params = .ok r₀)
    (run : Runs (Router.step J) Router.noCleanup r₀ trace r) :
    TableMeaning J r₀ trace r where
  known_iff := by
    intro origin
    rcases tableOf_run hreset run origin with ⟨hnone, hlookup⟩ | ⟨best, hbest, hlookup⟩
    · simp [hnone, hlookup]
    · exact ⟨fun _ => ⟨best, hbest.mem⟩, fun _ => ⟨_, hlookup⟩⟩
  newest := by
    intro origin ps hps
    rcases tableOf_run hreset run origin with ⟨-, hlookup⟩ | ⟨best, hbest, hlookup⟩
    · rw [hlookup] at hps
      cases hps
    · rw [hlookup] at hps
      cases hps
      refine ⟨?_, best, hbest, rfl, rfl⟩
      rw [← origin_of_mem_beaconsOf J hbest.mem]
      exact newID_of_mem_beaconsOf J hbest.mem
  floods_iff := by
    rintro before sender payload effects after v rfl hread hdst peer hpeer
    exact sendsTo_of_run hreset run hread hdst hpeer
  floods_once := by
    rintro before ⟨_, effects⟩ middle ⟨_, effects'⟩ after v w peer peer' rfl
      ⟨sender, payload, rfl, hread, -, -, -⟩
      ⟨sender', payload', rfl, hread', hdst', hpeer', hsent'⟩ heq
    obtain ⟨horigin, hcounter⟩ := Prod.mk.inj heq
    rw [List.append_cons, ← List.append_assoc] at run
    rw [sendsTo_of_run hreset run hread' hdst' hpeer'] at hsent'
    split at hsent'
    · next hnew =>
        -- the first flooded beacon is in the history of the second
        have hmem : (sender, v) ∈ beaconsOf J w.origin
            (before ++ [(.below sender payload, effects)] ++ middle) := by
          rw [← horigin, ← List.append_cons]
          exact mem_beaconsOf hread
        have hlt := hnew.2 _ hmem
        rw [hcounter] at hlt
        exact absurd hlt (UInt64.lt_irrefl _)
    · cases hsent'

/-- The known addresses and their counters depend on the set of beacons alone. -/
theorem counters_eq_of_same_beacons {base base' : RouterBase}
    {params params' : RouterParams P} {r₀ r r₀' r' : Router P}
    {trace trace' : RouterTrace P} (hreset : base.reset params = .ok r₀)
    (run : Runs (Router.step J) Router.noCleanup r₀ trace r)
    (hreset' : base'.reset params' = .ok r₀')
    (run' : Runs (Router.step J) Router.noCleanup r₀' trace' r')
    (hsame : ∀ origin counter,
      (∃ received ∈ beaconsOf J origin trace, received.2.counter = counter) ↔
        ∃ received ∈ beaconsOf J origin trace', received.2.counter = counter)
    (origin : Addr) :
    (r.lookupPeerState origin).map PeerState.counter =
      (r'.lookupPeerState origin).map PeerState.counter := by
  rcases tableOf_run hreset run origin with ⟨hnone, hlookup⟩ | ⟨best, hbest, hlookup⟩ <;>
    rcases tableOf_run hreset' run' origin with
      ⟨hnone', hlookup'⟩ | ⟨best', hbest', hlookup'⟩
  · rw [hlookup, hlookup']
  · obtain ⟨received, hmem, -⟩ := (hsame origin _).mpr ⟨best', hbest'.mem, rfl⟩
    rw [hnone] at hmem
    cases hmem
  · obtain ⟨received, hmem, -⟩ := (hsame origin _).mp ⟨best, hbest.mem, rfl⟩
    rw [hnone'] at hmem
    cases hmem
  · obtain ⟨received, hmem, hcounter⟩ := (hsame origin _).mpr ⟨best', hbest'.mem, rfl⟩
    obtain ⟨received', hmem', hcounter'⟩ := (hsame origin _).mp ⟨best, hbest.mem, rfl⟩
    have hle : best'.2.counter.toNat ≤ best.2.counter.toNat := by
      rw [← hcounter]
      exact hbest.rank_le hmem
    have hge : best.2.counter.toNat ≤ best'.2.counter.toNat := by
      rw [← hcounter']
      exact hbest'.rank_le hmem'
    rw [hlookup, hlookup']
    simp only [Option.map_some, PeerState.ofReceived]
    exact congrArg some (UInt64.toNat_inj.mp (le_antisymm hge hle))

/--
Routing tables and flooding after any run of one router without a cleanup: the
meaning of the table, and its independence of the order and the repetition of
the beacons.
-/
theorem routing_table_meaning {base : RouterBase} {params : RouterParams P}
    {r₀ r : Router P} {trace : RouterTrace P} (hreset : base.reset params = .ok r₀)
    (run : Runs (Router.step J) Router.noCleanup r₀ trace r) :
    TableMeaning J r₀ trace r ∧
    ∀ (base' : RouterBase) (params' : RouterParams P) (r₀' r' : Router P)
      (trace' : RouterTrace P), base'.reset params' = .ok r₀' →
      Runs (Router.step J) Router.noCleanup r₀' trace' r' →
      (∀ origin counter,
        (∃ received ∈ beaconsOf J origin trace, received.2.counter = counter) ↔
          ∃ received ∈ beaconsOf J origin trace', received.2.counter = counter) →
      ∀ origin, (r.lookupPeerState origin).map PeerState.counter =
        (r'.lookupPeerState origin).map PeerState.counter :=
  ⟨tableMeaning_of_run hreset run, fun _ _ _ _ _ hreset' run' hsame origin =>
    counters_eq_of_same_beacons hreset run hreset' run' hsame origin⟩

/-! ### Beacons of a neighbour on two ways -/

def sampleBroadcast (sender : UInt8) (b : Beacon) : RouterEvent :=
  .below (sampleID sender)
    ((Header.make (sampleID sender) broadcastAddr typeBeacon).toList ++ sampleJson.marshal b)

def sampleEvent : RouterEvent := sampleBroadcast 2 (sampleBeacon 2)

theorem sampleNeighbours_nodup : [sampleID 2, sampleID 3].Nodup := by
  decide

def sampleNeighbours : PeerSet := ⟨_, sampleNeighbours_nodup⟩

/-- The beacon comes again from the other neighbour, then a newer one, then the old one. -/
def sampleBeacons : List RouterEvent :=
  [sampleEvent, sampleBroadcast 3 (sampleBeacon 2),
    sampleBroadcast 3 { sampleBeacon 2 with counter := 6 }, sampleEvent]

/-- How much is sent to the two neighbours. -/
def sampleSends (trace : RouterTrace samplePrimitives) : List (Nat × Nat) :=
  trace.map fun entry =>
    ((sendsTo (sampleID 2) entry.2).length, (sendsTo (sampleID 3) entry.2).length)

/-- The first and the third beacon are flooded; the first is also answered. -/
theorem routing_table_meaning_after_beacons :
    ∃ trace r, trace.map Prod.fst = sampleBeacons ∧
      Runs (Router.step sampleJson) Router.noCleanup (sampleRouter 1 sampleNeighbours) trace r ∧
      sampleSends trace = [(1, 1), (0, 0), (1, 0), (0, 0)] ∧
      (r.lookupPeerState (sampleID 2)).map (fun ps => (ps.next, ps.counter)) =
        some (sampleID 3, 6) ∧
      TableMeaning sampleJson (sampleRouter 1 sampleNeighbours) trace r := by
  have hreplay : (replay (Router.step sampleJson) Router.noCleanup
      (sampleRouter 1 sampleNeighbours) sampleBeacons).map (fun result =>
        (sampleSends result.2,
          (result.1.lookupPeerState (sampleID 2)).map fun ps => (ps.next, ps.counter))) =
      some ([(1, 1), (0, 0), (1, 0), (0, 0)], some (sampleID 3, 6)) := by
    decide +kernel
  obtain ⟨trace, r, hevents, run, hseen⟩ := exists_run_of_map hreplay
  obtain ⟨hsends, hroute⟩ := Prod.mk.inj hseen
  exact ⟨trace, r, hevents, run, hsends, hroute,
    (routing_table_meaning (sampleRouter_reset 1 _) run).1⟩

end Inet256.Beaconnet
