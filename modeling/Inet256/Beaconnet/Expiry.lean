import Inet256.Beaconnet.Table

/-!
# Routes that expire

A cleanup drops the routes whose last beacon is too old.  A heartbeat starts it
only when the last cleanup is ahead of the heartbeat, and not when it lies
behind.
-/

namespace Inet256.Beaconnet

open Inet256.Foundation
open Inet256.Crypto

variable {P : Primitives} {J : JsonCodec Beacon} {r r' r₀ : Router P} {now : Time}

/-- How long before a time the beacon of a route was made. -/
def PeerState.age (ps : PeerState P) (now : Time) : Duration :=
  now.unixNano.toNat - ps.counter.toNat

namespace Router

/-- The second router has the routes of the first that are not too old. -/
def Expired (r r' : Router P) (now : Time) : Prop :=
  ∀ dst ps, r'.lookupPeerState dst = some ps ↔
    r.lookupPeerState dst = some ps ∧ ps.age now ≤ r.peerStateTTL

/-! ## A cleanup -/

/-! ## A heartbeat that does not clean up -/

theorem not_cleanupDue (httl : 0 < r.peerStateTTL)
    (hlast : r.lastCleanup.nanos ≤ now.nanos) : ¬ r.cleanupDue now :=
  not_le.mpr ((Time.sub_nonpos_of_le hlast).trans_lt httl)

theorem lastCleanup_le_of_due (httl : 0 < r.peerStateTTL)
    (hdue : r.peerStateTTL ≤ now.sub r.lastCleanup) : r.lastCleanup.nanos ≤ now.nanos := by
  by_contra hlt
  exact absurd (hdue.trans (Time.sub_nonpos_of_le (le_of_not_ge hlt))) (not_le.mpr httl)

/-- What a heartbeat leaves when the last cleanup is not ahead of it. -/
theorem heartbeat_of_not_due {effects : List (Effect P)} (hdue : ¬ r.cleanupDue now)
    (h : r.heartbeat J now = .ok (r', effects)) :
    r'.peerStates = r.peerStates ∧ r'.lastCleanup = r.lastCleanup := by
  have hclean := cleanupIfDue_of_not hdue
  rcases heartbeat_cases h with ⟨rfl, -⟩ | ⟨b, -, rfl, -⟩
  · rw [hclean]
    exact ⟨rfl, rfl⟩
  · rw [hclean]
    exact ⟨rfl, rfl⟩

theorem peerStateTTL_step {event : RouterEvent} {effects : List (Effect P)}
    (h : r.step J event = some (r', effects)) : r'.peerStateTTL = r.peerStateTTL := by
  have hclean : ∀ now, (r.cleanupIfDue now).peerStateTTL = r.peerStateTTL := by
    intro now
    unfold cleanupIfDue
    split <;> rfl
  rcases step_cases h with ⟨sender, -, v, -, -, rfl, -⟩ | ⟨-, -, -, -, rfl, -⟩ |
    ⟨-, -, -, rfl, -⟩ | ⟨now, -, hbeat⟩
  · rw [learn_toRouterBase]
  · rfl
  · rfl
  · rcases heartbeat_cases hbeat with ⟨rfl, -⟩ | ⟨b, -, rfl, -⟩
    · exact hclean now
    · exact hclean now

theorem peerStateTTL_of_run {params : RouterParams P} {trace : RouterTrace P}
    (hreset : newRouter.reset params = .ok r₀) (run : Runs (step J) anyEvent r₀ trace r) :
    r.peerStateTTL = 30 * second := by
  refine run.invariant (motive := fun r => r.peerStateTTL = 30 * second) ?_ ?_
  · obtain ⟨_, -, hreset⟩ := Go.bind_eq_ok.mp hreset
    obtain ⟨_, -, hreset⟩ := Go.bind_eq_ok.mp hreset
    cases hreset
    rfl
  · intro r event r' effects hr _ hstep
    rw [peerStateTTL_step hstep, hr]

/-! ## Routes that are kept -/

/-- No heartbeat before a given time. -/
def notBefore (now : Time) (_ : Router P) : RouterEvent → Prop
  | .heartbeat later => now.nanos ≤ later.nanos
  | .below _ _ => True
  | .above _ _ => True

/-- The last cleanup stays behind the heartbeats, and the route in the table. -/
def Keeps (now : Time) (dst : Addr) (r : Router P) : Prop :=
  0 < r.peerStateTTL ∧ r.lastCleanup.nanos ≤ now.nanos ∧ (r.lookupPeerState dst).isSome

theorem Keeps.step {dst : Addr} {event : RouterEvent} {effects : List (Effect P)}
    (keeps : Keeps now dst r) (hallowed : notBefore now r event)
    (h : r.step J event = some (r', effects)) : Keeps now dst r' := by
  obtain ⟨httl, hlast, hroute⟩ := keeps
  refine ⟨by rwa [peerStateTTL_step h], ?_⟩
  rcases step_cases h with ⟨sender, -, v, -, -, rfl, -⟩ | ⟨-, -, -, -, rfl, -⟩ |
    ⟨-, -, -, rfl, -⟩ | ⟨later, rfl, hbeat⟩
  · rw [lookup_learn, learn_toRouterBase]
    refine ⟨hlast, ?_⟩
    split
    · exact Option.isSome_some
    · exact hroute
  · exact ⟨hlast, hroute⟩
  · exact ⟨hlast, hroute⟩
  · have hdue := not_cleanupDue httl (hlast.trans hallowed)
    obtain ⟨hstates, hcleanup⟩ := heartbeat_of_not_due hdue hbeat
    rw [lookupPeerState, hstates, hcleanup]
    exact ⟨hlast, hroute⟩

/--
At a heartbeat that is due for a cleanup, the routes expire exactly if none of
them is too old; every route is kept from then on.
-/
theorem routes_expire_iff {params : RouterParams P} {trace : RouterTrace P}
    {effects : List (Effect P)} (hreset : newRouter.reset params = .ok r₀)
    (run : Runs (step J) anyEvent r₀ trace r)
    (hdue : r.peerStateTTL ≤ now.sub r.lastCleanup)
    (hbeat : r.heartbeat J now = .ok (r', effects)) :
    (r.Expired r' now ↔
      ∀ dst ps, r.lookupPeerState dst = some ps → ps.age now ≤ r.peerStateTTL) ∧
    ∀ trace' r'', Runs (step J) (notBefore now) r' trace' r'' →
      ∀ dst ps, r.lookupPeerState dst = some ps → ∃ ps', r''.lookupPeerState dst = some ps' := by
  have httl : 0 < r.peerStateTTL := by
    rw [peerStateTTL_of_run hreset run]
    decide
  have hlast := lastCleanup_le_of_due httl hdue
  obtain ⟨hstates, hcleanup⟩ := heartbeat_of_not_due (not_cleanupDue httl hlast) hbeat
  have hlookup : ∀ dst, r'.lookupPeerState dst = r.lookupPeerState dst := by
    intro dst
    rw [lookupPeerState, hstates, lookupPeerState]
  constructor
  · simp only [Expired, hlookup, iff_self_and]
  · intro trace' r'' run' dst ps hps
    have hbeatStep : r.step J (.heartbeat now) = some (r', effects) :=
      toOption_eq_some.mpr hbeat
    have keeps : Keeps now dst r' := by
      refine ⟨by rwa [peerStateTTL_step hbeatStep], by rwa [hcleanup], ?_⟩
      rw [hlookup, hps, Option.isSome_some]
    have hkept := run'.invariant keeps fun _ _ _ _ keeps hallowed hstep =>
      keeps.step hallowed hstep
    exact Option.isSome_iff_exists.mp hkept.2.2

section Sample

def sampleFirstRouter : Router samplePrimitives := sampleRouter 1 sampleNeighbour

theorem routes_expire_fresh : ∃ trace r r' effects,
    trace.map Prod.fst = [sampleEvent] ∧
      Runs (step sampleJson) anyEvent sampleFirstRouter trace r ∧
      r.heartbeat sampleJson sampleNow = .ok (r', effects) ∧ r.Expired r' sampleNow := by
  have hread : (readBeacon samplePrimitives sampleJson
      ((Header.make (sampleID 2) broadcastAddr typeBeacon).toList ++
        sampleJson.marshal (sampleBeacon 2))).toOption.map VerifiedBeacon.counter = some 5 := by
    decide +kernel
  have hbeats : ((sampleFirstRouter.step sampleJson sampleEvent).bind fun next =>
      (next.1.heartbeat sampleJson sampleNow).toOption).isSome = true := by decide +kernel
  obtain ⟨v, hv, hcounter⟩ := Option.map_eq_some_iff.mp hread
  have hbelow := sampleFirstRouter.handleBelow_beacon (sampleID 2) (toOption_eq_some.mp hv)
  have hstep : sampleFirstRouter.step sampleJson sampleEvent =
      some (sampleFirstRouter.learn (sampleID 2) v,
        sampleFirstRouter.beaconEffects sampleJson (sampleID 2) v) := by
    rw [sampleEvent, sampleBroadcast, step, hbelow]
    rfl
  rw [hstep, Option.bind_some] at hbeats
  obtain ⟨⟨r', effects⟩, hbeat⟩ := Option.isSome_iff_exists.mp hbeats
  have run : Runs (step sampleJson) anyEvent _ _ _ := Runs.single trivial hstep
  refine ⟨_, _, r', effects, rfl, run, toOption_eq_some.mp hbeat, ?_⟩
  refine (routes_expire_iff (sampleRouter_reset 1 _) run ?_ (toOption_eq_some.mp hbeat)).1.mpr ?_
  · rw [learn_toRouterBase]
    decide
  · intro dst ps hps
    have hfresh : ps.counter = 5 := by
      rw [lookup_learn] at hps
      split at hps
      · cases hps
        exact hcounter
      · cases hps
    rw [PeerState.age, hfresh, learn_toRouterBase]
    decide

/-- Half a minute and a second after the beacon of `sampleEvent`. -/
def sampleLate : Time := ⟨sampleNow.nanos + 31 * second⟩

theorem route_not_expired : ∃ trace r r' effects,
    trace.map Prod.fst = [sampleEvent] ∧
      Runs (step sampleJson) anyEvent sampleFirstRouter trace r ∧
      r.peerStateTTL ≤ sampleLate.sub r.lastCleanup ∧
      r.heartbeat sampleJson sampleLate = .ok (r', effects) ∧ ¬ r.Expired r' sampleLate := by
  have hreplay : (replay (step sampleJson) anyEvent sampleFirstRouter [sampleEvent]).map
      (fun result => (result.1.peerStateTTL,
        decide (result.1.peerStateTTL ≤ sampleLate.sub result.1.lastCleanup),
        (result.1.heartbeat sampleJson sampleLate).toOption.map fun beaten =>
          (beaten.1.lookupPeerState (sampleID 2)).map PeerState.counter)) =
      some (30 * second, true, some (some 5)) := by decide +kernel
  obtain ⟨trace, r, hevents, run, hseen⟩ := exists_run_of_map hreplay
  simp only [Prod.mk.injEq, decide_eq_true_iff, Option.map_eq_some_iff] at hseen
  obtain ⟨httl, hdue, ⟨r', effects⟩, hbeat, ps, hps, hcounter⟩ := hseen
  refine ⟨trace, r, r', effects, hevents, run, hdue, toOption_eq_some.mp hbeat, fun h => ?_⟩
  have hage := ((h (sampleID 2) ps).mp hps).2
  rw [PeerState.age, hcounter, httl] at hage
  revert hage
  decide

end Sample

end Router

end Inet256.Beaconnet
