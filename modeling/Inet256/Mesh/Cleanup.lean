import Inet256.Mesh.LinkMonitor

/-!
# Sightings that expire

A cleanup goes through the peers and removes the sightings that are too old.
What it tests after a peer is the number of peers and not of the sightings that
the peer has left.
-/

namespace Inet256.Multihoming

open Inet256.Foundation

/-! ## Ages -/

variable {K A τ : Type}

def expireAfter : Duration := 30 * second

/-- How old a sighting is, as times of the standard library tell. -/
def age (goTime : τ → Time) (now lastSeen : τ) : Duration :=
  (goTime now).sub (goTime lastSeen)

def tai64DeltaGt (goTime : τ → Time) (a b : τ) (d : Duration) : Bool :=
  decide (d < (goTime a).sub (goTime b))

/-- The monitor as it is made, for any times and any conversion of them. -/
def newConfig (keyForAddr : A → Bytes) (keyText : K → String) (tai64 : TAI64N τ)
    (goTime : τ → Time) : Config K A τ where
  keyForAddr := keyForAddr
  keyText := keyText
  tai64 := tai64
  expired now lastSeen := tai64DeltaGt goTime now lastSeen expireAfter

theorem not_expired_iff (keyForAddr : A → Bytes) (keyText : K → String) (tai64 : TAI64N τ)
    (goTime : τ → Time) (now lastSeen : τ) :
    (!(newConfig keyForAddr keyText tai64 goTime).expired now lastSeen) = true ↔
      age goTime now lastSeen ≤ expireAfter := by
  simp [newConfig, tai64DeltaGt, age]

namespace LinkMonitor

variable [DecidableEq K] {lm : LinkMonitor K A τ} {keyForAddr : A → Bytes} {keyText : K → String}
  {tai64 : TAI64N τ}

/-! ## The loop over the peers -/

theorem cleanupOnce_lookup (cfg : Config K A τ) (lm : LinkMonitor K A τ) {order : List K}
    (hnodup : order.Nodup) (now : τ) (k : K) :
    (lm.cleanupOnce cfg order now).sightings.lookup k =
      if k ∈ order then (lm.sightings.lookup k).map fun addrs =>
        addrs.filter fun _ lastSeen => !cfg.expired now lastSeen
      else lm.sightings.lookup k := by
  induction order generalizing lm with
  | nil => rfl
  | cons id order ih =>
      obtain ⟨hid, hnodup⟩ := List.nodup_cons.mp hnodup
      change ((lm.cleanupPeer cfg now id).cleanupOnce cfg order now).sightings.lookup k = _
      rw [ih _ hnodup, cleanupPeer_lookup]
      by_cases hsame : k = id
      · rw [if_pos hsame, hsame, if_neg hid, if_pos List.mem_cons_self]
      · simp only [hsame, List.mem_cons, false_or, ↓reduceIte]

/-- All peers are reached. -/
theorem cleanupOnce_lookup_of_ranges (cfg : Config K A τ) (lm : LinkMonitor K A τ) {order : List K}
    (hranges : lm.sightings.Ranges order) (now : τ) (k : K) :
    (lm.cleanupOnce cfg order now).sightings.lookup k =
      (lm.sightings.lookup k).map fun addrs =>
        addrs.filter fun _ lastSeen => !cfg.expired now lastSeen := by
  rw [cleanupOnce_lookup cfg lm hranges.nodup]
  split
  · rfl
  · next hmem =>
      rw [hranges.mem_iff, ← Option.isSome_iff_exists, Option.not_isSome_iff_eq_none] at hmem
      rw [hmem, Option.map_none]

/-! ## What a cleanup leaves -/

/-- Exactly the sightings that are not too old, at their times. -/
def KeepsYoung (goTime : τ → Time) (now : τ) (lm lm' : LinkMonitor K A τ) : Prop :=
  ∀ k ka t, (lm'.seen k).lookup ka = some t ↔
    (lm.seen k).lookup ka = some t ∧ age goTime now t ≤ expireAfter

/-- No peer is left without sightings. -/
def NoneEmpty (lm : LinkMonitor K A τ) : Prop :=
  ∀ k m, lm.sightings.lookup k = some m → ∃ ka t, m.lookup ka = some t

theorem keepsYoung_cleanupOnce {goTime : τ → Time} {now : τ} {order : List K}
    (hranges : lm.sightings.Ranges order) :
    KeepsYoung goTime now lm
      (lm.cleanupOnce (newConfig keyForAddr keyText tai64 goTime) order now) := by
  intro k ka t
  unfold seen
  rw [cleanupOnce_lookup_of_ranges _ lm hranges]
  cases lm.sightings.lookup k with
  | none => simp
  | some m =>
      rw [Option.map_some, Option.getD_some, Option.getD_some, GoMap.lookup_filter_iff,
        not_expired_iff]

/--
A cleanup removes the right sightings, and leaves no peer without one exactly if
every peer had one that is not too old.
-/
theorem cleanup_complete_iff {goTime : τ → Time} {now : τ} {order : List K}
    (hranges : lm.sightings.Ranges order) :
    KeepsYoung goTime now lm
      (lm.cleanupOnce (newConfig keyForAddr keyText tai64 goTime) order now) ∧
    ((lm.cleanupOnce (newConfig keyForAddr keyText tai64 goTime) order now).NoneEmpty ↔
      ∀ k m, lm.sightings.lookup k = some m →
        ∃ ka t, m.lookup ka = some t ∧ age goTime now t ≤ expireAfter) := by
  refine ⟨keepsYoung_cleanupOnce hranges, ?_⟩
  have hfilter : ∀ (m : GoMap Bytes τ) ka t,
      (m.filter fun _ lastSeen =>
        !(newConfig keyForAddr keyText tai64 goTime).expired now lastSeen).lookup ka =
        some t ↔ m.lookup ka = some t ∧ age goTime now t ≤ expireAfter := by
    intro m ka t
    rw [GoMap.lookup_filter_iff, not_expired_iff]
  constructor
  · intro h k m hm
    have hleft := h k _ (by rw [cleanupOnce_lookup_of_ranges _ lm hranges, hm, Option.map_some])
    simpa only [hfilter] using hleft
  · intro h k m hm
    rw [cleanupOnce_lookup_of_ranges _ lm hranges] at hm
    obtain ⟨m₀, hm₀, rfl⟩ := Option.map_eq_some_iff.mp hm
    simpa only [hfilter] using h k m₀ hm₀

/-! ### A peer that is not seen again -/

def sampleGoTime (t : Nat) : Time := ⟨t * second⟩

def sampleMonitor : Config Nat Bytes Nat :=
  newConfig id (fun _ => "peer") sampleTimes sampleGoTime

/-- Two peers at one address; the first is seen again elsewhere. -/
def sampleSeen : LinkMonitor Nat Bytes Nat :=
  ((new.mark sampleMonitor 1 [97] 10).mark sampleMonitor 2 [97] 30).mark sampleMonitor 1 [98] 40

theorem sampleSeen_run : Runs (step sampleMonitor) anyEvent new
    [(.mark 1 [97] 10, ()), (.mark 2 [97] 30, ()), (.mark 1 [98] 40, ())] sampleSeen :=
  .next (.next (.next .refl trivial rfl) trivial rfl) trivial rfl

def sampleOld : GoMap Bytes Nat := Finmap.insert [97] 10 ∅

def sampleFirst : GoMap Bytes Nat := sampleOld.insert [98] 40

def sampleSecond : GoMap Bytes Nat := Finmap.insert [97] 30 ∅

theorem sampleSeen_lookup (k : Nat) :
    sampleSeen.sightings.lookup k =
      if k = 1 then some sampleFirst else if k = 2 then some sampleSecond else none := by
  have hsightings : sampleSeen.sightings =
      ((((((∅ : GoMap Nat (GoMap Bytes Nat)).insert 1 ∅).insert 1 sampleOld).insert 2 ∅).insert 2
        sampleSecond).insert 1 sampleOld).insert 1 sampleFirst := rfl
  simp only [hsightings, GoMap.lookup_insert_eq, Finmap.lookup_empty]
  split
  · rfl
  · split <;> rfl

theorem sampleSeen_ranges : sampleSeen.sightings.Ranges [1, 2] where
  nodup := by decide
  mem_iff := by
    intro k
    rw [sampleSeen_lookup, List.mem_cons, List.mem_singleton]
    split
    · simp_all
    · split <;> simp_all

/-- The old sighting of the first peer goes, and both peers have one left. -/
theorem cleanup_complete_recent :
    KeepsYoung sampleGoTime 45 sampleSeen (sampleSeen.cleanupOnce sampleMonitor [1, 2] 45) ∧
      ¬ age sampleGoTime 45 10 ≤ expireAfter ∧ (sampleSeen.seen 1).lookup [97] = some 10 ∧
      (sampleSeen.cleanupOnce sampleMonitor [1, 2] 45).NoneEmpty := by
  refine ⟨(cleanup_complete_iff sampleSeen_ranges).1, by decide, rfl,
    (cleanup_complete_iff sampleSeen_ranges).2.mpr ?_⟩
  intro k m hm
  rw [sampleSeen_lookup] at hm
  split at hm
  · cases hm
    exact ⟨[98], 40, rfl, by decide⟩
  · split at hm
    · cases hm
      exact ⟨[97], 30, rfl, by decide⟩
    · cases hm

/-- Half a minute after its only sighting, the second peer is left with none. -/
theorem not_cleanup_complete : ∃ trace,
    Runs (step sampleMonitor) anyEvent new trace sampleSeen ∧
      sampleSeen.sightings.Ranges [1, 2] ∧
      ¬ (sampleSeen.cleanupOnce sampleMonitor [1, 2] 61).NoneEmpty := by
  refine ⟨_, sampleSeen_run, sampleSeen_ranges, fun h => ?_⟩
  have hleft := cleanupOnce_lookup_of_ranges sampleMonitor sampleSeen sampleSeen_ranges 61 2
  rw [sampleSeen_lookup, if_neg (by decide), if_pos rfl, Option.map_some] at hleft
  obtain ⟨ka, t, hka⟩ := h 2 _ hleft
  rw [GoMap.lookup_filter_iff] at hka
  rcases GoMap.lookup_insert_cases hka.1 with ⟨-, rfl⟩ | ⟨-, hold⟩
  · exact absurd hka.2 (by decide)
  · cases hold

end LinkMonitor

end Inet256.Multihoming
