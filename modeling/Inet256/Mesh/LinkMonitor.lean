import Inet256.Foundation.Runs
import Inet256.Internal.Peers

/-!
# The link monitor

The monitor remembers when each peer was last seen at which address.  Addresses
are kept once, under their text, while sightings are kept per peer; both grow
when a peer is marked, and only sightings expire.
-/

namespace Inet256.Multihoming

open Inet256.Foundation

/-! ## Times -/

/-- What is relied on of `tai64`: the zero value of its times, and a strict order of them. -/
structure TAI64N (τ : Type) where
  zero : τ
  after : τ → τ → Bool
  after_irrefl : ∀ t, after t t = false
  after_trans : ∀ t u v, after t u = true → after u v = true → after t v = true

/-! ## The monitor -/

/-- The text of an address and of a peer's key, the times, and when a sighting has expired. -/
structure Config (K A τ : Type) where
  keyForAddr : A → Bytes
  keyText : K → String
  tai64 : TAI64N τ
  expired : τ → τ → Bool

structure LinkMonitor (K A τ : Type) where
  sightings : GoMap K (GoMap Bytes τ)
  addrs : GoMap Bytes A

namespace LinkMonitor

variable {K A τ : Type} [DecidableEq K]

def new : LinkMonitor K A τ := ⟨∅, ∅⟩

/-- A map that is not there reads as an empty one. -/
def seen (lm : LinkMonitor K A τ) (k : K) : GoMap Bytes τ := (lm.sightings.lookup k).getD ∅

def mark (cfg : Config K A τ) (lm : LinkMonitor K A τ) (k : K) (a : A) (t : τ) :
    LinkMonitor K A τ :=
  let m := lm.seen k
  let sightings := lm.sightings.insert k m
  let ka := cfg.keyForAddr a
  let current := (m.lookup ka).getD cfg.tai64.zero
  if cfg.tai64.after t current then
    { sightings := sightings.insert k (m.insert ka t), addrs := lm.addrs.insert ka a }
  else { lm with sightings }

/-- One round of the loop over the peers. -/
def cleanupPeer (cfg : Config K A τ) (now : τ) (lm : LinkMonitor K A τ) (id : K) :
    LinkMonitor K A τ :=
  match lm.sightings.lookup id with
  | none => lm
  | some addrs =>
      let sightings := lm.sightings.insert id
        (addrs.filter fun _ lastSeen => !cfg.expired now lastSeen)
      -- the number of peers, which is not zero in the loop
      if sightings.entries.card = 0 then { lm with sightings := sightings.erase id }
      else { lm with sightings }

def cleanupOnce (cfg : Config K A τ) (lm : LinkMonitor K A τ) (order : List K) (now : τ) :
    LinkMonitor K A τ :=
  order.foldl (cleanupPeer cfg now) lm

/-- The loop over the sightings of a peer, with the latest address and its time. -/
def pickLoop [DecidableEq τ] (tai64 : TAI64N τ) (addrs : GoMap Bytes A) (m : GoMap Bytes τ) :
    List Bytes → Option A → τ → Go (Option A)
  | [], latestAddr, _ => .ok latestAddr
  | ka :: order, latestAddr, latestTime =>
      match m.lookup ka with
      | none => pickLoop tai64 addrs m order latestAddr latestTime
      | some seenAt =>
          if latestTime = tai64.zero ∨ tai64.after seenAt latestTime = true then
            match addrs.lookup ka with
            | none => crash "missing address"
            | some a => pickLoop tai64 addrs m order (some a) seenAt
          else pickLoop tai64 addrs m order latestAddr latestTime

/-- The random choice is any index into the addresses. -/
def pickAddr [DecidableEq τ] (cfg : Config K A τ) (lm : LinkMonitor K A τ)
    (peers : GoMap K (Peers.Info A)) (order : List Bytes) (random : Nat) (k : K) : Go A :=
  match peers.lookup k with
  | none => fail s!"cannot pick address for peer not in store {cfg.keyText k}"
  | some info => do
      let latestAddr ← pickLoop cfg.tai64 lm.addrs (lm.seen k) order none cfg.tai64.zero
      match latestAddr with
      | some a => return a
      | none =>
          match info.addrs[random % info.addrs.length]? with
          | some a => return a
          | none => fail s!"no good addresses for {cfg.keyText k}"

/-! ## One call -/

section Calls

variable {cfg : Config K A τ} {lm : LinkMonitor K A τ}

theorem seen_insert (table : GoMap K (GoMap Bytes τ)) (addrs : GoMap Bytes A) (k other : K)
    (m : GoMap Bytes τ) :
    (⟨table.insert k m, addrs⟩ : LinkMonitor K A τ).seen other =
      if other = k then m else (⟨table, addrs⟩ : LinkMonitor K A τ).seen other := by
  unfold seen
  rw [GoMap.lookup_insert_eq]
  split <;> rfl

/-- The time that a mark is compared with. -/
def current (cfg : Config K A τ) (lm : LinkMonitor K A τ) (k : K) (ka : Bytes) : τ :=
  ((lm.seen k).lookup ka).getD cfg.tai64.zero

/-- A mark sets the time of one sighting, if it is later. -/
theorem seen_mark (cfg : Config K A τ) (lm : LinkMonitor K A τ) (k : K) (a : A) (t : τ) (other : K)
    (ka : Bytes) :
    ((lm.mark cfg k a t).seen other).lookup ka =
      if (other = k ∧ ka = cfg.keyForAddr a) ∧ cfg.tai64.after t (lm.current cfg k ka) = true then
        some t
      else (lm.seen other).lookup ka := by
  unfold LinkMonitor.mark
  dsimp only
  split
  · next hafter =>
      rw [seen_insert, seen_insert]
      by_cases hother : other = k
      · subst hother
        rw [if_pos rfl, GoMap.lookup_insert_eq]
        by_cases hka : ka = cfg.keyForAddr a
        · subst hka
          rw [if_pos rfl, if_pos ⟨⟨rfl, rfl⟩, hafter⟩]
        · rw [if_neg hka, if_neg fun h => hka h.1.2]
      · rw [if_neg hother, if_neg hother, if_neg fun h => hother h.1.1]
        rfl
  · next hafter =>
      have hnot : ¬ ((other = k ∧ ka = cfg.keyForAddr a) ∧
          cfg.tai64.after t (lm.current cfg k ka) = true) := by
        rintro ⟨⟨rfl, rfl⟩, hlater⟩
        exact hafter hlater
      rw [seen_insert, if_neg hnot]
      split
      · next hother => rw [hother]
      · rfl

/-- A mark adds at most the sighting it is for, later than the one there was. -/
theorem seen_mark_cases {k other : K} {a : A} {t t' : τ} {ka : Bytes}
    (h : ((lm.mark cfg k a t).seen other).lookup ka = some t') :
    (other = k ∧ ka = cfg.keyForAddr a ∧ t' = t ∧
        cfg.tai64.after t (lm.current cfg k ka) = true) ∨
      (lm.seen other).lookup ka = some t' := by
  rw [seen_mark] at h
  split at h
  · next hnew =>
      cases h
      exact Or.inl ⟨hnew.1.1, hnew.1.2, rfl, hnew.2⟩
  · exact Or.inr h

theorem addrs_mark (k : K) (a : A) (t : τ) :
    (lm.mark cfg k a t).addrs =
      if cfg.tai64.after t (lm.current cfg k (cfg.keyForAddr a)) = true then
        lm.addrs.insert (cfg.keyForAddr a) a
      else lm.addrs := by
  unfold LinkMonitor.mark current
  dsimp only
  split <;> rfl

/-- In the loop there is a peer, so that the test for none never holds. -/
theorem cleanupPeer_lookup (cfg : Config K A τ) (lm : LinkMonitor K A τ) (now : τ) (id k : K) :
    (lm.cleanupPeer cfg now id).sightings.lookup k =
      if k = id then (lm.sightings.lookup k).map fun addrs =>
        addrs.filter fun _ lastSeen => !cfg.expired now lastSeen
      else lm.sightings.lookup k := by
  cases hid : lm.sightings.lookup id with
  | none =>
      simp only [cleanupPeer, hid]
      split
      · next hsame => rw [hsame, hid, Option.map_none]
      · rfl
  | some addrs =>
      simp only [cleanupPeer, hid]
      rw [if_neg (GoMap.card_insert_ne_zero _ _ _), GoMap.lookup_insert_eq]
      split
      · next hsame => rw [hsame, hid, Option.map_some]
      · rfl

theorem addrs_cleanupPeer (lm : LinkMonitor K A τ) (now : τ) (id : K) :
    (lm.cleanupPeer cfg now id).addrs = lm.addrs := by
  unfold cleanupPeer
  split
  · rfl
  · dsimp only
    split <;> rfl

/-- A round keeps the sightings of the other peers, and those that have not expired. -/
theorem seen_cleanupPeer_iff (lm : LinkMonitor K A τ) (now : τ) (id k : K) (ka : Bytes) (t : τ) :
    ((lm.cleanupPeer cfg now id).seen k).lookup ka = some t ↔
      (lm.seen k).lookup ka = some t ∧ (k = id → cfg.expired now t = false) := by
  unfold seen
  rw [cleanupPeer_lookup]
  by_cases hid : k = id
  · subst hid
    rw [if_pos rfl]
    cases lm.sightings.lookup k with
    | none => simp
    | some m =>
        rw [Option.map_some, Option.getD_some, Option.getD_some, GoMap.lookup_filter_iff]
        simp
  · rw [if_neg hid]
    simp [hid]

theorem seen_cleanupOnce_iff (lm : LinkMonitor K A τ) (order : List K) (now : τ) (k : K)
    (ka : Bytes) (t : τ) :
    ((lm.cleanupOnce cfg order now).seen k).lookup ka = some t ↔
      (lm.seen k).lookup ka = some t ∧ (k ∈ order → cfg.expired now t = false) := by
  induction order generalizing lm with
  | nil => simp [cleanupOnce]
  | cons id order ih =>
      change (((lm.cleanupPeer cfg now id).cleanupOnce cfg order now).seen k).lookup ka =
        some t ↔ _
      rw [ih, seen_cleanupPeer_iff, List.mem_cons, and_assoc, or_imp]

theorem addrs_cleanupOnce (lm : LinkMonitor K A τ) (order : List K) (now : τ) :
    (lm.cleanupOnce cfg order now).addrs = lm.addrs := by
  induction order generalizing lm with
  | nil => rfl
  | cons id order ih => exact (ih _).trans (addrs_cleanupPeer lm now id)

end Calls

/-! ## The invariant -/

/-- Sightings are later than the zero time, at addresses that are known by their text. -/
def Known (cfg : Config K A τ) (addrs : GoMap Bytes A) (m : GoMap Bytes τ) : Prop :=
  ∀ ka t, m.lookup ka = some t → cfg.tai64.after t cfg.tai64.zero = true ∧
    ∃ a, addrs.lookup ka = some a ∧ cfg.keyForAddr a = ka

def Sound (cfg : Config K A τ) (lm : LinkMonitor K A τ) : Prop :=
  ∀ k, Known cfg lm.addrs (lm.seen k)

variable {cfg : Config K A τ} {lm lm' : LinkMonitor K A τ}

omit [DecidableEq K] in
theorem Known.insert {addrs : GoMap Bytes A} {m : GoMap Bytes τ}
    (known : Known cfg addrs m) (a : A) :
    Known cfg (addrs.insert (cfg.keyForAddr a) a) m := by
  intro ka t h
  obtain ⟨hpos, a', ha', htext⟩ := known ka t h
  refine ⟨hpos, ?_⟩
  rw [GoMap.lookup_insert_eq]
  split
  · next hsame => exact ⟨a, rfl, hsame.symm⟩
  · exact ⟨a', ha', htext⟩

theorem sound_new : Sound cfg (new : LinkMonitor K A τ) := by
  intro k ka t h
  simp [new, seen] at h

/-- A time that is recorded is later than the zero time, as the one there was. -/
theorem Sound.after_zero (sound : Sound cfg lm) {k : K} {ka : Bytes} {t : τ}
    (h : cfg.tai64.after t (lm.current cfg k ka) = true) :
    cfg.tai64.after t cfg.tai64.zero = true := by
  unfold current at h
  cases hold : (lm.seen k).lookup ka with
  | none =>
      rw [hold, Option.getD_none] at h
      exact h
  | some t' =>
      rw [hold, Option.getD_some] at h
      exact cfg.tai64.after_trans _ _ _ h (sound k ka t' hold).1

theorem Sound.mark (sound : Sound cfg lm) (k : K) (a : A) (t : τ) :
    Sound cfg (lm.mark cfg k a t) := by
  intro other ka t' h
  rw [addrs_mark]
  rcases seen_mark_cases h with ⟨-, rfl, rfl, hafter⟩ | hold
  · rw [if_pos hafter]
    exact ⟨sound.after_zero hafter, a, Finmap.lookup_insert _, rfl⟩
  · split
    · exact (sound other).insert a ka t' hold
    · exact sound other ka t' hold

theorem Sound.cleanupOnce (sound : Sound cfg lm) (order : List K) (now : τ) :
    Sound cfg (lm.cleanupOnce cfg order now) := by
  intro k ka t h
  rw [addrs_cleanupOnce]
  exact sound k ka t ((seen_cleanupOnce_iff lm order now k ka t).mp h).1

/-! ## Runs -/

inductive Event (K A τ : Type) where
  | mark (k : K) (a : A) (t : τ)
  | cleanupOnce (order : List K) (now : τ)

def step (cfg : Config K A τ) (lm : LinkMonitor K A τ) :
    Event K A τ → Option (LinkMonitor K A τ × Unit)
  | .mark k a t => some (lm.mark cfg k a t, ())
  | .cleanupOnce order now => some (lm.cleanupOnce cfg order now, ())

theorem sound_of_run {trace : List (Event K A τ × Unit)}
    (run : Runs (step cfg) anyEvent new trace lm) : Sound cfg lm := by
  refine run.invariant sound_new fun lm event lm' seen sound _ hstep => ?_
  cases event with
  | mark k a t =>
      cases hstep
      exact sound.mark k a t
  | cleanupOnce order now =>
      cases hstep
      exact sound.cleanupOnce order now

/-- Cleaning up removes no sighting that is not before this time. -/
def Spares (cfg : Config K A τ) (t : τ) : Event K A τ → Prop
  | .mark _ _ _ => True
  | .cleanupOnce _ now => ∀ t', cfg.tai64.after t t' = false → cfg.expired now t' = false

/-- What the calls of a run have left recorded. -/
structure Recorded (cfg : Config K A τ) (trace : List (Event K A τ × Unit))
    (lm : LinkMonitor K A τ) : Prop where
  /-- A sighting was marked, at its time. -/
  marked : ∀ k ka t, (lm.seen k).lookup ka = some t →
    ∃ a, (.mark k a t, ()) ∈ trace ∧ cfg.keyForAddr a = ka
  /-- What was marked and has not expired since is recorded, unless a later sighting is. -/
  latest : ∀ before k a t after, trace = before ++ (.mark k a t, ()) :: after →
    cfg.tai64.after t cfg.tai64.zero = true → (∀ entry ∈ after, Spares cfg t entry.1) →
    ∃ t', (lm.seen k).lookup (cfg.keyForAddr a) = some t' ∧ cfg.tai64.after t t' = false

theorem marked_of_run {trace : List (Event K A τ × Unit)}
    (run : Runs (step cfg) anyEvent new trace lm) {k : K} {ka : Bytes} {t : τ}
    (h : (lm.seen k).lookup ka = some t) :
    ∃ a, (.mark k a t, ()) ∈ trace ∧ cfg.keyForAddr a = ka := by
  revert k ka t
  refine run.history (motive := fun trace lm => ∀ {k ka t}, (lm.seen k).lookup ka = some t →
    ∃ a, (.mark k a t, ()) ∈ trace ∧ cfg.keyForAddr a = ka) ?_ ?_
  · intro k ka t h
    simp [new, seen] at h
  · intro trace lm event lm' seen _ ih _ hstep k ka t h
    have hold : ∀ {k ka t}, (lm.seen k).lookup ka = some t →
        ∃ a, (.mark k a t, ()) ∈ trace ++ [(event, seen)] ∧ cfg.keyForAddr a = ka := by
      intro k ka t h
      obtain ⟨a, hmem, htext⟩ := ih h
      exact ⟨a, List.mem_append_left _ hmem, htext⟩
    cases event with
    | mark id a t' =>
        cases hstep
        rcases seen_mark_cases h with ⟨rfl, rfl, rfl, -⟩ | hbefore
        · exact ⟨a, by simp, rfl⟩
        · exact hold hbefore
    | cleanupOnce order now =>
        cases hstep
        exact hold ((seen_cleanupOnce_iff lm order now k ka t).mp h).1

/-- A mark leaves a sighting that is not before it. -/
theorem exists_seen_mark {t : τ} (hpos : cfg.tai64.after t cfg.tai64.zero = true) (k : K) (a : A) :
    ∃ t', ((lm.mark cfg k a t).seen k).lookup (cfg.keyForAddr a) = some t' ∧
      cfg.tai64.after t t' = false := by
  rw [seen_mark]
  split
  · exact ⟨t, rfl, cfg.tai64.after_irrefl t⟩
  · next hnot =>
      have hearlier : ¬ cfg.tai64.after t (lm.current cfg k (cfg.keyForAddr a)) = true :=
        fun hafter => hnot ⟨⟨rfl, rfl⟩, hafter⟩
      unfold current at hearlier
      cases hold : (lm.seen k).lookup (cfg.keyForAddr a) with
      | none =>
          rw [hold] at hearlier
          exact absurd hpos hearlier
      | some t' =>
          rw [hold] at hearlier
          exact ⟨t', rfl, Bool.not_eq_true _ ▸ hearlier⟩

/-- Later marks do not bring an earlier time back. -/
theorem exists_seen_step {event : Event K A τ} {seen : Unit} {k : K} {ka : Bytes} {t : τ}
    (hspares : Spares cfg t event) (hstep : step cfg lm event = some (lm', seen))
    (h : ∃ t', (lm.seen k).lookup ka = some t' ∧ cfg.tai64.after t t' = false) :
    ∃ t', (lm'.seen k).lookup ka = some t' ∧ cfg.tai64.after t t' = false := by
  obtain ⟨t', ht', hnot⟩ := h
  cases event with
  | mark id a u =>
      cases hstep
      rw [seen_mark]
      split
      · next hnew =>
          obtain ⟨⟨rfl, -⟩, hlater⟩ := hnew
          rw [current, ht', Option.getD_some] at hlater
          refine ⟨u, rfl, ?_⟩
          rw [← Bool.not_eq_true] at hnot ⊢
          exact fun hafter => hnot (cfg.tai64.after_trans _ _ _ hafter hlater)
      · exact ⟨t', ht', hnot⟩
  | cleanupOnce order now =>
      cases hstep
      exact ⟨t', (seen_cleanupOnce_iff lm order now k ka t').mpr ⟨ht', fun _ => hspares t' hnot⟩,
        hnot⟩

theorem recorded_of_run {trace : List (Event K A τ × Unit)}
    (run : Runs (step cfg) anyEvent new trace lm) : Recorded cfg trace lm where
  marked _ _ _ := marked_of_run run
  latest before k a t after hsplit hpos hspares := by
    subst hsplit
    obtain ⟨here, there, -, -, hstep, hafter⟩ := run.middle
    cases hstep
    have hspared : Runs (step cfg) (fun _ => Spares cfg t) _ after lm :=
      hafter.restrict fun entry hentry _ => hspares entry hentry
    exact hspared.invariant
      (motive := fun lm => ∃ t', (lm.seen k).lookup (cfg.keyForAddr a) = some t' ∧
        cfg.tai64.after t t' = false) (exists_seen_mark hpos k a)
      fun _ _ _ _ h hspares hstep => exists_seen_step hspares hstep h

/-! ## The address that is picked -/

variable [DecidableEq τ]

/-- What the loop has found: nothing yet, at the zero time, or the latest of what it visited. -/
structure Progress (cfg : Config K A τ) (m : GoMap Bytes τ) (visited : List Bytes)
    (latestAddr : Option A) (latestTime : τ) : Prop where
  bound : ∀ ka ∈ visited, ∀ t, m.lookup ka = some t → cfg.tai64.after t latestTime = false
  found : (latestAddr = none ∧ latestTime = cfg.tai64.zero) ∨
    ∃ a, latestAddr = some a ∧ m.lookup (cfg.keyForAddr a) = some latestTime

omit [DecidableEq K] [DecidableEq τ] in
/-- The bound holds at a time that is no earlier, which also bounds the key visited next. -/
theorem Progress.bound_concat {m : GoMap Bytes τ} {visited : List Bytes} {latestAddr : Option A}
    {latestTime time : τ} (progress : Progress cfg m visited latestAddr latestTime) {ka : Bytes}
    (hlater : ∀ other t, m.lookup other = some t → cfg.tai64.after t latestTime = false →
      cfg.tai64.after t time = false)
    (hnew : ∀ t, m.lookup ka = some t → cfg.tai64.after t time = false) :
    ∀ other ∈ visited ++ [ka], ∀ t, m.lookup other = some t →
      cfg.tai64.after t time = false := by
  intro other hother t ht
  cases List.mem_append.mp hother with
  | inl hbefore => exact hlater other t ht (progress.bound other hbefore t ht)
  | inr hlast =>
      rw [List.mem_singleton.mp hlast] at ht
      exact hnew t ht

omit [DecidableEq K] in
theorem pickLoop_of_known {addrs : GoMap Bytes A} {m : GoMap Bytes τ}
    (known : Known cfg addrs m) (order visited : List Bytes) {latestAddr : Option A}
    {latestTime : τ} (progress : Progress cfg m visited latestAddr latestTime) :
    ∃ addr time, pickLoop cfg.tai64 addrs m order latestAddr latestTime = .ok addr ∧
      Progress cfg m (visited ++ order) addr time := by
  induction order generalizing visited latestAddr latestTime with
  | nil =>
      rw [List.append_nil]
      exact ⟨latestAddr, latestTime, rfl, progress⟩
  | cons ka order ih =>
      rw [List.append_cons]
      cases hka : m.lookup ka with
      | none =>
          simp only [pickLoop, hka]
          apply ih
          exact ⟨progress.bound_concat (fun _ _ _ h => h) (by simp [hka]), progress.found⟩
      | some seenAt =>
          obtain ⟨-, a, ha, htext⟩ := known ka seenAt hka
          simp only [pickLoop, hka]
          split
          · next hlater =>
              have hle : ∀ other t, m.lookup other = some t →
                  cfg.tai64.after t latestTime = false → cfg.tai64.after t seenAt = false := by
                intro other t ht hnot
                rcases hlater with rfl | hlater
                · rw [(known other t ht).1] at hnot
                  cases hnot
                · rw [← Bool.not_eq_true] at hnot ⊢
                  exact fun hafter => hnot (cfg.tai64.after_trans _ _ _ hafter hlater)
              have hself : ∀ t, m.lookup ka = some t → cfg.tai64.after t seenAt = false := by
                intro t ht
                rw [hka] at ht
                cases ht
                exact cfg.tai64.after_irrefl seenAt
              simp only [ha]
              apply ih
              refine ⟨progress.bound_concat hle hself, Or.inr ⟨a, rfl, ?_⟩⟩
              rw [htext, hka]
          · next hearlier =>
              have hnew : ∀ t, m.lookup ka = some t → cfg.tai64.after t latestTime = false := by
                intro t ht
                rw [hka] at ht
                cases ht
                exact Bool.not_eq_true _ ▸ (not_or.mp hearlier).2
              apply ih
              exact ⟨progress.bound_concat (fun _ _ _ h => h) hnew, progress.found⟩

/-- What picking an address for a peer comes to, in any order of its sightings. -/
structure PicksLatest (cfg : Config K A τ) (lm : LinkMonitor K A τ) : Prop where
  known : ∀ k m ka t, lm.sightings.lookup k = some m → m.lookup ka = some t →
    ∃ a, lm.addrs.lookup ka = some a ∧ cfg.keyForAddr a = ka
  noPanic : ∀ peers order random k text, lm.pickAddr cfg peers order random k ≠ crash text
  latest : ∀ peers order random k, (∃ info, peers.lookup k = some info) →
    (lm.seen k).Ranges order → (∃ ka t, (lm.seen k).lookup ka = some t) →
    ∃ a t, lm.pickAddr cfg peers order random k = .ok a ∧
      (lm.seen k).lookup (cfg.keyForAddr a) = some t ∧
      ∀ ka t', (lm.seen k).lookup ka = some t' → cfg.tai64.after t' t = false
  unseen : ∀ peers order random k info, peers.lookup k = some info →
    (lm.seen k).Ranges order → (∀ ka, (lm.seen k).lookup ka = none) →
    (info.addrs = [] ∧
      lm.pickAddr cfg peers order random k = fail s!"no good addresses for {cfg.keyText k}") ∨
      ∃ a ∈ info.addrs, lm.pickAddr cfg peers order random k = .ok a

theorem Sound.pickLoop (sound : Sound cfg lm) (k : K) (order : List Bytes) :
    ∃ addr time, pickLoop cfg.tai64 lm.addrs (lm.seen k) order none cfg.tai64.zero = .ok addr ∧
      Progress cfg (lm.seen k) order addr time := by
  have hstart : Progress cfg (lm.seen k) [] none cfg.tai64.zero :=
    ⟨by simp, Or.inl ⟨rfl, rfl⟩⟩
  exact pickLoop_of_known (sound k) order [] hstart

theorem Sound.picksLatest (sound : Sound cfg lm) : PicksLatest cfg lm where
  known := by
    intro k m ka t hm ht
    have hseen : (lm.seen k).lookup ka = some t := by rw [seen, hm, Option.getD_some, ht]
    exact (sound k ka t hseen).2
  noPanic := by
    intro peers order random k text
    obtain ⟨addr, time, hloop, -⟩ := sound.pickLoop k order
    unfold pickAddr
    split
    · simp [fail, crash]
    · next info hinfo =>
        rw [hloop, Go.ok_bind]
        cases addr with
        | some a => simp [crash]
        | none =>
            dsimp only
            split <;> simp [fail, crash]
  latest := by
    rintro peers order random k ⟨info, hinfo⟩ hranges ⟨ka, t, hka⟩
    obtain ⟨addr, time, hloop, progress⟩ := sound.pickLoop k order
    have hbound := progress.bound ka ((hranges.mem_iff ka).mpr ⟨t, hka⟩) t hka
    have hpos := (sound k ka t hka).1
    rcases progress.found with ⟨-, rfl⟩ | ⟨a, rfl, ha⟩
    · -- every sighting is after the zero time
      rw [hpos] at hbound
      cases hbound
    · refine ⟨a, time, ?_, ha, ?_⟩
      · simp only [pickAddr, hinfo, hloop, Go.ok_bind, Go.pure_eq_ok]
      · intro other t' ht'
        exact progress.bound other ((hranges.mem_iff other).mpr ⟨t', ht'⟩) t' ht'
  unseen := by
    intro peers order random k info hinfo _ hnone
    obtain ⟨addr, time, hloop, progress⟩ := sound.pickLoop k order
    rcases progress.found with ⟨rfl, -⟩ | ⟨a, rfl, ha⟩
    · simp only [pickAddr, hinfo, hloop, Go.ok_bind, Go.pure_eq_ok]
      cases hpicked : info.addrs[random % info.addrs.length]? with
      | some a => exact Or.inr ⟨a, List.mem_of_getElem? hpicked, rfl⟩
      | none =>
          left
          refine ⟨?_, rfl⟩
          -- the index of the random choice is only out of bounds in an empty list
          have hle := List.getElem?_eq_none_iff.mp hpicked
          by_contra hne
          have hlt := Nat.mod_lt random (List.length_pos_of_ne_nil hne)
          omega
    · rw [hnone] at ha
      cases ha

/-- Whatever is marked and cleaned up, in any order and with any times. -/
theorem linkMonitor_picks_latest {trace : List (Event K A τ × Unit)}
    (run : Runs (step cfg) anyEvent new trace lm) : PicksLatest cfg lm ∧ Recorded cfg trace lm :=
  ⟨(sound_of_run run).picksLatest, recorded_of_run run⟩

/-! ### Two peers at one address -/

/-- Whole seconds. -/
def sampleTimes : TAI64N Nat where
  zero := 0
  after t u := decide (u < t)
  after_irrefl t := by simp
  after_trans t u v htu huv := by
    rw [decide_eq_true_eq] at htu huv ⊢
    exact huv.trans htu

def sampleConfig {K : Type} : Config K Bytes Nat where
  keyForAddr := id
  keyText _ := "peer"
  tai64 := sampleTimes
  expired now lastSeen := decide (lastSeen + 30 < now)

/-- The second peer is last seen at the address from which the first has expired. -/
def sampleMarks : List (Event Nat Bytes Nat) :=
  [.mark 1 [97] 10, .mark 2 [98] 30, .mark 2 [97] 40, .mark 2 [98] 20, .cleanupOnce [2, 1] 50]

theorem linkMonitor_picks_latest_sample :
    ∃ trace lm, trace.map Prod.fst = sampleMarks ∧
      Runs (step sampleConfig) anyEvent new trace lm ∧ PicksLatest sampleConfig lm ∧
      Recorded sampleConfig trace lm := by
  have hsome : (replay (step sampleConfig) anyEvent new sampleMarks).isSome = true := rfl
  obtain ⟨trace, lm, hevents, run⟩ := exists_run_of_isSome hsome
  exact ⟨trace, lm, hevents, run, linkMonitor_picks_latest run⟩

example : (replay (step sampleConfig) anyEvent new sampleMarks).map (fun result =>
    (result.1.pickAddr sampleConfig (Finmap.insert 2 ⟨[]⟩ ∅) [[98], [97]] 0 2,
      result.1.pickAddr sampleConfig (Finmap.insert 1 ⟨[[99]]⟩ ∅) [] 7 1)) =
    some (.ok [97], .ok [99]) := by
  decide +kernel

end LinkMonitor

end Inet256.Multihoming
