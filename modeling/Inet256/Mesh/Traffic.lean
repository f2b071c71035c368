import Inet256.Mesh.Multihoming

/-!
# One-hop traffic

A multihoming swarm sends to the best address of a peer and counts the bytes of
every peer, while messages arrive on both channels, sightings expire and the
peer store changes.  A message is counted when its address is picked, before it
is sent and whether or not it can be.
-/

namespace Inet256.Multihoming

open Inet256.Foundation

variable {K A τ Pub : Type} [DecidableEq K]

/-! ## Meters -/

structure Meter where
  rx : UInt64
  tx : UInt64
  deriving DecidableEq

abbrev MeterSet (K : Type) := GoMap K Meter

namespace MeterSet

/-- A meter that is not there yet is stored with nothing counted. -/
def load (m : MeterSet K) (k : K) : Meter := (m.lookup k).getD ⟨0, 0⟩

def tx (m : MeterSet K) (k : K) (x : Nat) : MeterSet K × UInt64 :=
  let actual := m.load k
  let sum := actual.tx + UInt64.ofNat x
  (m.insert k { actual with tx := sum }, sum)

def rx (m : MeterSet K) (k : K) (x : Nat) : MeterSet K × UInt64 :=
  let actual := m.load k
  let sum := actual.rx + UInt64.ofNat x
  (m.insert k { actual with rx := sum }, sum)

theorem load_insert (m : MeterSet K) (k other : K) (meter : Meter) :
    load (m.insert k meter) other = if other = k then meter else m.load other := by
  unfold load
  rw [GoMap.lookup_insert_eq]
  split <;> rfl

/-- Sending counts where it is sent to, and receives nothing. -/
theorem load_tx (m : MeterSet K) (k : K) (x : Nat) (other : K) :
    (load (m.tx k x).1 other).tx = (m.load other).tx + UInt64.ofNat (if k = other then x else 0) ∧
      (load (m.tx k x).1 other).rx = (m.load other).rx := by
  rw [tx, load_insert]
  by_cases hother : other = k
  · subst hother
    simp
  · simp [hother, Ne.symm hother]

theorem load_rx (m : MeterSet K) (k : K) (x : Nat) (other : K) :
    (load (m.rx k x).1 other).rx = (m.load other).rx + UInt64.ofNat (if k = other then x else 0) ∧
      (load (m.rx k x).1 other).tx = (m.load other).tx := by
  rw [rx, load_insert]
  by_cases hother : other = k
  · subst hother
    simp
  · simp [hother, Ne.symm hother]

end MeterSet

/-! ## The swarm and its meters -/

inductive TellError where
  | deadlineExceeded
  | other (text : String)

structure Traffic (K A τ : Type) where
  swarm : Swarm K A τ
  meters : MeterSet K

inductive TrafficEvent (Pub K A τ : Type) where
  | arrive (arrival : Arrival Pub A τ)
  /-- The sightings are gone through in some order; `inner` is what the inner swarm returns. -/
  | tell (dst : K) (v : List Bytes) (order : List Bytes) (random : Nat)
      (inner : Option TellError)
  | cleanupOnce (order : List K) (now : τ)
  | peers (store : GoMap K (Peers.Info A))
  | getTx (k : K)
  | getRx (k : K)

inductive TrafficSeen (K A : Type) where
  | arrived (out : Attribution K)
  /-- The address that was picked, if one was, and the error that is returned. -/
  | told (addr : Option A) (err : Option String)
  | count (n : UInt64)
  | done

def vecSize (v : List Bytes) : Nat := v.flatten.length

/-- What `Tell` makes of the error of the inner swarm. -/
def TellError.returned : TellError → Option String
  | .deadlineExceeded => none
  | .other text => some text

namespace Traffic

def new (peers : GoMap K (Peers.Info A)) (localKey : K) : Traffic K A τ :=
  ⟨⟨.new, peers, localKey⟩, ∅⟩

def tell [DecidableEq τ] (cfg : Config K A τ) (s : Traffic K A τ) (dst : K) (v : List Bytes)
    (order : List Bytes) (random : Nat) (inner : Option TellError) :
    Go (Traffic K A τ × TrafficSeen K A) :=
  match s.swarm.peerStore.lookup dst with
  | none => .ok (s, .told none (some s!"tell to unrecognized peer {cfg.keyText dst}"))
  | some _ =>
      match s.swarm.lm.pickAddr cfg s.swarm.peerStore order random dst with
      | .error (.panic text) => crash text
      | .error (.error err) => .ok (s, .told none (some err))
      | .ok addr =>
          -- the counter does not wait for the inner swarm
          .ok ({ s with meters := (s.meters.tx dst (vecSize v)).1 },
            .told (some addr) (inner.bind TellError.returned))

def step [DecidableEq τ] (cfg : Config K A τ) (groupBy : Pub → Go K) (s : Traffic K A τ) :
    TrafficEvent Pub K A τ → Option (Traffic K A τ × TrafficSeen K A)
  | .arrive arrival => do
      let (swarm, out) ← (s.swarm.arrive cfg groupBy arrival).toOption
      let meters := out.delivered.elim s.meters fun m => (s.meters.rx m.src m.payload.length).1
      some (⟨swarm, meters⟩, .arrived out)
  | .tell dst v order random inner =>
      if (s.swarm.lm.seen dst).Ranges order then
        (s.tell cfg dst v order random inner).toOption
      else none
  | .cleanupOnce order now =>
      some ({ s with swarm := { s.swarm with lm := s.swarm.lm.cleanupOnce cfg order now } }, .done)
  | .peers store => some ({ s with swarm := { s.swarm with peerStore := store } }, .done)
  | .getTx k =>
      let (meters, n) := s.meters.tx k 0
      some ({ s with meters }, .count n)
  | .getRx k =>
      let (meters, n) := s.meters.rx k 0
      some ({ s with meters }, .count n)

end Traffic

/-! ## What was counted -/

/-- The bytes that a step picks an address of a peer for, whether or not they are sent. -/
def pickedFor (k : K) : TrafficEvent Pub K A τ × TrafficSeen K A → Nat
  | (.tell dst v _ _ _, .told (some _) _) => if dst = k then vecSize v else 0
  | _ => 0

/-- The bytes of a peer that a step hands on. -/
def heardFrom (k : K) : TrafficEvent Pub K A τ × TrafficSeen K A → Nat
  | (_, .arrived ⟨_, some m⟩) => if m.src = k then m.payload.length else 0
  | _ => 0

/-- The sum over all steps of a run. -/
def total {ε : Type} (bytes : ε → Nat) (trace : List ε) : Nat :=
  trace.foldl (fun n entry => n + bytes entry) 0

theorem total_concat {ε : Type} (bytes : ε → Nat) (trace : List ε) (entry : ε) :
    total bytes (trace ++ [entry]) = total bytes trace + bytes entry := by
  rw [total, List.foldl_append]
  rfl

/-- Something came from an address with this text, under a key of this peer. -/
def CameFrom (cfg : Config K A τ) (groupBy : Pub → Go K)
    (trace : List (TrafficEvent Pub K A τ × TrafficSeen K A)) (k : K) (ka : Bytes) : Prop :=
  ∃ arrival out pub, (TrafficEvent.arrive arrival, out) ∈ trace ∧
    cfg.keyForAddr arrival.src = ka ∧ arrival.key = .ok pub ∧ groupBy pub = .ok k

structure Traffic.Sound (cfg : Config K A τ) (groupBy : Pub → Go K)
    (trace : List (TrafficEvent Pub K A τ × TrafficSeen K A)) (s : Traffic K A τ) : Prop where
  lm : s.swarm.lm.Sound cfg
  sightings : ∀ k ka t, (s.swarm.lm.seen k).lookup ka = some t → CameFrom cfg groupBy trace k ka
  tx : ∀ k, (s.meters.load k).tx = UInt64.ofNat (total (pickedFor k) trace)
  rx : ∀ k, (s.meters.load k).rx = UInt64.ofNat (total (heardFrom k) trace)

namespace Traffic

variable [DecidableEq τ] {cfg : Config K A τ} {groupBy : Pub → Go K} {s s' : Traffic K A τ}
  {trace : List (TrafficEvent Pub K A τ × TrafficSeen K A)}

/-- The message is refused, or sent to the address that is picked and counted. -/
theorem tell_cases {dst : K} {v order : List Bytes} {random : Nat} {inner : Option TellError}
    {out : TrafficSeen K A} (h : s.tell cfg dst v order random inner = .ok (s', out)) :
    (s' = s ∧ ∃ err, out = .told none err) ∨
      ∃ info a err, s.swarm.peerStore.lookup dst = some info ∧
        s.swarm.lm.pickAddr cfg s.swarm.peerStore order random dst = .ok a ∧
        s' = { s with meters := (s.meters.tx dst (vecSize v)).1 } ∧ out = .told (some a) err := by
  unfold tell at h
  split at h
  · cases h
    exact Or.inl ⟨rfl, _, rfl⟩
  · next info hinfo =>
      split at h
      · cases h
      · cases h
        exact Or.inl ⟨rfl, _, rfl⟩
      · next a hpick =>
          cases h
          exact Or.inr ⟨info, a, _, hinfo, hpick, rfl, rfl⟩

omit [DecidableEq K] [DecidableEq τ] in
theorem cameFrom_append {k : K} {ka : Bytes} (h : CameFrom cfg groupBy trace k ka)
    (more : List (TrafficEvent Pub K A τ × TrafficSeen K A)) :
    CameFrom cfg groupBy (trace ++ more) k ka := by
  obtain ⟨arrival, out, pub, hmem, hrest⟩ := h
  exact ⟨arrival, out, pub, List.mem_append_left _ hmem, hrest⟩

/-- What a step does to the meters is what it shows. -/
structure Counted (s s' : Traffic K A τ) (entry : TrafficEvent Pub K A τ × TrafficSeen K A) :
    Prop where
  tx : ∀ k, (s'.meters.load k).tx = (s.meters.load k).tx + UInt64.ofNat (pickedFor k entry)
  rx : ∀ k, (s'.meters.load k).rx = (s.meters.load k).rx + UInt64.ofNat (heardFrom k entry)

omit [DecidableEq τ] in
theorem counted_of_eq {entry : TrafficEvent Pub K A τ × TrafficSeen K A}
    (hmeters : s'.meters = s.meters) (htold : ∀ k, pickedFor k entry = 0)
    (hheard : ∀ k, heardFrom k entry = 0) : Counted s s' entry where
  tx k := by simp [hmeters, htold]
  rx k := by simp [hmeters, hheard]

theorem counted_of_step {event : TrafficEvent Pub K A τ} {out : TrafficSeen K A}
    (h : s.step cfg groupBy event = some (s', out)) : Counted s s' (event, out) := by
  cases event with
  | arrive arrival =>
      simp only [step, Option.bind_eq_bind, Option.bind_eq_some_iff] at h
      obtain ⟨⟨swarm, ⟨marked, delivered⟩⟩, -, h⟩ := h
      cases h
      cases delivered with
      | none => exact counted_of_eq rfl (fun _ => rfl) (fun _ => rfl)
      | some m =>
          have hload := s.meters.load_rx m.src m.payload.length
          exact ⟨fun k => (hload k).2.trans (UInt64.add_zero _).symm, fun k => (hload k).1⟩
  | tell dst v order random inner =>
      obtain ⟨-, h⟩ := Option.ite_none_right_eq_some.mp h
      rcases tell_cases (toOption_eq_some.mp h) with
        ⟨rfl, err, rfl⟩ | ⟨info, a, err, -, -, rfl, rfl⟩
      · exact counted_of_eq rfl (fun _ => rfl) (fun _ => rfl)
      · have hload := s.meters.load_tx dst (vecSize v)
        exact ⟨fun k => (hload k).1, fun k => (hload k).2.trans (UInt64.add_zero _).symm⟩
  | cleanupOnce order now =>
      cases h
      exact counted_of_eq rfl (fun _ => rfl) (fun _ => rfl)
  | peers store =>
      cases h
      exact counted_of_eq rfl (fun _ => rfl) (fun _ => rfl)
  -- reading a counter adds nothing to it
  | getTx k =>
      cases h
      have hload := s.meters.load_tx k 0
      simp only [ite_self] at hload
      exact ⟨fun k => (hload k).1, fun k => (hload k).2.trans (UInt64.add_zero _).symm⟩
  | getRx k =>
      cases h
      have hload := s.meters.load_rx k 0
      simp only [ite_self] at hload
      exact ⟨fun k => (hload k).2.trans (UInt64.add_zero _).symm, fun k => (hload k).1⟩

/-- What a step does to the monitor: nothing, a cleanup, or a mark of what came. -/
inductive Monitors (cfg : Config K A τ) (groupBy : Pub → Go K) (s s' : Traffic K A τ) :
    TrafficEvent Pub K A τ → Prop where
  | keeps {event : TrafficEvent Pub K A τ} (lm : s'.swarm.lm = s.swarm.lm) :
      Monitors cfg groupBy s s' event
  | cleans (order : List K) (now : τ)
      (lm : s'.swarm.lm = s.swarm.lm.cleanupOnce cfg order now) :
      Monitors cfg groupBy s s' (.cleanupOnce order now)
  | marks {arrival : Arrival Pub A τ} {pub : Pub} {k : K} (now : τ)
      (key : arrival.key = .ok pub) (group : groupBy pub = .ok k)
      (lm : s'.swarm.lm = s.swarm.lm.mark cfg k arrival.src now) :
      Monitors cfg groupBy s s' (.arrive arrival)

theorem monitors_of_step {event : TrafficEvent Pub K A τ} {out : TrafficSeen K A}
    (h : s.step cfg groupBy event = some (s', out)) : Monitors cfg groupBy s s' event := by
  cases event with
  | arrive arrival =>
      simp only [step, Option.bind_eq_bind, Option.bind_eq_some_iff, toOption_eq_some] at h
      obtain ⟨⟨swarm, out⟩, harrive, h⟩ := h
      cases h
      rcases Swarm.arrive_cases harrive with
        ⟨hsame, -⟩ | ⟨pub, k, now, hkey, hgroup, -, hswarm, -, -⟩
      · exact .keeps (congrArg Swarm.lm hsame)
      · exact .marks now hkey hgroup (congrArg Swarm.lm hswarm)
  | tell dst v order random inner =>
      obtain ⟨-, h⟩ := Option.ite_none_right_eq_some.mp h
      rcases tell_cases (toOption_eq_some.mp h) with ⟨rfl, -⟩ | ⟨info, a, err, -, -, rfl, -⟩
      · exact .keeps rfl
      · exact .keeps rfl
  | cleanupOnce order now =>
      cases h
      exact .cleans order now rfl
  | peers store =>
      cases h
      exact .keeps rfl
  | getTx k =>
      cases h
      exact .keeps rfl
  | getRx k =>
      cases h
      exact .keeps rfl

theorem Sound.step {event : TrafficEvent Pub K A τ} {out : TrafficSeen K A}
    (sound : s.Sound cfg groupBy trace) (h : s.step cfg groupBy event = some (s', out)) :
    s'.Sound cfg groupBy (trace ++ [(event, out)]) := by
  have hcounted := counted_of_step h
  have hkeeps : ∀ k ka t, (s.swarm.lm.seen k).lookup ka = some t →
      CameFrom cfg groupBy (trace ++ [(event, out)]) k ka :=
    fun k ka t hka => cameFrom_append (sound.sightings k ka t hka) _
  have hmonitor : s'.swarm.lm.Sound cfg ∧ ∀ k ka t, (s'.swarm.lm.seen k).lookup ka = some t →
      CameFrom cfg groupBy (trace ++ [(event, out)]) k ka := by
    cases monitors_of_step h with
    | keeps lm =>
        rw [lm]
        exact ⟨sound.lm, hkeeps⟩
    | cleans order now lm =>
        rw [lm]
        exact ⟨sound.lm.cleanupOnce order now,
          fun k ka t hka => hkeeps k ka t ((LinkMonitor.seen_cleanupOnce_iff ..).mp hka).1⟩
    | @marks arrival pub id now key group lm =>
        rw [lm]
        refine ⟨sound.lm.mark id arrival.src now, fun k ka t hka => ?_⟩
        rcases LinkMonitor.seen_mark_cases hka with ⟨rfl, rfl, -⟩ | hold
        · exact ⟨arrival, out, pub, by simp, rfl, key, group⟩
        · exact hkeeps k ka t hold
  exact ⟨hmonitor.1, hmonitor.2,
    fun k => by rw [hcounted.tx, sound.tx, total_concat, UInt64.ofNat_add],
    fun k => by rw [hcounted.rx, sound.rx, total_concat, UInt64.ofNat_add]⟩

theorem sound_of_run {peers : GoMap K (Peers.Info A)} {localKey : K}
    (run : Runs (Traffic.step cfg groupBy) anyEvent (.new peers localKey) trace s) :
    s.Sound cfg groupBy trace := by
  refine run.history (motive := fun trace s => s.Sound cfg groupBy trace) ?_ ?_
  · refine ⟨LinkMonitor.sound_new, ?_, fun _ => rfl, fun _ => rfl⟩
    intro k ka t hka
    simp [Traffic.new, LinkMonitor.new, LinkMonitor.seen] at hka
  · intro trace s event s' out _ sound _ hstep
    exact sound.step hstep

/-! ## Where messages go -/

/--
A peer with a sighting left is sent to where it was seen last, which is where something came
from under its key; one without, to one of the addresses that the store has for it.
-/
def Justified (cfg : Config K A τ) (groupBy : Pub → Go K)
    (trace : List (TrafficEvent Pub K A τ × TrafficSeen K A)) (s : Traffic K A τ) (dst : K)
    (a : A) : Prop :=
  ∃ info, s.swarm.peerStore.lookup dst = some info ∧
    ((∃ t, (s.swarm.lm.seen dst).lookup (cfg.keyForAddr a) = some t ∧
        (∀ ka t', (s.swarm.lm.seen dst).lookup ka = some t' → cfg.tai64.after t' t = false) ∧
        CameFrom cfg groupBy trace dst (cfg.keyForAddr a)) ∨
      (∀ ka, (s.swarm.lm.seen dst).lookup ka = none) ∧ a ∈ info.addrs)

theorem Sound.justified (sound : s.Sound cfg groupBy trace) {dst : K} {order : List Bytes}
    {random : Nat} {info : Peers.Info A} {a : A}
    (hinfo : s.swarm.peerStore.lookup dst = some info)
    (hranges : (s.swarm.lm.seen dst).Ranges order)
    (hpick : s.swarm.lm.pickAddr cfg s.swarm.peerStore order random dst = .ok a) :
    s.Justified cfg groupBy trace dst a := by
  have picks := sound.lm.picksLatest
  by_cases hseen : ∃ ka t, (s.swarm.lm.seen dst).lookup ka = some t
  · obtain ⟨a', t, hpick', ht, hlatest⟩ :=
      picks.latest s.swarm.peerStore order random dst ⟨info, hinfo⟩ hranges hseen
    obtain rfl : a = a' := Except.ok.inj (hpick.symm.trans hpick')
    exact ⟨info, hinfo, Or.inl ⟨t, ht, hlatest, sound.sightings dst _ t ht⟩⟩
  · have hnone : ∀ ka, (s.swarm.lm.seen dst).lookup ka = none := by
      intro ka
      cases hka : (s.swarm.lm.seen dst).lookup ka with
      | none => rfl
      | some t => exact absurd ⟨ka, t, hka⟩ hseen
    rcases picks.unseen s.swarm.peerStore order random dst info hinfo hranges hnone with
      ⟨-, hfail⟩ | ⟨a', ha', hpick'⟩
    · rw [hpick] at hfail
      cases hfail
    · obtain rfl : a = a' := Except.ok.inj (hpick.symm.trans hpick')
      exact ⟨info, hinfo, Or.inr ⟨hnone, ha'⟩⟩

theorem Sound.tell_ne_crash (sound : s.Sound cfg groupBy trace) (dst : K)
    (v order : List Bytes) (random : Nat) (inner : Option TellError) (text : String) :
    s.tell cfg dst v order random inner ≠ crash text := by
  have hpick := sound.lm.picksLatest.noPanic s.swarm.peerStore order random dst
  unfold tell
  split
  · simp [crash]
  · split
    · next hpanic => exact absurd hpanic (hpick _)
    · simp [crash]
    · simp [crash]

/--
In every order of arrivals, sends, cleanups and changes of the peer store: the counters of
every peer are the bytes that an address of it was picked for, sent or not, and the bytes handed
on from it; `Tell` does not panic; and a message goes only to a peer of the store, at the
address of its latest sighting or, if it has none left, at one that is stored for it.
-/
theorem one_hop_traffic {peers : GoMap K (Peers.Info A)} {localKey : K}
    (run : Runs (Traffic.step cfg groupBy) anyEvent (.new peers localKey) trace s) :
    (∀ k, (s.meters.load k).tx = UInt64.ofNat (total (pickedFor k) trace) ∧
      (s.meters.load k).rx = UInt64.ofNat (total (heardFrom k) trace)) ∧
    ∀ dst v order random inner, (s.swarm.lm.seen dst).Ranges order →
      (∀ text, s.tell cfg dst v order random inner ≠ crash text) ∧
      ∀ s' a err, s.tell cfg dst v order random inner = .ok (s', .told (some a) err) →
        s.Justified cfg groupBy trace dst a := by
  have sound := sound_of_run run
  refine ⟨fun k => ⟨sound.tx k, sound.rx k⟩, fun dst v order random inner hranges => ?_⟩
  refine ⟨sound.tell_ne_crash dst v order random inner, fun s' a err htell => ?_⟩
  rcases tell_cases htell with ⟨-, err, hout⟩ | ⟨info, a', err, hinfo, hpick, -, hout⟩
  · cases hout
  · cases hout
    exact sound.justified hinfo hranges hpick

end Traffic

/-! ### A peer that moves -/

def sampleStore : GoMap Nat (Peers.Info Bytes) := Finmap.insert 1 ⟨[[97]]⟩ ∅

/--
A message is sent to the stored address, one comes from another, and one is sent there; when the
sighting has expired, the next goes to the stored address again, which fails.
-/
def sampleTraffic : List (TrafficEvent Nat Nat Bytes Nat) :=
  [.tell 1 [[1, 2], [3]] [] 0 none, .arrive (.data [98] (.ok 1) [7, 7] 10),
    .arrive (.data [99] (.ok 2) [7] 11), .tell 1 [[4]] [[98]] 0 (some .deadlineExceeded),
    .cleanupOnce [1] 50, .tell 1 [[5, 6]] [] 0 (some (.other "no route"))]

theorem one_hop_traffic_sample :
    ∃ trace s, trace.map Prod.fst = sampleTraffic ∧
      Runs (Traffic.step LinkMonitor.sampleConfig .ok) anyEvent (.new sampleStore 0) trace s ∧
      (s.meters.load 1).tx = 6 ∧ (s.meters.load 1).rx = 2 ∧
      (s.meters.load 1).tx = UInt64.ofNat (total (pickedFor 1) trace) := by
  have hreplay : (replay (Traffic.step LinkMonitor.sampleConfig .ok) anyEvent
      (.new sampleStore 0) sampleTraffic).map (fun result => result.1.meters.load 1) =
        some ⟨2, 6⟩ := by decide +kernel
  obtain ⟨trace, s, hevents, run, hmeter⟩ := exists_run_of_map hreplay
  have hcounts := (Traffic.one_hop_traffic run).1 1
  refine ⟨trace, s, hevents, run, ?_, ?_, hcounts.1⟩
  · rw [hmeter]
  · rw [hmeter]

end Inet256.Multihoming
