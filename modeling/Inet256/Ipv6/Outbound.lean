import Inet256.Foundation.Runs
import Inet256.Foundation.Runtime
import Inet256.Ipv6.Portal

/-!
# The outbound half of the IPv6 portal

A packet read from the device goes to the address its destination stands for.
That address is taken from a cache or looked up by prefix; lookups take time, in
which other packets are handled and old entries are removed.  Calls are split
where they touch the cache or wait for the node.
-/

namespace Inet256.Ipv6

open Inet256.Foundation
open Inet256.Bitstr

structure CacheEntry where
  addr : Addr
  createdAt : Time
  deriving DecidableEq

def cacheEntryTTL : Duration := 10 * 60 * second

inductive OutboundPhase where
  /-- `FindAddr` is called with the prefix. -/
  | find (ip : IP) (pre : Bytes) (nbits : Nat)
  | put (ip : IP) (dst : Addr)
  | send (dst : Addr)
  deriving DecidableEq

/-- A call of `handleOutbound` in progress. -/
structure OutboundCall where
  data : Bytes
  phase : OutboundPhase
  deriving DecidableEq

structure Outbound where
  cache : GoMap IP CacheEntry
  calls : GoMap Nat OutboundCall
  /-- The keys whose entries were seen to be old and are about to be deleted. -/
  expired : List IP

inductive OutboundEvent where
  | read (call : Nat) (data : Bytes)
  | found (call : Nat) (answer : Except String Addr)
  | put (call : Nat) (now : Time)
  | send (call : Nat)
  | inspect (ip : IP) (now : Time)
  | delete (ip : IP)

inductive OutboundSeen where
  | nothing
  | dropped (fault : Fault)
  | sent (dst : Addr) (data : Bytes)
  deriving DecidableEq

namespace Outbound

def new : Outbound := ⟨∅, ∅, []⟩

def getEntry (s : Outbound) (key : IP) : Option CacheEntry := s.cache.lookup key

/-- `LoadOrStore`: an entry that is there stays. -/
def putEntry (s : Outbound) (key : IP) (e : CacheEntry) : Outbound :=
  match s.cache.lookup key with
  | some _ => s
  | none => { s with cache := s.cache.insert key e }

def enter (s : Outbound) (call : Nat) (data : Bytes) (phase : OutboundPhase) : Outbound :=
  { s with calls := s.calls.insert call ⟨data, phase⟩ }

def leave (s : Outbound) (call : Nat) : Outbound := { s with calls := s.calls.erase call }

/-- The beginning of `handleOutbound`. -/
def read (p : Portal) (s : Outbound) (call : Nat) (data : Bytes) : Outbound × OutboundSeen :=
  match p.parseHeader data with
  | .error err => (s, .dropped (.error err))
  | .ok header =>
      let ip := IP.v6 header.dst ""
      match s.getEntry ip with
      | some e => (s.enter call data (.send e.addr), .nothing)
      | none =>
          match inet256PrefixFromIPv6 p.showIP ip with
          | .error fault => (s, .dropped fault)
          | .ok (pre, nbits) => (s.enter call data (.find ip pre nbits), .nothing)

def step (p : Portal) (s : Outbound) : OutboundEvent → Option (Outbound × OutboundSeen)
  | .read call data =>
      match s.calls.lookup call with
      | some _ => none
      | none => some (s.read p call data)
  | .found call answer =>
      match s.calls.lookup call with
      | some ⟨data, .find ip _ _⟩ =>
          match answer with
          | .error err => some (s.leave call, .dropped (.error err))
          | .ok dst => some (s.enter call data (.put ip dst), .nothing)
      | _ => none
  | .put call now =>
      match s.calls.lookup call with
      | some ⟨data, .put ip dst⟩ =>
          some ((s.putEntry ip ⟨dst, now⟩).enter call data (.send dst), .nothing)
      | _ => none
  | .send call =>
      match s.calls.lookup call with
      | some ⟨data, .send dst⟩ => some (s.leave call, .sent dst data)
      | _ => none
  | .inspect ip now =>
      match s.getEntry ip with
      | some e =>
          if cacheEntryTTL < now.sub e.createdAt then
            some ({ s with expired := ip :: s.expired }, .nothing)
          else some (s, .nothing)
      | none => none
  | .delete ip =>
      if ip ∈ s.expired then
        some ({ s with cache := s.cache.erase ip, expired := s.expired.erase ip }, .nothing)
      else none

/-- What is assumed of the node: `FindAddr` returns only addresses with the prefix. -/
def lawfulLookup (s : Outbound) : OutboundEvent → Prop
  | .found call (.ok dst) =>
      match s.calls.lookup call with
      | some ⟨_, .find _ pre nbits⟩ => Addr.hasPrefix dst.toList pre nbits = true
      | _ => True
  | _ => True

instance (s : Outbound) (event : OutboundEvent) : Decidable (s.lawfulLookup event) := by
  unfold lawfulLookup
  split
  · split <;> infer_instance
  · infer_instance

/-! ## The invariant -/

/-- An address of the network, and an address that is mapped to it. -/
def Routes (ip : IP) (dst : Addr) : Prop :=
  netPrefix.contains ip = true ∧ ipv6FromINET256 dst = .ok ip

/-- Where a call for this destination may have got to. -/
def PhaseFor (p : Portal) (ip : IP) : OutboundPhase → Prop
  | .find ip' pre nbits => ip' = ip ∧ inet256PrefixFromIPv6 p.showIP ip = .ok (pre, nbits)
  | .put ip' dst => ip' = ip ∧ Routes ip dst
  | .send dst => Routes ip dst

/-- The destination of a packet. -/
def Destined (p : Portal) (data : Bytes) (ip : IP) : Prop :=
  ∃ header, p.parseHeader data = .ok header ∧ ip = IP.v6 header.dst ""

structure Sound (p : Portal) (s : Outbound) : Prop where
  cache : ∀ ip e, s.cache.lookup ip = some e → Routes ip e.addr
  calls : ∀ call c, s.calls.lookup call = some c →
    ∃ ip, Destined p c.data ip ∧ PhaseFor p ip c.phase

/-- A packet that is sent goes to an address that is mapped to its destination. -/
def RoutedRight (p : Portal) : OutboundEvent × OutboundSeen → Prop
  | (_, .sent dst data) => ∃ ip, Destined p data ip ∧ Routes ip dst
  | _ => True

variable {p : Portal} {s s' : Outbound}

theorem sound_new : Sound p new where
  cache := by simp [new]
  calls := by simp [new]

theorem Sound.enter (sound : Sound p s) (call : Nat) (phase : OutboundPhase) {data : Bytes}
    {ip : IP} (hdata : Destined p data ip) (hphase : PhaseFor p ip phase) :
    Sound p (s.enter call data phase) where
  cache := sound.cache
  calls := by
    intro other c hc
    rcases GoMap.lookup_insert_cases hc with ⟨-, rfl⟩ | ⟨-, hold⟩
    · exact ⟨ip, hdata, hphase⟩
    · exact sound.calls other c hold

theorem Sound.leave (sound : Sound p s) (call : Nat) : Sound p (s.leave call) where
  cache := sound.cache
  calls := fun other c hc => sound.calls other c (GoMap.lookup_erase_cases hc).2

theorem Sound.putEntry (sound : Sound p s) {ip : IP} {dst : Addr} (h : Routes ip dst)
    (now : Time) : Sound p (s.putEntry ip ⟨dst, now⟩) := by
  unfold Outbound.putEntry
  split
  · exact sound
  · constructor
    · intro other e' he'
      rcases GoMap.lookup_insert_cases he' with ⟨rfl, rfl⟩ | ⟨-, hold⟩
      · exact h
      · exact sound.cache other e' hold
    · exact sound.calls

theorem Sound.read (sound : Sound p s) (call : Nat) (data : Bytes) :
    Sound p (s.read p call data).1 ∧ RoutedRight p (.read call data, (s.read p call data).2) := by
  unfold Outbound.read
  split
  · exact ⟨sound, trivial⟩
  · next header hheader =>
      have hdata : Destined p data (IP.v6 header.dst "") := ⟨header, hheader, rfl⟩
      dsimp only
      split
      · next e he => exact ⟨sound.enter call (.send e.addr) hdata (sound.cache _ e he), trivial⟩
      · split
        · exact ⟨sound, trivial⟩
        · next pre nbits hpre =>
            exact ⟨sound.enter call (.find _ pre nbits) hdata ⟨rfl, hpre⟩, trivial⟩

theorem Sound.step {event : OutboundEvent} {seen : OutboundSeen} (sound : Sound p s)
    (hlawful : s.lawfulLookup event) (h : s.step p event = some (s', seen)) :
    Sound p s' ∧ RoutedRight p (event, seen) := by
  cases event with
  | read call data =>
      simp only [Outbound.step] at h
      split at h
      · cases h
      · have hread := sound.read call data
        rw [Option.some.inj h] at hread
        exact hread
  | found call answer =>
      simp only [Outbound.step] at h
      split at h
      · next data ip pre nbits hc =>
          obtain ⟨dst, hdata, rfl, hpre⟩ := sound.calls call _ hc
          cases answer with
          | error err =>
              cases h
              exact ⟨sound.leave call, trivial⟩
          | ok found =>
              cases h
              simp only [lawfulLookup, hc] at hlawful
              have hroutes : Routes ip found :=
                ⟨contains_of_fromIPv6 hpre, mapped_of_hasPrefix hpre hlawful⟩
              exact ⟨sound.enter call (.put ip found) hdata ⟨rfl, hroutes⟩, trivial⟩
      · cases h
  | put call now =>
      simp only [Outbound.step] at h
      split at h
      · next data ip dst hc =>
          obtain ⟨dstIP, hdata, rfl, hroutes⟩ := sound.calls call _ hc
          cases h
          exact ⟨(sound.putEntry hroutes now).enter call (.send dst) hdata hroutes, trivial⟩
      · cases h
  | send call =>
      simp only [Outbound.step] at h
      split at h
      · next data dst hc =>
          cases h
          exact ⟨sound.leave call, sound.calls call _ hc⟩
      · cases h
  | inspect ip now =>
      simp only [Outbound.step] at h
      split at h
      · split at h
        · cases h
          exact ⟨⟨sound.cache, sound.calls⟩, trivial⟩
        · cases h
          exact ⟨sound, trivial⟩
      · cases h
  | delete ip =>
      simp only [Outbound.step] at h
      split at h
      · cases h
        refine ⟨⟨fun other e he => ?_, sound.calls⟩, trivial⟩
        exact sound.cache other e (GoMap.lookup_erase_cases he).2
      · cases h

/--
Every entry of the cache is mapped to its key, and every packet that was sent has its destination
in the network and went to an address that is mapped there.
-/
structure RoutesExactly (p : Portal) (trace : List (OutboundEvent × OutboundSeen))
    (s : Outbound) : Prop where
  cache : ∀ ip e, s.cache.lookup ip = some e → ipv6FromINET256 e.addr = .ok ip
  sent : ∀ event dst data, (event, OutboundSeen.sent dst data) ∈ trace →
    ∃ header, p.parseHeader data = .ok header ∧
      ipv6FromINET256 dst = .ok (.v6 header.dst "") ∧
      netPrefix.contains (.v6 header.dst "") = true

theorem outbound_routes_exactly {trace : List (OutboundEvent × OutboundSeen)}
    (run : Runs (Outbound.step p) lawfulLookup new trace s) : RoutesExactly p trace s := by
  have hrun : Sound p s ∧ ∀ entry ∈ trace, RoutedRight p entry :=
    run.safety sound_new fun _ _ _ _ sound hlawful hstep => sound.step hlawful hstep
  constructor
  · intro ip e he
    exact (hrun.1.cache ip e he).2
  · intro event dst data hsent
    obtain ⟨ip, ⟨header, hheader, rfl⟩, hcontains, hmapped⟩ := hrun.2 _ hsent
    exact ⟨header, hheader, hmapped, hcontains⟩

/-! ### Two packets to one destination -/

/-- A packet to `0200::`, the address the sample sender is mapped to. -/
def sampleOutboundPacket : Bytes := List.replicate 24 0 ++ 2 :: List.replicate 15 0

def sampleDestination : IP := .v6 (copyTo 16 [2]) ""

/-- The second packet finds the entry of the first, which is then removed. -/
def sampleOutboundEvents : List OutboundEvent :=
  [.read 0 sampleOutboundPacket, .found 0 (.ok sampleSender), .put 0 Time.zero,
    .read 1 sampleOutboundPacket, .send 1, .send 0,
    .inspect sampleDestination ⟨700 * second⟩, .delete sampleDestination]

theorem outbound_routes_exactly_sample :
    ∃ trace s, trace.map Prod.fst = sampleOutboundEvents ∧
      trace.map Prod.snd = [.nothing, .nothing, .nothing, .nothing,
        .sent sampleSender sampleOutboundPacket, .sent sampleSender sampleOutboundPacket,
        .nothing, .nothing] ∧
      RoutesExactly samplePortal trace s := by
  have hreplay : (replay (Outbound.step samplePortal) lawfulLookup new
      sampleOutboundEvents).map (fun result => result.2.map Prod.snd) =
      some [.nothing, .nothing, .nothing, .nothing,
        .sent sampleSender sampleOutboundPacket, .sent sampleSender sampleOutboundPacket,
        .nothing, .nothing] := by
    decide +kernel
  obtain ⟨trace, s, hevents, run, hseen⟩ := exists_run_of_map hreplay
  exact ⟨trace, s, hevents, hseen, outbound_routes_exactly run⟩

end Outbound

end Inet256.Ipv6
