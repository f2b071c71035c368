import Inet256.Ipv6.Outbound
import Mathlib.Data.List.TakeWhile

/-!
# The loop that reads packets from the device

`outboundLoop` reads all packets into one buffer, behind some room for a header
of the device, and calls `handleOutbound` with what it takes for the packet.
-/

namespace Inet256.Ipv6

open Inet256.Foundation

def tunOffset : Nat := 4

/-- What `dev.Read` returns: the packet that it has put into the buffer, or an error. -/
inductive DeviceRead where
  | packet (data : Bytes)
  | failed (err : String)

/-- The buffer with the packet put into it at the offset. -/
def place (buf : Bytes) (off : Nat) (packet : Bytes) : Bytes :=
  buf.take off ++ (packet ++ buf.drop (off + packet.length))

/--
The loop with this buffer: the data that `handleOutbound` is called with while these are read,
and what has become of the loop.  An error of `handleOutbound` is only logged.
-/
def outboundFrom (buf : Bytes) : List DeviceRead → List Bytes × LoopState
  | [] => ([], .receiving)
  | .failed err :: _ => ([], .returned (.error err))
  | .packet packet :: rest =>
      let buf := place buf tunOffset packet
      let n := packet.length
      match slice buf tunOffset n with
      | .error fault => ([], .returned fault)
      | .ok data =>
          let (calls, state) := outboundFrom buf rest
          (data :: calls, state)

def outboundLoop (mtu : Except String Nat) (reads : List DeviceRead) : List Bytes × LoopState :=
  match mtu with
  | .error err => ([], .returned (.error err))
  | .ok mtu => outboundFrom (List.replicate mtu 0) reads

/-! ## One round -/

theorem length_place {buf packet : Bytes} {off : Nat} (h : off + packet.length ≤ buf.length) :
    (place buf off packet).length = buf.length := by
  simp only [place, List.length_append, List.length_take, List.length_drop]
  omega

/-- The bound of the slice is the length of the packet, not the end of the packet. -/
theorem slice_place {buf packet : Bytes} {off : Nat} (h : off + packet.length ≤ buf.length) :
    slice (place buf off packet) off packet.length =
      if off ≤ packet.length then .ok (packet.take (packet.length - off))
      else crash "slice bounds out of range" := by
  have hbound : packet.length ≤ (place buf off packet).length := by
    rw [length_place h]
    omega
  split
  · next hoff =>
      have hfront : (buf.take off).length = off := by
        rw [List.length_take]
        omega
      rw [slice_eq_ok hoff hbound, place, List.drop_left' hfront,
        List.take_append_of_le_length (Nat.sub_le _ _)]
  · next hoff => rw [slice, if_neg fun horder => hoff horder.1]

/-! ## All packets -/

def LongEnough (packet : Bytes) : Prop := tunOffset ≤ packet.length

instance (packet : Bytes) : Decidable (LongEnough packet) :=
  inferInstanceAs (Decidable (tunOffset ≤ packet.length))

/-- The packet without as many bytes at its end as the offset has. -/
def cut (packet : Bytes) : Bytes := packet.take (packet.length - tunOffset)

theorem outboundFrom_packets {buf : Bytes} {packets : List Bytes}
    (hfit : ∀ packet ∈ packets, tunOffset + packet.length ≤ buf.length) :
    outboundFrom buf (packets.map .packet) =
      ((packets.takeWhile fun packet => decide (LongEnough packet)).map cut,
        if ∀ packet ∈ packets, LongEnough packet then .receiving
        else .returned (.panic "slice bounds out of range")) := by
  induction packets generalizing buf with
  | nil => rfl
  | cons packet packets ih =>
      have hfirst := hfit packet (by simp)
      rw [List.map_cons, outboundFrom]
      simp only [slice_place hfirst]
      by_cases hlong : LongEnough packet
      · have hlong' : tunOffset ≤ packet.length := hlong
        -- the next packets are read into a buffer of the same length
        have hfit' : ∀ other ∈ packets,
            tunOffset + other.length ≤ (place buf tunOffset packet).length := by
          intro other hother
          rw [length_place hfirst]
          exact hfit other (List.mem_cons_of_mem _ hother)
        simp [hlong', hlong, ih hfit', cut]
      · have hshort : ¬ tunOffset ≤ packet.length := hlong
        simp [hshort, hlong, crash]

theorem outboundLoop_packets {mtu : Nat} {packets : List Bytes}
    (hfit : ∀ packet ∈ packets, tunOffset + packet.length ≤ mtu) :
    outboundLoop (.ok mtu) (packets.map .packet) =
      ((packets.takeWhile fun packet => decide (LongEnough packet)).map cut,
        if ∀ packet ∈ packets, LongEnough packet then .receiving
        else .returned (.panic "slice bounds out of range")) :=
  outboundFrom_packets (by simpa using hfit)

theorem cut_ne {packet : Bytes} (h : LongEnough packet) : cut packet ≠ packet := by
  intro hcut
  have hlength := congrArg List.length hcut
  simp only [LongEnough, tunOffset] at h
  simp only [cut, tunOffset, List.length_take] at hlength
  omega

/-- Every packet is handled once, as it was read, and the loop goes on reading. -/
def ForwardsWhole (mtu : Nat) (packets : List Bytes) : Prop :=
  outboundLoop (.ok mtu) (packets.map .packet) = (packets, .receiving)

theorem outbound_forwards_whole_iff (mtu : Nat) (packets : List Bytes)
    (hfit : ∀ packet ∈ packets, tunOffset + packet.length ≤ mtu) :
    ForwardsWhole mtu packets ↔ packets = [] := by
  rw [ForwardsWhole, outboundLoop_packets hfit]
  constructor
  · intro h
    cases packets with
    | nil => rfl
    | cons packet packets =>
        have hcalls := congrArg Prod.fst h
        by_cases hlong : LongEnough packet
        · simp only [hlong, decide_true, List.takeWhile_cons_of_pos, List.map_cons,
            List.cons.injEq] at hcalls
          exact absurd hcalls.1 (cut_ne hlong)
        · simp [hlong] at hcalls
  · rintro rfl
    simp

theorem outbound_forwards_whole_iff_sample :
    (∀ packet ∈ [Outbound.sampleOutboundPacket, []], tunOffset + packet.length ≤ 1500) ∧
      (ForwardsWhole 1500 [Outbound.sampleOutboundPacket, []] ↔
        [Outbound.sampleOutboundPacket, []] = []) := by
  have hfit : ∀ packet ∈ [Outbound.sampleOutboundPacket, []],
      tunOffset + packet.length ≤ 1500 := by
    decide
  exact ⟨hfit, outbound_forwards_whole_iff 1500 _ hfit⟩

/-- The end of the first packet is lost, and the second one is too short to be cut. -/
theorem outbound_cuts_packets :
    outboundLoop (.ok 60) [.packet Outbound.sampleOutboundPacket, .packet [6, 0, 0]] =
        ([List.replicate 24 0 ++ 2 :: List.replicate 11 0],
          .returned (.panic "slice bounds out of range")) ∧
      ¬ ForwardsWhole 60 [Outbound.sampleOutboundPacket, [6, 0, 0]] := by
  have hloop : outboundLoop (.ok 60) [.packet Outbound.sampleOutboundPacket, .packet [6, 0, 0]] =
      ([List.replicate 24 0 ++ 2 :: List.replicate 11 0],
        .returned (.panic "slice bounds out of range")) := by
    decide +kernel
  refine ⟨hloop, ?_⟩
  intro h
  have hstate := congrArg Prod.snd (hloop.symm.trans h)
  cases hstate

/-! ## What the node sends -/

namespace Outbound

variable {p : Portal} {s s' : Outbound} {event : OutboundEvent} {seen : OutboundSeen}
  {trace : List (OutboundEvent × OutboundSeen)}

/-- The call has this data from before the step, or it begins with it. -/
def HasData (s : Outbound) (event : OutboundEvent) (call : Nat) (data : Bytes) : Prop :=
  (∃ c, s.calls.lookup call = some c ∧ c.data = data) ∨ event = .read call data

theorem HasData.of_lookup {call : Nat} {c : OutboundCall}
    (h : s.calls.lookup call = some c) : s.HasData event call c.data :=
  Or.inl ⟨c, h, rfl⟩

theorem HasData.of_enter {entered call : Nat} {data : Bytes} {phase : OutboundPhase}
    {c : OutboundCall} (hdata : s.HasData event entered data)
    (h : (s.enter entered data phase).calls.lookup call = some c) :
    s.HasData event call c.data := by
  rcases GoMap.lookup_insert_cases h with ⟨rfl, rfl⟩ | ⟨-, hold⟩
  · exact hdata
  · exact .of_lookup hold

theorem HasData.of_leave {left call : Nat} {c : OutboundCall}
    (h : (s.leave left).calls.lookup call = some c) : s.HasData event call c.data :=
  .of_lookup (GoMap.lookup_erase_cases h).2

@[simp] theorem calls_putEntry (s : Outbound) (key : IP) (e : CacheEntry) :
    (s.putEntry key e).calls = s.calls := by
  unfold Outbound.putEntry
  split <;> rfl

theorem read_data {call other : Nat} {data : Bytes} {c : OutboundCall}
    (h : (s.read p call data).1.calls.lookup other = some c) :
    s.HasData (.read call data) other c.data := by
  unfold Outbound.read at h
  split at h
  · exact .of_lookup h
  · dsimp only at h
    split at h
    · exact .of_enter (Or.inr rfl) h
    · split at h
      · exact .of_lookup h
      · exact .of_enter (Or.inr rfl) h

theorem read_not_sent (p : Portal) (s : Outbound) (call : Nat) (data : Bytes) (dst : Addr)
    (sent : Bytes) : (s.read p call data).2 ≠ .sent dst sent := by
  unfold Outbound.read
  split
  · simp
  · dsimp only
    split
    · simp
    · split <;> simp

/-- Where the data of the calls, and of what is sent, comes from in one step. -/
theorem step_data (h : s.step p event = some (s', seen)) :
    (∀ call c, s'.calls.lookup call = some c → s.HasData event call c.data) ∧
      ∀ dst data, seen = .sent dst data →
        ∃ call c, s.calls.lookup call = some c ∧ c.data = data := by
  cases event with
  | read call data =>
      simp only [Outbound.step] at h
      split at h
      · cases h
      · obtain ⟨rfl, rfl⟩ := Prod.mk.inj (Option.some.inj h)
        refine ⟨fun other c hc => read_data hc, ?_⟩
        intro dst sent hsent
        exact absurd hsent (read_not_sent p s call data dst sent)
  | found call answer =>
      simp only [Outbound.step] at h
      split at h
      · next data ip pre nbits hc =>
          cases answer with
          | error err =>
              cases h
              exact ⟨fun other c hother => .of_leave hother, by simp⟩
          | ok dst =>
              cases h
              exact ⟨fun other c hother => .of_enter (.of_lookup hc) hother, by simp⟩
      · cases h
  | put call now =>
      simp only [Outbound.step] at h
      split at h
      · next data ip dst hc =>
          cases h
          refine ⟨fun other c hother => ?_, by simp⟩
          simp only [enter, calls_putEntry] at hother
          exact .of_enter (.of_lookup hc) hother
      · cases h
  | send call =>
      simp only [Outbound.step] at h
      split at h
      · next data dst hc =>
          cases h
          refine ⟨fun other c hother => .of_leave hother, ?_⟩
          intro dst' data' hsent
          cases hsent
          exact ⟨call, _, hc, rfl⟩
      · cases h
  | inspect ip now =>
      simp only [Outbound.step] at h
      split at h
      · split at h
        · cases h
          exact ⟨fun other c hother => .of_lookup hother, by simp⟩
        · cases h
          exact ⟨fun other c hother => .of_lookup hother, by simp⟩
      · cases h
  | delete ip =>
      simp only [Outbound.step] at h
      split at h
      · cases h
        exact ⟨fun other c hother => .of_lookup hother, by simp⟩
      · cases h

def readData : OutboundEvent → Option Bytes
  | .read _ data => some data
  | _ => none

end Outbound

end Inet256.Ipv6
