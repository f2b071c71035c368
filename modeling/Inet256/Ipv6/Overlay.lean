import Inet256.Ipv6.OutboundLoop
import Inet256.Pki.AddrText
import Mathlib.Logic.Function.Basic

/-!
# Portals across the network

Every host runs a portal.  Packets read from its device are sent by its node; a
message that was sent may reach the node it is addressed to any number of times,
or never; what the portal there writes to its device is a packet of another host.
Both loops of a portal run in one process, which a panic in either of them ends.
-/

namespace Inet256.Ipv6

open Inet256.Foundation
open Inet256.Addr (Denotes)

/-! ## Who may send -/

def newline : UInt8 := 10

section Whitelist

-- the rendering of bytes by the verb `%q`
variable (quote : Bytes → String)

/-- The loop of `ParseWhitelist`. -/
def parseLines : Nat → List Bytes → Go (List Addr)
  | _, [] => .ok []
  | i, line :: lines =>
      match Addr.parseAddrBase64 line with
      | .error (.panic text) => crash text
      | .error (.error err) =>
          fail (s!"line {i}: " ++ quote line ++ " is not a valid INET256 address: " ++ err)
      | .ok addr => do
          let rest ← parseLines (i + 1) lines
          return addr :: rest

def parseWhitelist (x : Bytes) : Go (Addr → Bool) := do
  let allowed ← parseLines quote 0 (x.splitOn newline)
  return fun x => decide (x ∈ allowed)

/-- Without a whitelist everyone may send. -/
def allowFunc : Option Bytes → Go (Addr → Bool)
  | none => .ok fun _ => true
  | some whitelist => parseWhitelist quote whitelist

end Whitelist

/-- A line of the whitelist, if there is one, is the text of the address. -/
def Listed (whitelist : Option Bytes) (addr : Addr) : Prop :=
  ∀ text, whitelist = some text → ∃ line ∈ text.splitOn newline, Denotes line addr

variable {quote : Bytes → String}

theorem mem_parseLines {i : Nat} {lines : List Bytes} {allowed : List Addr} {addr : Addr}
    (h : parseLines quote i lines = .ok allowed) :
    addr ∈ allowed ↔ ∃ line ∈ lines, Denotes line addr := by
  induction lines generalizing i allowed with
  | nil =>
      cases h
      simp
  | cons line lines ih =>
      rw [parseLines] at h
      split at h
      · cases h
      · cases h
      · next first hfirst =>
          rw [Addr.parseAddrBase64_eq] at hfirst
          obtain ⟨rest, hrest, hall⟩ := Go.bind_eq_ok.mp h
          cases hall
          have hline : Denotes line addr ↔ addr = first := by
            rw [← Addr.unmarshalText_eq_ok_iff, hfirst, Except.ok.injEq, eq_comm]
          rw [List.mem_cons, ih hrest, List.exists_mem_cons_iff, hline]

theorem allowFunc_eq_ok {whitelist : Option Bytes} {af : Addr → Bool}
    (h : allowFunc quote whitelist = .ok af) (addr : Addr) :
    af addr = true ↔ Listed whitelist addr := by
  cases whitelist with
  | none =>
      cases h
      simp [Listed]
  | some text =>
      obtain ⟨allowed, hallowed, hall⟩ := Go.bind_eq_ok.mp h
      cases hall
      simp only [decide_eq_true_eq, Listed, Option.some.injEq, forall_eq']
      exact mem_parseLines hallowed

/-! ## Hosts -/

/-- The address of every host's node and its whitelist, which was read when its portal started. -/
structure Hosts (ι : Type) where
  addr : ι → Addr
  whitelist : ι → Option Bytes
  af : ι → Addr → Bool
  quote : Bytes → String
  started : ∀ host, allowFunc quote (whitelist host) = .ok (af host)
  parseHeader : Bytes → Except String Header
  showIP : IP → String
  mtu : Nat

variable {ι : Type}

def Hosts.portal (net : Hosts ι) (host : ι) : Portal := ⟨net.af host, net.parseHeader, net.showIP⟩

/-- A portal at work. -/
structure Host where
  /-- The buffer of `outboundLoop`. -/
  buf : Bytes
  outbound : Outbound
  /-- What `Receive` has returned to `inboundLoop`. -/
  received : List Received
  /-- The panic of `outboundLoop`. -/
  crashed : Option Fault

def Host.new (mtu : Nat) : Host := ⟨List.replicate mtu 0, Outbound.new, [], none⟩

/-- The packets written to the device, and what has become of the loop that writes them. -/
def Host.inbound (p : Portal) (s : Host) : List Bytes × LoopState :=
  let (packets, state) := p.inboundLoop s.received
  match s.crashed with
  | some fault => (packets, .returned fault)
  | none => (packets, state)

def LoopState.panicked : LoopState → Bool
  | .returned (.panic _) => true
  | _ => false

inductive HostEvent where
  | device (call : Nat) (packet : Bytes)
  | outbound (event : OutboundEvent)
  | receive (received : Received)

/-- A round of `outboundLoop` or of `inboundLoop`, or what `handleOutbound` does later. -/
def Host.step (p : Portal) (s : Host) : HostEvent → Option (Host × OutboundSeen)
  | .device call packet =>
      if (s.inbound p).2.panicked = false ∧ tunOffset + packet.length ≤ s.buf.length then
        let buf := place s.buf tunOffset packet
        match slice buf tunOffset packet.length with
        | .error fault => some ({ s with buf, crashed := some fault }, .dropped fault)
        | .ok data => do
            let (outbound, seen) ← s.outbound.step p (.read call data)
            some ({ s with buf, outbound }, seen)
      else none
  | .outbound event =>
      if (s.inbound p).2.panicked = false ∧ Outbound.readData event = none then do
        let (outbound, seen) ← s.outbound.step p event
        some ({ s with outbound }, seen)
      else none
  | .receive received =>
      if (s.inbound p).2 = .receiving then
        some ({ s with received := s.received ++ [received] }, .nothing)
      else none

/-- `FindAddr` of the node returns only addresses with the prefix. -/
def Host.lawful (s : Host) : HostEvent → Prop
  | .outbound event => s.outbound.lawfulLookup event
  | _ => True

instance (s : Host) (event : HostEvent) : Decidable (s.lawful event) := by
  unfold Host.lawful
  split <;> infer_instance

/-- What a step does to the calls of `handleOutbound`, to what was received and to the process. -/
inductive Host.Moves (p : Portal) (s s' : Host) : HostEvent → OutboundSeen → Prop
  | crash (call : Nat) (packet : Bytes) (fault : Fault) (hshort : ¬ LongEnough packet)
      (houtbound : s'.outbound = s.outbound) (hreceived : s'.received = s.received)
      (hcrashed : s'.crashed = some (.panic "slice bounds out of range")) :
      Moves p s s' (.device call packet) (.dropped fault)
  | read (call : Nat) (packet : Bytes) (seen : OutboundSeen) (hlong : LongEnough packet)
      (hstep : s.outbound.step p (.read call (cut packet)) = some (s'.outbound, seen))
      (hreceived : s'.received = s.received) (hcrashed : s'.crashed = s.crashed) :
      Moves p s s' (.device call packet) seen
  | outbound (event : OutboundEvent) (seen : OutboundSeen)
      (hread : Outbound.readData event = none)
      (hstep : s.outbound.step p event = some (s'.outbound, seen))
      (hreceived : s'.received = s.received) (hcrashed : s'.crashed = s.crashed) :
      Moves p s s' (.outbound event) seen
  | receive (received : Received) (houtbound : s'.outbound = s.outbound)
      (hreceived : s'.received = s.received ++ [received]) (hcrashed : s'.crashed = s.crashed) :
      Moves p s s' (.receive received) .nothing

variable {p : Portal} {s s' : Host} {event : HostEvent} {seen : OutboundSeen}

theorem Host.moves_of_step (h : s.step p event = some (s', seen)) : Moves p s s' event seen := by
  cases event with
  | device call packet =>
      simp only [Host.step] at h
      split at h
      · next hguard =>
          rw [slice_place hguard.2] at h
          by_cases hlong : LongEnough packet
          · have hoff : tunOffset ≤ packet.length := hlong
            simp only [if_pos hoff] at h
            obtain ⟨⟨outbound, seen⟩, hstep, hall⟩ := Option.bind_eq_some_iff.mp h
            cases hall
            exact .read call packet _ hlong hstep rfl rfl
          · have hoff : ¬ tunOffset ≤ packet.length := hlong
            simp only [if_neg hoff] at h
            cases h
            exact .crash call packet _ hlong rfl rfl rfl
      · cases h
  | outbound event =>
      simp only [Host.step] at h
      split at h
      · next hguard =>
          obtain ⟨⟨outbound, seen⟩, hstep, hall⟩ := Option.bind_eq_some_iff.mp h
          cases hall
          exact .outbound event _ hguard.2 hstep rfl rfl
      · cases h
  | receive received =>
      simp only [Host.step] at h
      split at h
      · cases h
        exact .receive received rfl rfl rfl
      · cases h

/-! ### What one step keeps -/

/-- The event reads a packet from the device that is handled as this data. -/
def Host.Reads (event : HostEvent) (data : Bytes) : Prop :=
  ∃ call packet, event = .device call packet ∧ LongEnough packet ∧ data = cut packet

/-- The event reads a packet that has fewer bytes than the offset. -/
def HostEvent.tooShort : HostEvent → Bool
  | .device _ packet => !decide (LongEnough packet)
  | _ => false

namespace Host.Moves

/-- The next state of the outbound half, and what is sent by it. -/
theorem outbound_sound (h : Moves p s s' event seen) (hlawful : s.lawful event)
    (sound : Outbound.Sound p s.outbound) :
    Outbound.Sound p s'.outbound ∧ ∀ dst data, seen = .sent dst data →
      ∃ ip, Outbound.Destined p data ip ∧ Outbound.Routes ip dst := by
  cases h with
  | crash call packet fault _ houtbound =>
      rw [houtbound]
      exact ⟨sound, by simp⟩
  | read call packet _ _ hstep =>
      have hfree : s.outbound.lawfulLookup (.read call (cut packet)) := trivial
      obtain ⟨hsound, hright⟩ := sound.step hfree hstep
      refine ⟨hsound, ?_⟩
      rintro dst data rfl
      exact hright
  | outbound e _ _ hstep =>
      obtain ⟨hsound, hright⟩ := sound.step hlawful hstep
      refine ⟨hsound, ?_⟩
      rintro dst data rfl
      exact hright
  | receive received houtbound =>
      rw [houtbound]
      exact ⟨sound, by simp⟩

/-- The data of the calls, and of what is sent, was read by this step or before it. -/
theorem data (h : Moves p s s' event seen) :
    (∀ call c, s'.outbound.calls.lookup call = some c →
      (∃ before, s.outbound.calls.lookup call = some before ∧ before.data = c.data) ∨
        Reads event c.data) ∧
    ∀ dst data, seen = .sent dst data →
      ∃ call c, s.outbound.calls.lookup call = some c ∧ c.data = data := by
  cases h with
  | crash call packet fault _ houtbound =>
      rw [houtbound]
      exact ⟨fun call c hc => Or.inl ⟨c, hc, rfl⟩, by simp⟩
  | read call packet _ hlong hstep =>
      obtain ⟨hcalls, hsent⟩ := Outbound.step_data hstep
      refine ⟨fun other c hc => ?_, hsent⟩
      rcases hcalls other c hc with hbefore | hread
      · exact Or.inl hbefore
      · exact Or.inr ⟨call, packet, rfl, hlong, (OutboundEvent.read.inj hread).2.symm⟩
  | outbound e _ hread hstep =>
      obtain ⟨hcalls, hsent⟩ := Outbound.step_data hstep
      refine ⟨fun other c hc => ?_, hsent⟩
      rcases hcalls other c hc with hbefore | rfl
      · exact Or.inl hbefore
      · cases hread
  | receive received houtbound =>
      rw [houtbound]
      exact ⟨fun call c hc => Or.inl ⟨c, hc, rfl⟩, by simp⟩

theorem received (h : Moves p s s' event seen) {r : Received} (hr : r ∈ s'.received) :
    r ∈ s.received ∨ event = .receive r := by
  cases h with
  | crash _ _ _ _ _ hreceived => exact Or.inl (hreceived ▸ hr)
  | read _ _ _ _ _ hreceived => exact Or.inl (hreceived ▸ hr)
  | outbound _ _ _ _ hreceived => exact Or.inl (hreceived ▸ hr)
  | receive new _ hreceived =>
      rw [hreceived, List.mem_append, List.mem_singleton] at hr
      rcases hr with hold | rfl
      · exact Or.inl hold
      · exact Or.inr rfl

/-- Only a packet that is too short crashes the process. -/
theorem crashed (h : Moves p s s' event seen) :
    event.tooShort = true ∧ s'.crashed = some (.panic "slice bounds out of range") ∨
      event.tooShort = false ∧ s'.crashed = s.crashed := by
  cases h with
  | crash _ _ _ hshort _ _ hcrashed => exact Or.inl ⟨by simpa [HostEvent.tooShort], hcrashed⟩
  | read _ _ _ hlong _ _ hcrashed => exact Or.inr ⟨by simpa [HostEvent.tooShort], hcrashed⟩
  | outbound _ _ _ _ _ hcrashed => exact Or.inr ⟨rfl, hcrashed⟩
  | receive _ _ _ hcrashed => exact Or.inr ⟨rfl, hcrashed⟩

end Host.Moves

/-! ## The inbound loop -/

/-- What is to be written for a message: its payload, if its sender is allowed. -/
def Portal.allowedPayload (p : Portal) : Received → Option Bytes
  | .message msg _ => if p.af msg.src then some msg.payload else none
  | .failed _ => none

/-- The loop does not go on after this. -/
def Portal.Ends (p : Portal) : Received → Prop
  | .message msg writeErr =>
      p.af msg.src = true ∧ (writeErr.isSome = true ∨ p.genuine msg = false)
  | .failed _ => True

theorem addrFromSlice_eq_v6 {data : Bytes} {ip : IP} (h : addrFromSlice data = some ip)
    (hlength : ip.asSlice.length = 16) : ∃ bytes, ip = .v6 bytes "" := by
  rw [asSlice_addrFromSlice h] at hlength
  have hnot : data.length ≠ 4 := by omega
  rw [addrFromSlice, dif_neg hnot, dif_pos hlength] at h
  exact ⟨_, (Option.some.inj h).symm⟩

theorem ipv6FromINET256_eq_v6 {a : Addr} {ip : IP} (h : ipv6FromINET256 a = .ok ip) :
    ∃ bytes, ip = .v6 bytes "" := by
  have hlength := length_asSlice_ipv6FromINET256 h
  simp only [ipv6FromINET256, Go.bind_eq_ok] at h
  obtain ⟨_, -, _, -, _, -, buf, -, h⟩ := h
  split at h
  · cases h
  · split at h
    · cases h
    · next found hfound =>
        cases h
        exact addrFromSlice_eq_v6 hfound hlength

/-- A packet that parses comes from the address its sender is mapped to, or it is not genuine. -/
theorem genuine_iff {p : Portal} {msg : Message} {header : Header}
    (h : p.parseHeader msg.payload = .ok header) :
    p.genuine msg = true ↔ ipv6FromINET256 msg.src = .ok (.v6 header.src "") := by
  unfold Portal.genuine
  rw [h]
  cases hip : ipv6FromINET256 msg.src with
  | error fault => simp
  | ok ip =>
      obtain ⟨bytes, rfl⟩ := ipv6FromINET256_eq_v6 hip
      have hbytes : header.src.toList = bytes.toList ↔ bytes = header.src :=
        ⟨fun hsame => (List.Vector.toList_injective hsame).symm, fun hsame => hsame ▸ rfl⟩
      simpa [IP.asSlice] using hbytes

theorem handleInbound_eq_ok {p : Portal} {msg : Message} {writeErr : Option String}
    {packet : Bytes} (h : p.handleInbound msg.src msg.payload writeErr = .ok packet) :
    p.genuine msg = true ∧ packet = msg.payload := by
  cases writeErr with
  | some err =>
      unfold Portal.handleInbound at h
      split at h
      · cases h
      · obtain ⟨ip, -, h⟩ := Go.bind_eq_ok.mp h
        split at h <;> cases h
  | none =>
      cases hgenuine : p.genuine msg with
      | true =>
          rw [handleInbound_of_genuine hgenuine] at h
          exact ⟨rfl, (Except.ok.inj h).symm⟩
      | false =>
          obtain ⟨fault, hfault⟩ := handleInbound_of_not_genuine hgenuine
          rw [hfault] at h
          cases h

theorem handleInbound_eq_error {p : Portal} {msg : Message} {writeErr : Option String}
    {fault : Fault} (h : p.handleInbound msg.src msg.payload writeErr = .error fault) :
    writeErr.isSome = true ∨ p.genuine msg = false := by
  cases writeErr with
  | some err => exact Or.inl rfl
  | none =>
      refine Or.inr (Bool.eq_false_iff.mpr fun hgenuine => ?_)
      rw [handleInbound_of_genuine hgenuine] at h
      cases h

theorem mem_inboundLoop {p : Portal} {rs : List Received} {packet : Bytes}
    (h : packet ∈ (p.inboundLoop rs).1) :
    ∃ msg writeErr, Received.message msg writeErr ∈ rs ∧ p.af msg.src = true ∧
      p.genuine msg = true ∧ packet = msg.payload := by
  fun_induction Portal.inboundLoop p rs with
  | case1 => cases h
  | case2 => cases h
  | case3 msg writeErr rest hdenied ih =>
      obtain ⟨msg, writeErr, hmem, hrest⟩ := ih h
      exact ⟨msg, writeErr, List.mem_cons_of_mem _ hmem, hrest⟩
  | case4 => cases h
  | case5 msg writeErr rest hallowed written hwritten packets state hrest ih =>
      rcases List.mem_cons.mp h with rfl | hlater
      · obtain ⟨hgenuine, hpacket⟩ := handleInbound_eq_ok hwritten
        exact ⟨msg, writeErr, List.mem_cons_self, by simpa using hallowed, hgenuine, hpacket⟩
      · rw [hrest] at ih
        obtain ⟨msg, writeErr, hmem, hfrom⟩ := ih hlater
        exact ⟨msg, writeErr, List.mem_cons_of_mem _ hmem, hfrom⟩

theorem inboundLoop_cases (p : Portal) (rs : List Received) :
    ((p.inboundLoop rs).2 = .receiving ∧
      (p.inboundLoop rs).1 = rs.filterMap p.allowedPayload) ∨ ∃ r ∈ rs, p.Ends r := by
  fun_induction Portal.inboundLoop p rs with
  | case1 => exact Or.inl ⟨rfl, rfl⟩
  | case2 err rest => exact Or.inr ⟨.failed err, List.mem_cons_self, trivial⟩
  | case3 msg writeErr rest hdenied ih =>
      have hpayload : p.allowedPayload (.message msg writeErr) = none := by
        simpa [Portal.allowedPayload] using hdenied
      rcases ih with ⟨hstate, hpackets⟩ | ⟨r, hr, hends⟩
      · rw [List.filterMap_cons_none hpayload]
        exact Or.inl ⟨hstate, hpackets⟩
      · exact Or.inr ⟨r, List.mem_cons_of_mem _ hr, hends⟩
  | case4 msg writeErr rest hallowed fault hfault =>
      exact Or.inr ⟨_, List.mem_cons_self, by simpa using hallowed, handleInbound_eq_error hfault⟩
  | case5 msg writeErr rest hallowed written hwritten packets state hrest ih =>
      have hpayload : p.allowedPayload (.message msg writeErr) = some written := by
        rw [(handleInbound_eq_ok hwritten).2]
        simpa [Portal.allowedPayload] using hallowed
      rw [hrest] at ih
      rcases ih with ⟨hstate, hpackets⟩ | ⟨r, hr, hends⟩
      · rw [List.filterMap_cons_some hpayload]
        exact Or.inl ⟨hstate, congrArg (written :: ·) hpackets⟩
      · exact Or.inr ⟨r, List.mem_cons_of_mem _ hr, hends⟩

/-! ## The overlay -/

deriving instance DecidableEq for Message

structure Overlay (ι : Type) where
  host : ι → Host
  /-- All messages that nodes were asked to send. -/
  sent : List Message

namespace Overlay

def new (net : Hosts ι) : Overlay ι := ⟨fun _ => Host.new net.mtu, []⟩

def inbound (net : Hosts ι) (s : Overlay ι) (host : ι) : List Bytes × LoopState :=
  (s.host host).inbound (net.portal host)

/-- Only what was sent to a node is received by it. -/
def arrives (net : Hosts ι) (s : Overlay ι) (host : ι) : HostEvent → Bool
  | .receive (.message msg _) => decide (msg ∈ s.sent ∧ msg.dst = net.addr host)
  | _ => true

/-- What a node sends carries its own address. -/
def messages (src : Addr) : OutboundSeen → List Message
  | .sent dst data => [⟨src, dst, data⟩]
  | _ => []

/-! ### Where everything comes from -/

/-- The host read a packet from its device that was handled as this data. -/
def FromDevice (trace : List ((ι × HostEvent) × OutboundSeen)) (host : ι) (data : Bytes) : Prop :=
  ∃ event seen, ((host, event), seen) ∈ trace ∧ Host.Reads event data

/-- The device of the host gave out a packet with fewer bytes than the offset. -/
def GaveShort (trace : List ((ι × HostEvent) × OutboundSeen)) (host : ι) : Prop :=
  ∃ event seen, ((host, event), seen) ∈ trace ∧ event.tooShort = true

/-- A message from this host, for the address its packet is destined to. -/
structure Genuine (net : Hosts ι) (trace : List ((ι × HostEvent) × OutboundSeen)) (host : ι)
    (msg : Message) : Prop where
  src : msg.src = net.addr host
  data : FromDevice trace host msg.payload
  routed : ∃ header, net.parseHeader msg.payload = .ok header ∧
    ipv6FromINET256 msg.dst = .ok (.v6 header.dst "") ∧
    netPrefix.contains (.v6 header.dst "") = true

structure Inv (net : Hosts ι) (trace : List ((ι × HostEvent) × OutboundSeen))
    (s : Overlay ι) : Prop where
  sound : ∀ host, Outbound.Sound (net.portal host) (s.host host).outbound
  calls : ∀ host call c, (s.host host).outbound.calls.lookup call = some c →
    FromDevice trace host c.data
  sent : ∀ msg ∈ s.sent, ∃ host, Genuine net trace host msg
  received : ∀ host msg writeErr, Received.message msg writeErr ∈ (s.host host).received →
    msg ∈ s.sent ∧ msg.dst = net.addr host
  crashed : ∀ host,
    GaveShort trace host ∧
        (s.host host).crashed = some (.panic "slice bounds out of range") ∨
      ¬ GaveShort trace host ∧ (s.host host).crashed = none

variable {net : Hosts ι} {trace : List ((ι × HostEvent) × OutboundSeen)} {s s' : Overlay ι}
  {seen : OutboundSeen}

theorem FromDevice.append {host : ι} {data : Bytes} (h : FromDevice trace host data)
    (more : List ((ι × HostEvent) × OutboundSeen)) : FromDevice (trace ++ more) host data := by
  obtain ⟨event, seen, hmem, hreads⟩ := h
  exact ⟨event, seen, List.mem_append_left _ hmem, hreads⟩

theorem Genuine.append {host : ι} {msg : Message} (h : Genuine net trace host msg)
    (more : List ((ι × HostEvent) × OutboundSeen)) : Genuine net (trace ++ more) host msg :=
  ⟨h.src, h.data.append more, h.routed⟩

theorem gaveShort_concat {host other : ι} {event : HostEvent} :
    GaveShort (trace ++ [((host, event), seen)]) other ↔
      GaveShort trace other ∨ host = other ∧ event.tooShort = true := by
  simp only [GaveShort, List.mem_append, List.mem_singleton, Prod.mk.injEq]
  constructor
  · rintro ⟨event', seen', hmem | ⟨⟨rfl, rfl⟩, rfl⟩, hshort⟩
    · exact Or.inl ⟨event', seen', hmem, hshort⟩
    · exact Or.inr ⟨rfl, hshort⟩
  · rintro (⟨event', seen', hmem, hshort⟩ | ⟨rfl, hshort⟩)
    · exact ⟨event', seen', Or.inl hmem, hshort⟩
    · exact ⟨event, seen, Or.inr ⟨⟨rfl, rfl⟩, rfl⟩, hshort⟩

theorem inv_new (net : Hosts ι) : Inv net [] (new net) where
  sound _ := Outbound.sound_new
  calls := by simp [new, Host.new, Outbound.new]
  sent := by simp [new]
  received := by simp [new, Host.new]
  crashed _ := Or.inr ⟨by simp [GaveShort], rfl⟩

theorem Inv.sent_step {host : ι} {event : HostEvent} {next : Host} (inv : Inv net trace s)
    (hlawful : (s.host host).lawful event)
    (moves : Host.Moves (net.portal host) (s.host host) next event seen) :
    ∀ msg ∈ messages (net.addr host) seen, Genuine net trace host msg := by
  intro msg hmsg
  unfold messages at hmsg
  split at hmsg
  · next dst data =>
      cases List.mem_singleton.mp hmsg
      obtain ⟨_, ⟨header, hheader, rfl⟩, hcontains, hmapped⟩ :=
        (moves.outbound_sound hlawful (inv.sound host)).2 dst data rfl
      obtain ⟨call, c, hc, rfl⟩ := moves.data.2 dst data rfl
      exact ⟨rfl, inv.calls host call c hc, header, hheader, hmapped, hcontains⟩
  · cases hmsg

/-! ### What the devices are written -/

/--
The packet was read from the device of a listed host, without the end that the reading cuts off,
and has the addresses of the two hosts as its source and destination.
-/
def Carried (net : Hosts ι) (trace : List ((ι × HostEvent) × OutboundSeen)) (host : ι)
    (packet : Bytes) : Prop :=
  ∃ sender header, Listed (net.whitelist host) (net.addr sender) ∧
    FromDevice trace sender packet ∧ net.parseHeader packet = .ok header ∧
    ipv6FromINET256 (net.addr sender) = .ok (.v6 header.src "") ∧
    ipv6FromINET256 (net.addr host) = .ok (.v6 header.dst "")

/-- The host's device gave out a packet whose source is not the address of the host. -/
def Spoofs (net : Hosts ι) (trace : List ((ι × HostEvent) × OutboundSeen)) (host : ι) : Prop :=
  ∃ data header, FromDevice trace host data ∧ net.parseHeader data = .ok header ∧
    ipv6FromINET256 (net.addr host) ≠ .ok (.v6 header.src "")

/-- `Receive` or a write to the device has failed. -/
def Disturbed (s : Overlay ι) (host : ι) : Prop :=
  (∃ err, Received.failed err ∈ (s.host host).received) ∨
    ∃ msg err, Received.message msg (some err) ∈ (s.host host).received

/--
Every packet that is written to a device was carried there.  Unless the node or the device fails,
a listed host gives out packets under another source or the device gives out a packet that is too
short, the loop goes on and has written everything that came from listed hosts.  The short packet
ends the process.
-/
structure Connects (net : Hosts ι) (trace : List ((ι × HostEvent) × OutboundSeen))
    (s : Overlay ι) : Prop where
  written : ∀ host, ∀ packet ∈ (s.inbound net host).1, Carried net trace host packet
  running : ∀ host, s.Disturbed host ∨
    (∃ sender, Listed (net.whitelist host) (net.addr sender) ∧ Spoofs net trace sender) ∨
    GaveShort trace host ∨
    s.inbound net host =
      ((s.host host).received.filterMap (net.portal host).allowedPayload, .receiving)
  crashes : ∀ host, GaveShort trace host →
    (s.inbound net host).2 = .returned (.panic "slice bounds out of range")

theorem inbound_fst (net : Hosts ι) (s : Overlay ι) (host : ι) :
    (s.inbound net host).1 = ((net.portal host).inboundLoop (s.host host).received).1 := by
  unfold inbound Host.inbound
  cases (s.host host).crashed <;> rfl

theorem inbound_of_crashed {host : ι} {fault : Fault} (h : (s.host host).crashed = some fault) :
    (s.inbound net host).2 = .returned fault := by
  simp only [inbound, Host.inbound, h]

theorem inbound_of_not_crashed {host : ι} (h : (s.host host).crashed = none) :
    s.inbound net host = (net.portal host).inboundLoop (s.host host).received := by
  simp only [inbound, Host.inbound, h]

theorem Inv.written (inv : Inv net trace s) {host : ι} {packet : Bytes}
    (h : packet ∈ (s.inbound net host).1) : Carried net trace host packet := by
  rw [inbound_fst] at h
  obtain ⟨msg, writeErr, hmem, hallowed, hgenuine, rfl⟩ := mem_inboundLoop h
  obtain ⟨hsent, hdst⟩ := inv.received host msg writeErr hmem
  obtain ⟨sender, hsrc, hdata, header, hheader, hmapped, -⟩ := inv.sent msg hsent
  rw [genuine_iff hheader, hsrc] at hgenuine
  rw [hdst] at hmapped
  refine ⟨sender, header, ?_, hdata, hheader, hgenuine, hmapped⟩
  rw [← allowFunc_eq_ok (net.started host), ← hsrc]
  exact hallowed

theorem Inv.ends (inv : Inv net trace s) {host : ι} {r : Received}
    (hr : r ∈ (s.host host).received) (h : (net.portal host).Ends r) :
    s.Disturbed host ∨
      ∃ sender, Listed (net.whitelist host) (net.addr sender) ∧ Spoofs net trace sender := by
  cases r with
  | failed err => exact Or.inl (Or.inl ⟨err, hr⟩)
  | message msg writeErr =>
      obtain ⟨hallowed, hfails⟩ := h
      cases writeErr with
      | some err => exact Or.inl (Or.inr ⟨msg, err, hr⟩)
      | none =>
          have hforged : ¬ (net.portal host).genuine msg = true := by simpa using hfails
          obtain ⟨hsent, -⟩ := inv.received host msg none hr
          obtain ⟨sender, hsrc, hdata, header, hheader, -⟩ := inv.sent msg hsent
          rw [genuine_iff hheader, hsrc] at hforged
          refine Or.inr ⟨sender, ?_, msg.payload, header, hdata, hheader, hforged⟩
          rw [← allowFunc_eq_ok (net.started host), ← hsrc]
          exact hallowed

/-! ### Steps -/

variable [DecidableEq ι]

def step (net : Hosts ι) (s : Overlay ι) (event : ι × HostEvent) :
    Option (Overlay ι × OutboundSeen) :=
  if s.arrives net event.1 event.2 then do
    let (host, seen) ← (s.host event.1).step (net.portal event.1) event.2
    some (⟨Function.update s.host event.1 host, s.sent ++ messages (net.addr event.1) seen⟩, seen)
  else none

def lawful (s : Overlay ι) (event : ι × HostEvent) : Prop := (s.host event.1).lawful event.2

instance (s : Overlay ι) (event : ι × HostEvent) : Decidable (s.lawful event) :=
  inferInstanceAs (Decidable ((s.host event.1).lawful event.2))

theorem step_eq_some {host : ι} {event : HostEvent}
    (h : s.step net (host, event) = some (s', seen)) :
    s.arrives net host event = true ∧ ∃ next,
      Host.Moves (net.portal host) (s.host host) next event seen ∧
      s' = ⟨Function.update s.host host next, s.sent ++ messages (net.addr host) seen⟩ := by
  unfold step at h
  split at h
  · next harrives =>
      obtain ⟨⟨next, seen⟩, hstep, hall⟩ := Option.bind_eq_some_iff.mp h
      cases hall
      exact ⟨harrives, next, Host.moves_of_step hstep, rfl⟩
  · cases h

theorem Inv.step {event : ι × HostEvent} (inv : Inv net trace s) (hlawful : s.lawful event)
    (h : s.step net event = some (s', seen)) : Inv net (trace ++ [(event, seen)]) s' := by
  obtain ⟨host, event⟩ := event
  obtain ⟨harrives, next, moves, rfl⟩ := step_eq_some h
  constructor
  · refine (Function.forall_update_iff s.host
      fun i h => Outbound.Sound (net.portal i) h.outbound).mpr ⟨?_, fun i _ => inv.sound i⟩
    exact (moves.outbound_sound hlawful (inv.sound host)).1
  · refine (Function.forall_update_iff s.host fun i h => ∀ call c,
      h.outbound.calls.lookup call = some c → FromDevice _ i c.data).mpr ⟨?_, ?_⟩
    · intro call c hc
      rcases moves.data.1 call c hc with ⟨before, hbefore, hdata⟩ | hreads
      · rw [← hdata]
        exact (inv.calls host call before hbefore).append _
      · exact ⟨event, seen, by simp, hreads⟩
    · intro i _ call c hc
      exact (inv.calls i call c hc).append _
  · intro msg hmsg
    rcases List.mem_append.mp hmsg with hold | hnew
    · obtain ⟨sender, hgenuine⟩ := inv.sent msg hold
      exact ⟨sender, hgenuine.append _⟩
    · exact ⟨host, (inv.sent_step hlawful moves msg hnew).append _⟩
  · refine (Function.forall_update_iff s.host fun i h => ∀ msg writeErr,
      Received.message msg writeErr ∈ h.received →
        msg ∈ s.sent ++ messages (net.addr host) seen ∧ msg.dst = net.addr i).mpr ⟨?_, ?_⟩
    · intro msg writeErr hreceived
      rcases moves.received hreceived with hold | rfl
      · exact (inv.received host msg writeErr hold).imp (List.mem_append_left _) id
      · exact (of_decide_eq_true harrives).imp (List.mem_append_left _) id
    · intro i _ msg writeErr hreceived
      exact (inv.received i msg writeErr hreceived).imp (List.mem_append_left _) id
  · refine (Function.forall_update_iff s.host fun i h => GaveShort _ i ∧ h.crashed = _ ∨
      ¬ GaveShort _ i ∧ h.crashed = none).mpr ⟨?_, ?_⟩
    · rcases moves.crashed with ⟨hshort, hcrashed⟩ | ⟨hlong, hcrashed⟩
      · exact Or.inl ⟨gaveShort_concat.mpr (Or.inr ⟨rfl, hshort⟩), hcrashed⟩
      · rw [hcrashed, gaveShort_concat, hlong]
        simpa using inv.crashed host
    · intro i hi
      rw [gaveShort_concat]
      simpa [hi.symm] using inv.crashed i

theorem portals_connect (run : Runs (Overlay.step net) lawful (new net) trace s) :
    Connects net trace s := by
  have inv : Inv net trace s := run.history (inv_new net)
    fun _ _ _ _ _ _ inv hlawful hstep => inv.step hlawful hstep
  refine ⟨fun host packet hpacket => inv.written hpacket, fun host => ?_, fun host hshort => ?_⟩
  · rcases inv.crashed host with ⟨hshort, -⟩ | ⟨-, halive⟩
    · exact Or.inr (Or.inr (Or.inl hshort))
    · rw [inbound_of_not_crashed halive]
      rcases inboundLoop_cases (net.portal host) (s.host host).received with
        ⟨hstate, hpackets⟩ | ⟨r, hr, hends⟩
      · exact Or.inr (Or.inr (Or.inr (Prod.ext hpackets hstate)))
      · rcases inv.ends hr hends with hdisturbed | hspoofed
        · exact Or.inl hdisturbed
        · exact Or.inr (Or.inl hspoofed)
  · rcases inv.crashed host with ⟨-, hcrashed⟩ | ⟨hnone, -⟩
    · exact inbound_of_crashed hcrashed
    · exact absurd hshort hnone

/-! ### A packet that arrives, one under a false source and one that is too short -/

/-- The node of `0204::`. -/
def sampleReceiver : Addr := copyTo 32 [64]

/-- From the first address to the second, with four bytes more than the header. -/
def sampleRead (src dst : UInt8) : Bytes :=
  List.replicate 8 0 ++ 2 :: src :: List.replicate 14 0 ++ 2 :: dst :: List.replicate 18 0

/-- The second host has a whitelist with the first one on it. -/
def sampleWhitelist (host : Fin 3) : Option Bytes :=
  if host = 1 then some (Addr.marshalText sampleSender) else none

def sampleAllowed (host : Fin 3) (x : Addr) : Bool :=
  if host = 1 then decide (x ∈ [sampleSender]) else true

theorem sampleWhitelist_allows (host : Fin 3) :
    allowFunc showBytes (sampleWhitelist host) = .ok (sampleAllowed host) := by
  have hlines : parseLines showBytes 0 ((Addr.marshalText sampleSender).splitOn newline) =
      .ok [sampleSender] := by
    decide +kernel
  unfold sampleWhitelist sampleAllowed
  split
  · change (parseLines showBytes 0 _ >>= _) = _
    rw [hlines]
    rfl
  · rfl

def sampleHosts : Hosts (Fin 3) where
  addr host := if host = 0 then sampleSender else if host = 1 then sampleReceiver
    else copyTo 32 [32]
  whitelist := sampleWhitelist
  af := sampleAllowed
  quote := showBytes
  started := sampleWhitelist_allows
  parseHeader := sampleParseHeader
  showIP := sampleShowIP
  mtu := 60

/--
Afterwards the second host's device gives out a packet under the first one's address, and the
third one's device a packet of three bytes.
-/
def sampleOverlayEvents : List (Fin 3 × HostEvent) :=
  [(0, .device 0 (sampleRead 0 4)), (0, .outbound (.found 0 (.ok sampleReceiver))),
    (0, .outbound (.put 0 Time.zero)), (0, .outbound (.send 0)),
    (1, .receive (.message ⟨sampleSender, sampleReceiver, cut (sampleRead 0 4)⟩ none)),
    (1, .device 0 (sampleRead 0 0)), (1, .outbound (.found 0 (.ok sampleSender))),
    (1, .outbound (.put 0 Time.zero)), (1, .outbound (.send 0)),
    (0, .receive (.message ⟨sampleReceiver, sampleSender, cut (sampleRead 0 0)⟩ none)),
    (2, .device 0 [6, 0, 0])]

theorem portals_connect_sample :
    ∃ trace s, trace.map Prod.fst = sampleOverlayEvents ∧
      [0, 1, 2].map (fun host => s.inbound sampleHosts host) =
        [([], .returned (.error "dropping inbound message from wrong source")),
          ([cut (sampleRead 0 4)], .receiving),
          ([], .returned (.panic "slice bounds out of range"))] ∧
      Connects sampleHosts trace s := by
  have hreplay : (replay (Overlay.step sampleHosts) lawful (new sampleHosts)
      sampleOverlayEvents).map (fun result =>
        [0, 1, 2].map fun host => result.1.inbound sampleHosts host) =
      some [([], .returned (.error "dropping inbound message from wrong source")),
        ([cut (sampleRead 0 4)], .receiving),
        ([], .returned (.panic "slice bounds out of range"))] := by
    decide +kernel
  obtain ⟨trace, s, hevents, run, hseen⟩ := exists_run_of_map hreplay
  exact ⟨trace, s, hevents, hseen, portals_connect run⟩

end Overlay

end Inet256.Ipv6
