import Inet256.Foundation.Runs
import Inet256.Internal.Peers

/-!
# Discovery on the local network

A bus reads datagrams into one buffer per connection and hands slices of the
buffer to its subscribers; a service opens what it is handed with the addresses
it knows as keys.  A slice keeps its length, but shows whatever the buffer holds
when it is read.
-/

namespace Inet256.Discovery.Lan

open Inet256.Foundation

variable {T : Type}

/-! ## Messages -/

def minMessageSize : Nat := 12 + 16

/-- The nil slice, or the first bytes of an array. -/
inductive Message where
  | nil
  | view (array len : Nat)
  deriving DecidableEq

namespace Message

def len : Message → Nat
  | .nil => 0
  | .view _ len => len

/-- The array up to the slice's capacity. -/
def backing (memory : Nat → Bytes) : Message → Bytes
  | .nil => []
  | .view array _ => memory array

def content (memory : Nat → Bytes) (m : Message) : Bytes := (m.backing memory).take m.len

end Message

/-- Both results: the message is nil when there is an error. -/
def parseMessage (x : Message) : Message × Option String :=
  if x.len < minMessageSize then (.nil, some "buffer too short to be message") else (x, none)

structure Advertisement where
  transports : List String
  solicit : Bool
  deriving DecidableEq

/-- Decryption under a key, with a nonce, and the decoding of advertisements. -/
structure Codecs where
  aeadOpen : Addr → Bytes → Bytes → Option Bytes
  unmarshal : Bytes → Except String Advertisement

def openLoop (codecs : Codecs) (nonce ctext : Bytes) : Nat → List Addr → Go (Nat × Bytes)
  | _, [] => fail "no provided peer sent this message"
  | i, id :: ids =>
      match codecs.aeadOpen id nonce ctext with
      | none => openLoop codecs nonce ctext (i + 1) ids
      | some ptext => .ok (i, ptext)

/-- A slice expression is bounded by the capacity; without its end it ends at the length. -/
def Message.openWith (codecs : Codecs) (memory : Nat → Bytes) (m : Message) (ids : List Addr) :
    Go (Nat × Bytes) := do
  let nonce ← slice (m.backing memory) 0 12
  let ctext ← slice (m.backing memory) 12 m.len
  openLoop codecs nonce ctext 0 ids

/-! ## The service -/

structure Params (T : Type) where
  localID : Addr
  addrParser : AddrParser T

/-- The sender, its addresses and whether it solicits an answer. -/
def readAdvertisement (codecs : Codecs) (params : Params T) (memory : Nat → Bytes)
    (ps : List Addr) (msg : Message) : Go (Addr × List T × Bool) := do
  let (i, data) ← msg.openWith codecs memory ps
  match codecs.unmarshal data with
  | .error err => fail err
  | .ok adv =>
      match parseAddrs params.addrParser adv.transports with
      | .error err => fail err
      | .ok addrs =>
          match ps[i]? with
          | none => crash "index out of range"
          | some id => return (id, addrs, adv.solicit)

/-- `ps` is the order in which the store lists its peers. -/
def handleMessage (codecs : Codecs) (params : Params T) (peers : Peers.Store T) (ps : List Addr)
    (memory : Nat → Bytes) (msg : Message) : Peers.Store T × Go Bool :=
  match msg.openWith codecs memory [params.localID] with
  -- ignore self messages
  | .ok _ => (peers, .ok false)
  | .error (.panic text) => (peers, crash text)
  | .error (.error _) =>
      match readAdvertisement codecs params memory ps msg with
      | .error fault => (peers, .error fault)
      | .ok (id, addrs, solicit) => (Peers.setAddrs peers id addrs, .ok solicit)

/-! ## The bus -/

/-- The size of the buffer a connection is read into. -/
def bufSize : Nat := 2 ^ 16

structure Datagram where
  data : Bytes
  fits : data.length ≤ bufSize
  deriving DecidableEq

/--
The arrays the connections are read into, the channels that are subscribed, and for every channel
what was sent to it and not received yet, with the peers of the service that receives from it.
-/
structure Bus (T : Type) where
  bufs : Nat → Bytes
  subs : List Nat
  pending : Nat → List Message
  peers : Nat → Peers.Store T

inductive Event where
  /-- A datagram arrives, while these channels can take a message. -/
  | receive (conn : Nat) (datagram : Datagram) (ready : List Nat)
  | subscribe (ch : Nat)
  | unsubscribe (ch : Nat)
  /-- The service of the channel takes its next message. -/
  | handle (ch : Nat) (ps : List Addr)
  deriving DecidableEq

inductive Seen where
  /-- The message, what it shows when it is handed over, and the channels that took it. -/
  | delivered (msg : Message) (content : Bytes) (chans : List Nat)
  /-- The message, what it shows when it is handled, and what is returned. -/
  | handled (msg : Message) (content : Bytes) (result : Go Bool)
  | done
  deriving DecidableEq

namespace Bus

def new (peers : Nat → Peers.Store T) : Bus T :=
  ⟨fun _ => List.replicate bufSize 0, [], fun _ => [], peers⟩

/-- `ReadFrom` overwrites the front of the buffer. -/
def fill (b : Bus T) (conn : Nat) (datagram : Datagram) : Nat → Bytes :=
  Function.update b.bufs conn
    (datagram.data ++ (b.bufs conn).drop datagram.data.length)

def deliver (pending : Nat → List Message) (msg : Message) : List Nat → Nat → List Message
  | [] => pending
  | ch :: chans => deliver (Function.update pending ch (pending ch ++ [msg])) msg chans

def step (codecs : Codecs) (params : Nat → Params T) (b : Bus T) : Event → Option (Bus T × Seen)
  | .receive conn datagram ready =>
      let bufs := b.fill conn datagram
      -- the error is logged and the message is sent all the same
      let msg := (parseMessage (.view conn datagram.data.length)).1
      let chans := b.subs.filter fun ch => ready.contains ch
      some ({ b with bufs, pending := deliver b.pending msg chans },
        .delivered msg (msg.content bufs) chans)
  | .subscribe ch => some ({ b with subs := b.subs ++ [ch] }, .done)
  | .unsubscribe ch => some ({ b with subs := b.subs.filter fun x => x ≠ ch }, .done)
  | .handle ch ps =>
      match b.pending ch with
      | [] => none
      | msg :: rest =>
          let r := handleMessage codecs (params ch) (b.peers ch) ps b.bufs msg
          some ({ b with
            pending := Function.update b.pending ch rest
            peers := Function.update b.peers ch r.1 }, .handled msg (msg.content b.bufs) r.2)

end Bus

/-! ## No message is opened out of bounds -/

/-- What was handed over has room for a message, and a message is handled without a panic. -/
def Safe : Event × Seen → Prop
  | (.receive _ datagram _, .delivered msg content chans) =>
      ∀ ch ∈ chans, minMessageSize ≤ msg.len ∧ msg.len = content.length ∧ content = datagram.data
  | (.handle _ _, .handled _ _ result) => ∀ text, result ≠ crash text
  | _ => True

def longEnough (_ : Bus T) : Event → Prop
  | .receive _ datagram _ => minMessageSize ≤ datagram.data.length
  | _ => True

instance (b : Bus T) : (event : Event) → Decidable (longEnough b event)
  | .receive _ datagram _ => inferInstanceAs (Decidable (minMessageSize ≤ datagram.data.length))
  | .subscribe _ => .isTrue trivial
  | .unsubscribe _ => .isTrue trivial
  | .handle _ _ => .isTrue trivial

/-- A slice of a buffer with room for a message. -/
def Whole : Message → Prop
  | .nil => False
  | .view _ len => minMessageSize ≤ len ∧ len ≤ bufSize

variable {codecs : Codecs} {memory : Nat → Bytes} {msg : Message}

theorem openLoop_cases (codecs : Codecs) (nonce ctext : Bytes) (i : Nat) (ids : List Addr) :
    (∃ j ptext, openLoop codecs nonce ctext i ids = .ok (j, ptext) ∧ j < i + ids.length) ∨
      ∃ text, openLoop codecs nonce ctext i ids = fail text := by
  induction ids generalizing i with
  | nil => exact Or.inr ⟨_, rfl⟩
  | cons id ids ih =>
      cases hopen : codecs.aeadOpen id nonce ctext with
      | some ptext =>
          apply Or.inl
          exact ⟨i, ptext, by simp [openLoop, hopen], by simp⟩
      | none =>
          simp only [openLoop, hopen, List.length_cons]
          rcases ih (i + 1) with ⟨j, ptext, h, hj⟩ | h
          · exact Or.inl ⟨j, ptext, h, by omega⟩
          · exact Or.inr h

theorem openWith_cases (hmemory : ∀ array, (memory array).length = bufSize) (hmsg : Whole msg)
    (codecs : Codecs) (ids : List Addr) :
    (∃ j ptext, msg.openWith codecs memory ids = .ok (j, ptext) ∧ j < ids.length) ∨
      ∃ text, msg.openWith codecs memory ids = fail text := by
  cases msg with
  | nil => cases hmsg
  | view array len =>
      obtain ⟨hmin, hmax⟩ := hmsg
      have hlength := hmemory array
      simp only [minMessageSize] at hmin
      have hnonce : slice (memory array) 0 12 = .ok _ := slice_eq_ok (by omega) (by omega)
      have hctext : slice (memory array) 12 len = .ok _ := slice_eq_ok (by omega) (by omega)
      simp only [Message.openWith, Message.backing, Message.len, hnonce, hctext, Go.ok_bind]
      simpa using openLoop_cases codecs _ _ 0 ids

theorem readAdvertisement_ne_crash (hmemory : ∀ array, (memory array).length = bufSize)
    (hmsg : Whole msg) (params : Params T) (ps : List Addr) (text : String) :
    readAdvertisement codecs params memory ps msg ≠ crash text := by
  unfold readAdvertisement
  rcases openWith_cases hmemory hmsg codecs ps with ⟨j, data, h, hj⟩ | ⟨err, h⟩
  · simp only [h, Go.ok_bind, List.getElem?_eq_getElem hj]
    split
    · simp [fail, crash]
    · split <;> simp [fail, crash]
  · simp [h, fail, crash, bind, Except.bind]

theorem handleMessage_ne_crash (hmemory : ∀ array, (memory array).length = bufSize)
    (hmsg : Whole msg) (params : Params T) (peers : Peers.Store T) (ps : List Addr)
    (text : String) : (handleMessage codecs params peers ps memory msg).2 ≠ crash text := by
  unfold handleMessage
  rcases openWith_cases hmemory hmsg codecs [params.localID] with ⟨j, data, h, -⟩ | ⟨err, h⟩
  · simp [h, crash]
  · have hread : readAdvertisement codecs params memory ps msg ≠ crash text :=
      readAdvertisement_ne_crash hmemory hmsg params ps text
    simp only [h, fail]
    split
    · next fault hfault => simpa [hfault, crash] using hread
    · simp [crash]

namespace Bus

variable {params : Nat → Params T} {b b' : Bus T}

structure Sound (b : Bus T) : Prop where
  bufs : ∀ conn, (b.bufs conn).length = bufSize
  pending : ∀ ch, ∀ msg ∈ b.pending ch, Whole msg

theorem sound_new (peers : Nat → Peers.Store T) : (new peers).Sound where
  bufs := by simp [new]
  pending := by simp [new]

theorem mem_deliver {chans : List Nat} {ch : Nat} {other : Message}
    {pending : Nat → List Message} (h : other ∈ deliver pending msg chans ch) :
    other = msg ∨ other ∈ pending ch := by
  induction chans generalizing pending with
  | nil => exact Or.inr h
  | cons first chans ih =>
      rcases ih h with h | h
      · exact Or.inl h
      · by_cases hfirst : ch = first
        · subst hfirst
          simpa [or_comm] using h
        · simp only [Function.update_of_ne hfirst] at h
          exact Or.inr h

theorem Sound.length_fill (sound : b.Sound) (conn : Nat) (datagram : Datagram) (other : Nat) :
    (b.fill conn datagram other).length = bufSize := by
  have hfits := datagram.fits
  by_cases hother : other = conn
  · subst hother
    simp [fill, sound.bufs other, hfits]
  · simp [fill, hother, sound.bufs other]

theorem content_fill (b : Bus T) (conn : Nat) (datagram : Datagram) :
    Message.content (b.fill conn datagram) (.view conn datagram.data.length) = datagram.data := by
  simp [Message.content, Message.backing, Message.len, fill]

theorem parseMessage_of_le {array len : Nat} (h : minMessageSize ≤ len) :
    parseMessage (.view array len) = (.view array len, none) := by
  simp [parseMessage, Message.len, Nat.not_lt.mpr h]

theorem Sound.step {event : Event} {seen : Seen} (sound : b.Sound)
    (hlong : longEnough b event) (h : b.step codecs params event = some (b', seen)) :
    b'.Sound ∧ Safe (event, seen) := by
  cases event with
  | receive conn datagram ready =>
      simp only [longEnough] at hlong
      simp only [Bus.step, parseMessage_of_le hlong, content_fill, Option.some.injEq,
        Prod.mk.injEq] at h
      obtain ⟨rfl, rfl⟩ := h
      refine ⟨⟨sound.length_fill conn datagram, ?_⟩, fun _ _ => ⟨hlong, rfl, rfl⟩⟩
      intro ch other hother
      rcases mem_deliver hother with rfl | hother
      · exact ⟨hlong, datagram.fits⟩
      · exact sound.pending ch other hother
  | subscribe ch =>
      cases h
      exact ⟨⟨sound.bufs, sound.pending⟩, trivial⟩
  | unsubscribe ch =>
      cases h
      exact ⟨⟨sound.bufs, sound.pending⟩, trivial⟩
  | handle ch ps =>
      cases hpending : b.pending ch with
      | nil => simp [Bus.step, hpending] at h
      | cons msg rest =>
          have hmsg : Whole msg := sound.pending ch msg (by simp [hpending])
          simp only [Bus.step, hpending, Option.some.injEq, Prod.mk.injEq] at h
          obtain ⟨rfl, rfl⟩ := h
          refine ⟨⟨sound.bufs, ?_⟩, handleMessage_ne_crash sound.bufs hmsg _ _ _⟩
          intro other waiting hwaiting
          apply sound.pending other
          by_cases hother : other = ch
          · subst hother
            simp only [Function.update_self] at hwaiting
            simp [hpending, hwaiting]
          · simpa [hother] using hwaiting

/-- The connection is not read. -/
def leaves (conn : Nat) (_ : Bus T) : Event → Prop
  | .receive other _ _ => other ≠ conn
  | _ => True

theorem bufs_step {event : Event} {seen : Seen} {conn : Nat} (hleaves : leaves conn b event)
    (h : b.step codecs params event = some (b', seen)) : b'.bufs conn = b.bufs conn := by
  cases event with
  | receive other datagram ready =>
      cases h
      exact Function.update_of_ne (Ne.symm hleaves) _ _
  | subscribe ch =>
      cases h
      rfl
  | unsubscribe ch =>
      cases h
      rfl
  | handle ch ps =>
      cases hpending : b.pending ch with
      | nil => simp [Bus.step, hpending] at h
      | cons msg rest =>
          simp only [Bus.step, hpending, Option.some.injEq, Prod.mk.injEq] at h
          rw [← h.1]

theorem content_of_handle {ch : Nat} {ps : List Addr} {content : Bytes} {result : Go Bool}
    (h : b.step codecs params (.handle ch ps) = some (b', .handled msg content result)) :
    content = msg.content b.bufs := by
  cases hpending : b.pending ch with
  | nil => simp [Bus.step, hpending] at h
  | cons first rest =>
      simp only [Bus.step, hpending, Option.some.injEq, Prod.mk.injEq, Seen.handled.injEq] at h
      obtain ⟨-, rfl, rfl, -⟩ := h
      rfl

/--
Everything that is handed over or handled is safe, and a message that is handled before its
connection is read again shows the datagram.
-/
structure SafeRun (trace : List (Event × Seen)) : Prop where
  safe : ∀ entry ∈ trace, Safe entry
  shows : ∀ before conn datagram ready msg handed chans middle ch ps content result after,
    trace = before ++ (.receive conn datagram ready, .delivered msg handed chans) ::
      (middle ++ (.handle ch ps, .handled msg content result) :: after) →
    (∀ entry ∈ middle, ∀ again ready', entry.1 ≠ .receive conn again ready') →
    content = datagram.data

theorem shows_of_run {allowed : Bus T → Event → Prop} {before middle after : List (Event × Seen)}
    {conn ch : Nat} {datagram : Datagram} {ready chans : List Nat} {ps : List Addr}
    {handed content : Bytes} {result : Go Bool} (hlong : minMessageSize ≤ datagram.data.length)
    {start : Bus T} (run : Runs (Bus.step codecs params) allowed start
      (before ++ (.receive conn datagram ready, .delivered msg handed chans) ::
        (middle ++ (.handle ch ps, .handled msg content result) :: after)) b)
    (hmiddle : ∀ entry ∈ middle, ∀ again ready', entry.1 ≠ .receive conn again ready') :
    content = datagram.data := by
  obtain ⟨here, there, -, -, hreceive, run⟩ := run.middle
  simp only [Bus.step, parseMessage_of_le hlong, Option.some.injEq, Prod.mk.injEq,
    Seen.delivered.injEq] at hreceive
  obtain ⟨rfl, rfl, -, -⟩ := hreceive
  obtain ⟨waiting, _, between, -, hhandle, -⟩ := run.middle
  -- the buffer stays as the datagram has left it
  have hbuf : waiting.bufs conn = here.fill conn datagram conn := by
    have hleaves := between.restrict fun entry hentry state => show leaves conn state entry.1 by
      unfold leaves
      split
      · next other again ready' hevent =>
          rintro rfl
          exact hmiddle entry hentry again ready' hevent
      · trivial
    exact hleaves.invariant (motive := fun state => state.bufs conn = here.fill conn datagram conn)
      rfl fun _ _ _ _ hsame hevent hstep => (bufs_step hevent hstep).trans hsame
  rw [content_of_handle hhandle]
  refine Eq.trans ?_ (content_fill here conn datagram)
  simp only [Message.content, Message.backing, hbuf]

/-- As long as no short datagram arrives, whatever else arrives and however it is handled. -/
theorem lan_messages_safe {peers : Nat → Peers.Store T} {trace : List (Event × Seen)}
    (run : Runs (Bus.step codecs params) longEnough (new peers) trace b) : SafeRun trace where
  safe := by
    have hrun : b.Sound ∧ ∀ entry ∈ trace, Safe entry :=
      run.safety (sound_new peers) fun _ _ _ _ sound hlong hstep => sound.step hlong hstep
    exact hrun.2
  shows := by
    rintro before conn datagram ready msg handed chans middle ch ps content result after rfl hmiddle
    obtain ⟨here, there, -, hlong, -, -⟩ := run.middle
    exact shows_of_run hlong run hmiddle

/-! ### A short datagram -/

/-- Nothing that is received was sealed under a known key. -/
def sampleCodecs : Codecs where
  aeadOpen _ _ _ := none
  unmarshal _ := .error "unexpected end of JSON input"

def sampleParams (_ : Nat) : Params Bytes where
  localID := copyTo 32 [1]
  addrParser := .ok

def sampleDatagram (n : Nat) (h : n ≤ bufSize) : Datagram := ⟨List.replicate n 0, by simpa using h⟩

theorem lan_messages_safe_sample :
    ∃ trace b, trace.map Prod.fst = [.subscribe 0,
        .receive 0 (sampleDatagram 28 (by decide)) [0], .handle 0 [copyTo 32 [2]]] ∧
      Runs (Bus.step sampleCodecs sampleParams) longEnough (new fun _ => ∅) trace b ∧
      SafeRun trace := by
  have hsome : (replay (Bus.step sampleCodecs sampleParams) longEnough (new fun _ => ∅)
      [.subscribe 0, .receive 0 (sampleDatagram 28 (by decide)) [0],
        .handle 0 [copyTo 32 [2]]]).isSome = true := by
    decide +kernel
  obtain ⟨trace, b, hevents, run⟩ := exists_run_of_isSome hsome
  exact ⟨trace, b, hevents, run, lan_messages_safe run⟩

/-- A datagram of three bytes is handed over as the nil message, which the service slices. -/
theorem short_datagram_crashes :
    ∃ trace b, Runs (Bus.step sampleCodecs sampleParams) anyEvent (new fun _ => ∅) trace b ∧
      trace = [(.subscribe 0, .done),
        (.receive 0 (sampleDatagram 3 (by decide)) [0], .delivered .nil [] [0]),
        (.handle 0 [copyTo 32 [2]], .handled .nil [] (crash "slice bounds out of range"))] ∧
      ¬ ∀ entry ∈ trace, Safe entry := by
  have htrace : (replay (Bus.step sampleCodecs sampleParams) anyEvent (new fun _ => ∅)
      [.subscribe 0, .receive 0 (sampleDatagram 3 (by decide)) [0],
        .handle 0 [copyTo 32 [2]]]).map Prod.snd = some [(.subscribe 0, .done),
        (.receive 0 (sampleDatagram 3 (by decide)) [0], .delivered .nil [] [0]),
        (.handle 0 [copyTo 32 [2]], .handled .nil [] (crash "slice bounds out of range"))] := by
    decide +kernel
  obtain ⟨_, b, -, run, rfl⟩ := exists_run_of_map htrace
  refine ⟨_, b, run, rfl, fun hsafe => ?_⟩
  have hhandled := hsafe (.handle 0 [copyTo 32 [2]],
    .handled .nil [] (crash "slice bounds out of range")) (by simp)
  exact hhandled _ rfl

end Bus

end Inet256.Discovery.Lan
