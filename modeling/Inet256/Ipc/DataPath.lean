import Inet256.Ipc.Session

/-!
# The way of data through a connection

A client and a server on the two ends of a stream of frames.  Data that the
client sends, keep-alives and requests share one direction; data the node
received, keep-alives and responses share the other.  The server reads with one
loop, which calls the node's `Send` itself, so that the order is kept.  The
client has several read loops, and what one of them took from the stream may be
handed on after what another took later.
-/

namespace Inet256.Ipc

open Inet256.Foundation
open Inet256.Crypto

/-! ## Data messages -/

/-- The data branch of both read loops; every other message is for someone else. -/
def tellOf (x : Bytes) (isOutgoing : Bool) : Go (Option DataMsg) := do
  let m ← asMessage x isOutgoing
  let mtype ← getType m
  if mtype = mtData then
    let msg ← dataMsg m
    return some msg
  else return none

/-- A message that is not accepted is logged. -/
def told (x : Bytes) : Option DataMsg := ((tellOf x true).toOption).join

/-- The client hands on what the data branch reads; the direction makes no difference. -/
theorem told_handleMessage {P : Primitives} {C : Codecs}
    {F : FutureStore RequestID (Except String Addr)}
    {G : FutureStore RequestID (Except String (PublicKey P))} {s s' : Session P F G} {x : Bytes}
    {msg : Option DataMsg} (h : s.handleMessage C x = .ok (s', msg)) :
    told x = msg := by
  suffices hsame : tellOf x true = .ok msg by rw [told, hsame]; rfl
  obtain ⟨m, hm, hread⟩ := Go.bind_eq_ok.mp h
  change asMessage x true = .ok m at hm
  obtain ⟨mtype, htype, h⟩ := Go.bind_eq_ok.mp hread
  simp only [tellOf, hm, htype, Go.ok_bind]
  split at h
  · next hdata =>
      obtain ⟨data, hmsg, h⟩ := Go.bind_eq_ok.mp h
      cases h
      rw [if_pos hdata, hmsg]
      rfl
  · next hdata =>
      rw [if_neg hdata]
      split at h
      · obtain ⟨reqID, -, h⟩ := Go.bind_eq_ok.mp h
        split at h
        · cases h
          rfl
        · obtain ⟨result, -, h⟩ := Go.bind_eq_ok.mp h
          cases h
          rfl
      · split at h
        · obtain ⟨reqID, -, h⟩ := Go.bind_eq_ok.mp h
          split at h
          · cases h
            rfl
          · obtain ⟨result, -, h⟩ := Go.bind_eq_ok.mp h
            cases h
            rfl
        · split at h
          · cases h
            rfl
          · cases h

theorem told_data {addr : Addr} {payload : Bytes} (h : payload.length ≤ mtu) :
    told (Content.data addr payload).bytes = some ⟨addr, payload⟩ := by
  obtain ⟨htype, hmsg⟩ := (Content.data addr payload).readBack_bytes
  have hfits : (Content.data addr payload).Fits := h
  simp only [told, tellOf, Content.asMessage_bytes hfits, Go.ok_bind, htype, if_true, hmsg]
  rfl

/-- A data message within the limit has a payload within the largest size. -/
theorem payload_le_of_told {x : Bytes} {msg : DataMsg} (h : told x = some msg)
    (hlength : x.length ≤ maxMessageLen) : msg.payload.length ≤ mtu := by
  have htell : tellOf x true = .ok (some msg) :=
    toOption_eq_some.mp (Option.join_eq_some_iff.mp h)
  obtain ⟨m, hm, hread⟩ := Go.bind_eq_ok.mp htell
  obtain ⟨mtype, -, hbranch⟩ := Go.bind_eq_ok.mp hread
  obtain ⟨rfl, -⟩ := asMessage_eq_ok hm
  split at hbranch
  · obtain ⟨data, hdata, hbranch⟩ := Go.bind_eq_ok.mp hbranch
    cases hbranch
    obtain ⟨addr, -, hdata⟩ := Go.bind_eq_ok.mp hdata
    obtain ⟨payload, hpayload, hdata⟩ := Go.bind_eq_ok.mp hdata
    cases hdata
    rw [slice] at hpayload
    split at hpayload
    · cases hpayload
      simp only [List.length_take, List.length_drop]
      unfold maxMessageLen at hlength
      omega
    · cases hpayload
  · cases hbranch

/-- What a writer left in a buffer is the message of the content, if it returned at all. -/
theorem Content.take_of_write {content : Content} {dst buf : Bytes} {l : Nat}
    (h : content.write dst = .ok (buf, l)) : buf.take l = content.bytes := by
  cases content with
  | data addr payload =>
      rcases Nat.lt_or_ge dst.length (4 + 32 + payload.length) with hlt | hle
      · rw [Content.write, writeDataMessage, slice_of_length_lt 0 hlt] at h
        cases h
      · rw [Content.write, writeDataMessage_eq addr hle] at h
        cases h
        refine List.take_left' ?_
        rw [List.length_append, List.length_append, length_typeBytes, length_addr]
  | keepAlive =>
      rcases Nat.lt_or_ge dst.length 4 with hlt | hle
      · rw [Content.write, writeKeepAlive, slice_of_length_lt 0 hlt] at h
        cases h
      · rw [Content.write, writeKeepAlive_eq hle] at h
        cases h
        exact List.take_left' (length_typeBytes _)
  | ask mtype reqID body =>
      rcases Nat.lt_or_ge dst.length (4 + 16 + body.length) with hlt | hle
      · rw [Content.write, writeAskMessage, slice_of_length_lt 0 hlt] at h
        cases h
      · rw [Content.write, writeAskMessage_eq reqID mtype hle] at h
        cases h
        refine List.take_left' ?_
        rw [List.length_append, List.length_append, length_typeBytes, length_reqID]

/-! ## One direction -/

/-- The writing end, how many of its bytes have arrived, and those not read yet. -/
structure Pipe where
  framer : Framer
  arrived : Nat
  chunks : List Bytes
  deriving DecidableEq

inductive PipeEvent where
  | framer (event : FramerEvent)
  | arrive (count : Nat)
  | receive
  deriving DecidableEq

namespace Pipe

def new : Pipe := ⟨Framer.new, 0, []⟩

/-- A read that finds too few bytes waits for more. -/
def step (p : Pipe) : PipeEvent → Option (Pipe × Option Bytes)
  | .framer event => (p.framer.step event).map fun result =>
      ({ p with framer := result.1 }, none)
  | .arrive count =>
      if 0 < count ∧ p.arrived + count ≤ p.framer.written.length then
        some ({ p with
          arrived := p.arrived + count
          chunks := p.chunks ++ [(p.framer.written.drop p.arrived).take count] }, none)
      else none
  | .receive => (receive p.chunks).toOption.map fun result =>
      ({ p with chunks := result.2 }, some result.1)

def locks : PipeEvent → List Bytes
  | .framer (.lock data) => [data]
  | _ => []

/-- The messages sent and received so far, and what of them is in the pipe. -/
structure Carries (p : Pipe) (sent received : List Bytes) : Prop where
  framer : ∃ trace, p.framer.Sound trace ∧ locked trace = sent
  bound : p.arrived ≤ p.framer.written.length
  read : received.flatMap frame ++ p.chunks.flatten = p.framer.written.take p.arrived
  fits : ∀ m ∈ received, m.length ≤ maxMessageLen

theorem carries_new : new.Carries [] [] where
  framer := ⟨[], ⟨by simp [locked], fun _ => rfl, by simp [new, Framer.new]⟩, rfl⟩
  bound := Nat.zero_le _
  read := rfl
  fits := by simp

theorem written_framer_step {f f' : Framer} {event : FramerEvent} {seen : Unit}
    (h : f.step event = some (f', seen)) : ∃ more, f'.written = f.written ++ more := by
  unfold Framer.step at h
  cases event with
  | lock data =>
      dsimp only at h
      split at h
      · obtain ⟨bytes, -, h⟩ := Option.map_eq_some_iff.mp h
        cases h
        exact ⟨[], (List.append_nil _).symm⟩
      · cases h
  | write count =>
      dsimp only at h
      split at h
      · cases h
      · split at h
        · cases h
          exact ⟨_, rfl⟩
        · cases h
  | unlock =>
      dsimp only at h
      split at h
      · cases h
        exact ⟨[], (List.append_nil _).symm⟩
      · cases h

variable {p p' : Pipe} {sent received : List Bytes}

theorem Carries.step (carries : p.Carries sent received) {event : PipeEvent}
    {seen : Option Bytes} (h : p.step event = some (p', seen)) :
    p'.Carries (sent ++ locks event) (received ++ seen.toList) := by
  obtain ⟨trace, sound, hsent⟩ := carries.framer
  cases event with
  | framer event =>
      obtain ⟨⟨f, _⟩, hstep, h⟩ := Option.map_eq_some_iff.mp h
      cases h
      obtain ⟨more, hmore⟩ := written_framer_step hstep
      refine ⟨⟨trace ++ [(event, ())], sound.step hstep, ?_⟩, ?_, ?_, ?_⟩
      · rw [locked_concat, hsent]
        cases event <;> rfl
      · have hbound := carries.bound
        dsimp only
        rw [hmore, List.length_append]
        omega
      · dsimp only
        rw [hmore, List.take_append_of_le_length carries.bound, Option.toList_none,
          List.append_nil, carries.read]
      · simpa using carries.fits
  | arrive count =>
      rw [Pipe.step] at h
      split at h
      · next hcount =>
          cases h
          refine ⟨⟨trace, sound, by simpa [locks] using hsent⟩, hcount.2, ?_, ?_⟩
          · simp only [Option.toList_none, List.append_nil, List.flatten_append,
              List.flatten_singleton]
            rw [← List.append_assoc, carries.read, ← List.take_add]
          · simpa using carries.fits
      · cases h
  | receive =>
      obtain ⟨⟨m, rest⟩, hreceive, h⟩ := Option.map_eq_some_iff.mp h
      cases h
      obtain ⟨hsend, hframe⟩ := frame_of_receive (toOption_eq_some.mp hreceive)
      refine ⟨⟨trace, sound, by simpa [locks] using hsent⟩, carries.bound, ?_, ?_⟩
      · dsimp only
        rw [← carries.read, hframe]
        simp
      · intro m' hm'
        rcases List.mem_append.mp hm' with hold | hnew
        · exact carries.fits m' hold
        · rw [Option.toList_some, List.mem_singleton] at hnew
          rw [hnew]
          exact length_le_of_send hsend

/-- What is not received yet is the rest of what was sent, whole frames of it. -/
theorem Carries.rest (carries : p.Carries sent received) :
    (∀ m ∈ sent, m.length ≤ maxMessageLen) ∧ ∃ more, received ++ more = sent ∧
      ∃ back, p.chunks.flatten ++ (p.framer.written.drop p.arrived ++ back) =
        more.flatMap frame ∧ (p.framer.holder = none → back = []) := by
  obtain ⟨trace, sound, hsent⟩ := carries.framer
  have hback : ∃ back, p.framer.written ++ back = sent.flatMap frame ∧
      (p.framer.holder = none → back = []) := by
    cases hholder : p.framer.holder with
    | none => exact ⟨[], by rw [List.append_nil, sound.free hholder, hsent], fun _ => rfl⟩
    | some bytes =>
        obtain ⟨back, hback⟩ := sound.frames_eq
        exact ⟨back, by rw [hback, hsent], by simp⟩
  obtain ⟨back, hwritten, hfree⟩ := hback
  have hfits : ∀ m ∈ sent, m.length ≤ maxMessageLen := by rw [← hsent]; exact sound.fits
  have hsplit : received.flatMap frame ++
      (p.chunks.flatten ++ (p.framer.written.drop p.arrived ++ back)) = sent.flatMap frame := by
    rw [← List.append_assoc, carries.read, ← List.append_assoc, List.take_append_drop, hwritten]
  obtain ⟨more, hmore⟩ := frames_append_inj carries.fits hfits hsplit
  refine ⟨hfits, more, hmore, back, ?_, hfree⟩
  rw [← hmore, List.flatMap_append] at hsplit
  exact List.append_cancel_left hsplit

/-- All that was sent has been written and has arrived. -/
def Flushed (p : Pipe) : Prop :=
  p.framer.holder = none ∧ p.arrived = p.framer.written.length

theorem Carries.rest_flushed (carries : p.Carries sent received) (flushed : p.Flushed) :
    ∃ more, received ++ more = sent ∧ p.chunks.flatten = more.flatMap frame := by
  obtain ⟨-, more, hmore, back, hchunks, hback⟩ := carries.rest
  rw [hback flushed.1, flushed.2, List.drop_length, List.append_nil, List.append_nil] at hchunks
  exact ⟨more, hmore, hchunks⟩

theorem Carries.eq_of_flushed (carries : p.Carries sent received) (flushed : p.Flushed)
    (hread : p.chunks.flatten = []) : received = sent := by
  obtain ⟨more, hmore, hchunks⟩ := carries.rest_flushed flushed
  cases more with
  | nil => simpa using hmore
  | cons m more =>
      rw [hread] at hchunks
      have hlength := congrArg List.length hchunks
      rw [List.flatMap_cons, List.length_append, frame, List.length_append, beBytes_length,
        List.length_nil] at hlength
      omega

/-- The bytes not read yet begin with a frame that has arrived completely. -/
def HasFrame (p : Pipe) : Prop :=
  4 ≤ p.chunks.flatten.length ∧
    4 + beValue (p.chunks.flatten.take 4) ≤ p.chunks.flatten.length

/-- A reader never meets a frame that it would refuse, and waits only for the rest of one. -/
theorem Carries.receive_of_hasFrame (carries : p.Carries sent received) (hframe : p.HasFrame) :
    ∃ m p', p.step .receive = some (p', some m) := by
  obtain ⟨hfits, more, hmore, back, hchunks, -⟩ := carries.rest
  obtain ⟨hword, hbody⟩ := hframe
  cases more with
  | nil =>
      have hempty := (List.append_eq_nil_iff.mp hchunks).1
      rw [hempty] at hword
      cases hword
  | cons m more =>
      have hm := hfits m (by rw [← hmore]; simp)
      have hlength : beValue (p.chunks.flatten.take 4) = m.length := by
        have htake := congrArg (List.take 4) hchunks
        rw [List.take_append_of_le_length hword, List.flatMap_cons, frame, List.append_assoc,
          List.take_left' (beBytes_length 4 m.length)] at htake
        rw [htake, beValue_beBytes (length_lt_word hm)]
      have hprefix : frame m <+: p.chunks.flatten := by
        refine List.prefix_of_prefix_length_le (List.prefix_append _ (more.flatMap frame)) ?_ ?_
        · rw [← List.flatMap_cons, ← hchunks]
          exact List.prefix_append _ _
        · rw [frame, List.length_append, beBytes_length, ← hlength]
          exact hbody
      obtain ⟨tail, htail⟩ := hprefix
      obtain ⟨rest, hreceive, -⟩ := receive_frame hm htail.symm
      refine ⟨m, { p with chunks := rest }, ?_⟩
      rw [Pipe.step, hreceive]
      rfl

/-- Once everything has arrived, the bytes not read yet are whole frames. -/
theorem Carries.hasFrame_of_flushed (carries : p.Carries sent received) (flushed : p.Flushed)
    (hread : p.chunks.flatten ≠ []) : p.HasFrame := by
  obtain ⟨hfits, -⟩ := carries.rest
  obtain ⟨more, hmore, hchunks⟩ := carries.rest_flushed flushed
  cases more with
  | nil => exact absurd hchunks hread
  | cons m more =>
      have hm := hfits m (by rw [← hmore]; simp)
      rw [HasFrame, hchunks, List.flatMap_cons, frame, List.append_assoc,
        List.take_left' (beBytes_length 4 m.length), beValue_beBytes (length_lt_word hm)]
      simp only [List.length_append, beBytes_length]
      omega

end Pipe

/-! ## The connection -/

/-- Both directions, and the messages that the client's read loops hold. -/
structure Link where
  up : Pipe
  down : Pipe
  held : Multiset Bytes
  deriving DecidableEq

/-- The writer takes bytes of the holder, the lock is released, bytes arrive. -/
inductive Flow where
  | write (count : Nat)
  | unlock
  | arrive (count : Nat)
  deriving DecidableEq

def Flow.event : Flow → PipeEvent
  | .write count => .framer (.write count)
  | .unlock => .framer .unlock
  | .arrive count => .arrive count

inductive LinkEvent where
  | clientSend (dst : Addr) (data : Bytes)
  | clientOther (m : Bytes)
  | up (flow : Flow)
  | serverReceive
  | nodeReceive (buf : List.Vector UInt8 maxFrameLen) (src : Addr) (data : Bytes)
  | serverOther (m : Bytes)
  | down (flow : Flow)
  | clientReceive
  | clientHandle (m : Bytes)

/-- The call of the node's `Send`, and what the client's hub gets. -/
inductive LinkSeen where
  | nothing
  | nodeSend (msg : DataMsg)
  | delivered (msg : DataMsg)
  deriving DecidableEq

abbrev LinkTrace := List (LinkEvent × LinkSeen)

/-- A message is written into a buffer and its sender takes the lock. -/
def Pipe.post (p : Pipe) (buf : Bytes) (content : Content) : Option Pipe := do
  let (buf, l) ← (content.write buf).toOption
  let (p, _) ← p.step (.framer (.lock (buf.take l)))
  some p

namespace Link

def new : Link := ⟨Pipe.new, Pipe.new, 0⟩

def step (c : Link) : LinkEvent → Option (Link × LinkSeen)
  | .clientSend dst data => do
      let up ← c.up.post (List.replicate maxMessageLen 0) (.data dst data)
      some ({ c with up }, .nothing)
  | .clientOther m => do
      let (up, _) ← c.up.step (.framer (.lock m))
      some ({ c with up }, .nothing)
  | .up flow => do
      let (up, _) ← c.up.step flow.event
      some ({ c with up }, .nothing)
  | .serverReceive => do
      let (up, m) ← c.up.step .receive
      some ({ c with up }, (m.bind told).elim .nothing .nodeSend)
  | .nodeReceive buf src data => do
      let down ← c.down.post buf.toList (.data src data)
      some ({ c with down }, .nothing)
  | .serverOther m => do
      let (down, _) ← c.down.step (.framer (.lock m))
      some ({ c with down }, .nothing)
  | .down flow => do
      let (down, _) ← c.down.step flow.event
      some ({ c with down }, .nothing)
  | .clientReceive => do
      let (down, m) ← c.down.step .receive
      some ({ c with down, held := Multiset.ofList m.toList + c.held }, .nothing)
  | .clientHandle m =>
      if m ∈ c.held then
        some ({ c with held := c.held.erase m }, (told m).elim .nothing .delivered)
      else none

/-- What else is sent are keep-alives, requests and responses. -/
def othersTellNothing (_ : Link) : LinkEvent → Prop
  | .clientOther m => told m = none
  | .serverOther m => told m = none
  | _ => True

end Link

/-! ## What went in and came out -/

def clientSends (trace : LinkTrace) : List DataMsg :=
  trace.filterMap fun entry =>
    match entry.1 with
    | .clientSend dst data => some ⟨dst, data⟩
    | _ => none

def nodeReceives (trace : LinkTrace) : List DataMsg :=
  trace.filterMap fun entry =>
    match entry.1 with
    | .nodeReceive _ src data => some ⟨src, data⟩
    | _ => none

def nodeSends (trace : LinkTrace) : List DataMsg :=
  trace.filterMap fun entry =>
    match entry.2 with
    | .nodeSend msg => some msg
    | _ => none

def hubGets (trace : LinkTrace) : List DataMsg :=
  trace.filterMap fun entry =>
    match entry.2 with
    | .delivered msg => some msg
    | _ => none

theorem clientSends_append (trace more : LinkTrace) :
    clientSends (trace ++ more) = clientSends trace ++ clientSends more :=
  List.filterMap_append ..

theorem nodeReceives_append (trace more : LinkTrace) :
    nodeReceives (trace ++ more) = nodeReceives trace ++ nodeReceives more :=
  List.filterMap_append ..

theorem nodeSends_append (trace more : LinkTrace) :
    nodeSends (trace ++ more) = nodeSends trace ++ nodeSends more :=
  List.filterMap_append ..

theorem hubGets_append (trace more : LinkTrace) :
    hubGets (trace ++ more) = hubGets trace ++ hubGets more :=
  List.filterMap_append ..

/-- The messages behind what went in and came out, in both directions. -/
structure Link.Carried (trace : LinkTrace) (c : Link) : Prop where
  up : ∃ sent received, c.up.Carries sent received ∧
    clientSends trace = sent.filterMap told ∧ nodeSends trace = received.filterMap told
  down : ∃ sent received, c.down.Carries sent received ∧
    nodeReceives trace = sent.filterMap told ∧
    Multiset.ofList (received.filterMap told) =
      Multiset.ofList (hubGets trace) + c.held.filterMap told

section Carried

variable {c c' : Link} {trace : LinkTrace}

theorem Pipe.post_eq_some {p p' : Pipe} {buf : Bytes} {content : Content}
    (h : p.post buf content = some p') :
    p.step (.framer (.lock content.bytes)) = some (p', none) ∧
      content.bytes.length ≤ maxMessageLen := by
  obtain ⟨⟨written, l⟩, hwrite, h⟩ := Option.bind_eq_some_iff.mp h
  obtain ⟨⟨next, seen⟩, hlock, h⟩ := Option.bind_eq_some_iff.mp h
  cases h
  rw [Content.take_of_write (toOption_eq_some.mp hwrite)] at hlock
  obtain ⟨⟨f, _⟩, hframer, heq⟩ := Option.map_eq_some_iff.mp hlock
  cases heq
  refine ⟨hlock, ?_⟩
  unfold Framer.step at hframer
  dsimp only at hframer
  split at hframer
  · obtain ⟨bytes, hsend, -⟩ := Option.map_eq_some_iff.mp hframer
    exact length_le_of_send (toOption_eq_some.mp hsend)
  · cases hframer

theorem told_of_post {p p' : Pipe} {buf : Bytes} {addr : Addr} {data : Bytes}
    (h : p.post buf (.data addr data) = some p') :
    told (Content.data addr data).bytes = some ⟨addr, data⟩ := by
  have hlength := (Pipe.post_eq_some h).2
  simp only [Content.bytes, List.length_append, length_typeBytes, length_addr,
    maxMessageLen] at hlength
  exact told_data (by omega)

theorem locks_flow (flow : Flow) : Pipe.locks flow.event = [] := by
  cases flow <;> rfl

theorem seen_flow {p p' : Pipe} {flow : Flow} {seen : Option Bytes}
    (h : p.step flow.event = some (p', seen)) : seen = none := by
  cases flow with
  | write count =>
      obtain ⟨_, -, h⟩ := Option.map_eq_some_iff.mp h
      cases h
      rfl
  | unlock =>
      obtain ⟨_, -, h⟩ := Option.map_eq_some_iff.mp h
      cases h
      rfl
  | arrive count =>
      rw [Flow.event, Pipe.step] at h
      split at h
      · cases h
        rfl
      · cases h

theorem seen_lock {p p' : Pipe} {m : Bytes} {seen : Option Bytes}
    (h : p.step (.framer (.lock m)) = some (p', seen)) : seen = none := by
  obtain ⟨_, -, h⟩ := Option.map_eq_some_iff.mp h
  cases h
  rfl

theorem seen_receive {p p' : Pipe} {seen : Option Bytes}
    (h : p.step .receive = some (p', seen)) : ∃ m, seen = some m := by
  obtain ⟨⟨m, rest⟩, -, h⟩ := Option.map_eq_some_iff.mp h
  cases h
  exact ⟨m, rfl⟩

/-- A step of the way up: nothing comes out that way down. -/
theorem Link.Carried.of_up {event : LinkEvent} {seen : LinkSeen} {up : Pipe}
    {pipeEvent : PipeEvent} {m : Option Bytes} (carried : c.Carried trace)
    (h : c.up.step pipeEvent = some (up, m))
    (hsends : clientSends [(event, seen)] = (Pipe.locks pipeEvent).filterMap told)
    (hnode : nodeSends [(event, seen)] = m.toList.filterMap told)
    (hreceives : nodeReceives [(event, seen)] = []) (hhub : hubGets [(event, seen)] = []) :
    Link.Carried (trace ++ [(event, seen)]) { c with up } := by
  obtain ⟨sent, received, hcarries, hin, hout⟩ := carried.up
  obtain ⟨sent', received', hcarries', hin', hout'⟩ := carried.down
  refine ⟨⟨_, _, hcarries.step h, ?_, ?_⟩, sent', received', hcarries', ?_, ?_⟩
  · rw [clientSends_append, hin, hsends, List.filterMap_append]
  · rw [nodeSends_append, hout, hnode, List.filterMap_append]
  · rw [nodeReceives_append, hreceives, List.append_nil, hin']
  · rw [hubGets_append, hhub, List.append_nil, hout']

/-- A step of the way down; the read loops hold what it took from the stream. -/
theorem Link.Carried.of_down {event : LinkEvent} {seen : LinkSeen} {down : Pipe}
    {pipeEvent : PipeEvent} {m : Option Bytes} (carried : c.Carried trace)
    (h : c.down.step pipeEvent = some (down, m))
    (hreceives : nodeReceives [(event, seen)] = (Pipe.locks pipeEvent).filterMap told)
    (hhub : hubGets [(event, seen)] = []) (hsends : clientSends [(event, seen)] = [])
    (hnode : nodeSends [(event, seen)] = []) :
    Link.Carried (trace ++ [(event, seen)])
      { c with down, held := Multiset.ofList m.toList + c.held } := by
  obtain ⟨sent, received, hcarries, hin, hout⟩ := carried.up
  obtain ⟨sent', received', hcarries', hin', hout'⟩ := carried.down
  refine ⟨⟨sent, received, hcarries, ?_, ?_⟩, _, _, hcarries'.step h, ?_, ?_⟩
  · rw [clientSends_append, hsends, List.append_nil, hin]
  · rw [nodeSends_append, hnode, List.append_nil, hout]
  · rw [nodeReceives_append, hin', hreceives, List.filterMap_append]
  · rw [hubGets_append, hhub, List.append_nil, List.filterMap_append, ← Multiset.coe_add,
      hout', Multiset.filterMap_add, Multiset.filterMap_coe, add_assoc,
      add_comm (c.held.filterMap told)]

/-- A read loop handles a message that it held. -/
theorem Link.Carried.handle {m : Bytes} (carried : c.Carried trace) (hheld : m ∈ c.held) :
    Link.Carried
      (trace ++ [(.clientHandle m, (told m).elim .nothing .delivered)])
      { c with held := c.held.erase m } := by
  obtain ⟨sent, received, hcarries, hin, hout⟩ := carried.up
  obtain ⟨sent', received', hcarries', hin', hout'⟩ := carried.down
  obtain ⟨rest, hrest⟩ := Multiset.exists_cons_of_mem hheld
  have hnode : nodeSends [(.clientHandle m, (told m).elim .nothing .delivered)] = [] := by
    cases told m <;> rfl
  have hhub : hubGets [(.clientHandle m, (told m).elim .nothing .delivered)] =
      (told m).toList := by
    cases told m <;> rfl
  refine ⟨⟨sent, received, hcarries, ?_, ?_⟩, sent', received', hcarries', ?_, ?_⟩
  · rw [clientSends_append, hin]
    exact List.append_nil _
  · rw [nodeSends_append, hnode, List.append_nil, hout]
  · rw [nodeReceives_append, hin']
    exact List.append_nil _
  · dsimp only
    rw [hout', hubGets_append, hhub, ← Multiset.coe_add, add_assoc, hrest,
      Multiset.erase_cons_head]
    refine congrArg (_ + ·) ?_
    cases htold : told m with
    | none =>
        rw [Multiset.filterMap_cons_none _ _ htold]
        exact (zero_add _).symm
    | some msg =>
        rw [Multiset.filterMap_cons_some _ _ _ htold]
        exact (Multiset.singleton_add msg _).symm

theorem Link.Carried.step {event : LinkEvent} {seen : LinkSeen} (carried : c.Carried trace)
    (hothers : c.othersTellNothing event) (h : c.step event = some (c', seen)) :
    c'.Carried (trace ++ [(event, seen)]) := by
  cases event with
  | clientSend dst data =>
      obtain ⟨up, hpost, h⟩ := Option.bind_eq_some_iff.mp h
      cases h
      refine carried.of_up (Pipe.post_eq_some hpost).1 ?_ rfl rfl rfl
      simp [clientSends, Pipe.locks, told_of_post hpost]
  | clientOther m =>
      obtain ⟨⟨up, out⟩, hlock, h⟩ := Option.bind_eq_some_iff.mp h
      cases h
      refine carried.of_up hlock ?_ ?_ rfl rfl
      · change [] = [m].filterMap told
        rw [List.filterMap_cons_none hothers]
        rfl
      · rw [seen_lock hlock]
        rfl
  | up flow =>
      obtain ⟨⟨up, out⟩, hflow, h⟩ := Option.bind_eq_some_iff.mp h
      cases h
      refine carried.of_up hflow ?_ ?_ rfl rfl
      · rw [locks_flow]
        rfl
      · rw [seen_flow hflow]
        rfl
  | serverReceive =>
      obtain ⟨⟨up, out⟩, hreceive, h⟩ := Option.bind_eq_some_iff.mp h
      obtain ⟨m, rfl⟩ := seen_receive hreceive
      cases h
      refine carried.of_up hreceive rfl ?_ rfl ?_
      · cases htold : told m <;> simp [nodeSends, htold]
      · cases htold : told m <;> simp [hubGets, htold]
  | nodeReceive buf src data =>
      obtain ⟨down, hpost, h⟩ := Option.bind_eq_some_iff.mp h
      cases h
      have hreceives : nodeReceives [(.nodeReceive buf src data, .nothing)] =
          [(Content.data src data).bytes].filterMap told := by
        rw [List.filterMap_cons_some (told_of_post hpost)]
        rfl
      simpa using carried.of_down (Pipe.post_eq_some hpost).1 hreceives rfl rfl rfl
  | serverOther m =>
      obtain ⟨⟨down, out⟩, hlock, h⟩ := Option.bind_eq_some_iff.mp h
      cases h
      obtain rfl := seen_lock hlock
      have hreceives : nodeReceives [(.serverOther m, .nothing)] = [m].filterMap told := by
        rw [List.filterMap_cons_none hothers]
        rfl
      simpa using carried.of_down hlock hreceives rfl rfl rfl
  | down flow =>
      obtain ⟨⟨down, out⟩, hflow, h⟩ := Option.bind_eq_some_iff.mp h
      cases h
      obtain rfl := seen_flow hflow
      have hreceives : nodeReceives [(.down flow, .nothing)] =
          (Pipe.locks flow.event).filterMap told := by
        rw [locks_flow]
        rfl
      simpa using carried.of_down hflow hreceives rfl rfl rfl
  | clientReceive =>
      obtain ⟨⟨down, out⟩, hreceive, h⟩ := Option.bind_eq_some_iff.mp h
      cases h
      exact carried.of_down hreceive rfl rfl rfl rfl
  | clientHandle m =>
      rw [Link.step] at h
      split at h
      · next hheld =>
          cases h
          exact carried.handle hheld
      · cases h

theorem Link.carried_new : Link.new.Carried [] :=
  ⟨⟨[], [], Pipe.carries_new, rfl, rfl⟩, [], [], Pipe.carries_new, rfl, rfl⟩

theorem carried_of_run (run : Runs Link.step Link.othersTellNothing Link.new trace c) :
    c.Carried trace :=
  run.history (motive := fun trace c => c.Carried trace) Link.carried_new
    fun _ _ _ _ _ _ carried hothers hstep => carried.step hothers hstep

/-- What a connection does to the data that goes through it. -/
structure DataPath (trace : LinkTrace) (c : Link) : Prop where
  /-- The node is called for what the client sent, in that order. -/
  up_in_order : nodeSends trace <+: clientSends trace
  up_complete : c.up.Flushed → c.up.chunks.flatten = [] → nodeSends trace = clientSends trace
  /-- The client gets what the node received, each message at most once. -/
  down_once : Multiset.ofList (hubGets trace) ≤ Multiset.ofList (nodeReceives trace)
  down_complete : c.down.Flushed → c.down.chunks.flatten = [] → c.held = 0 →
    Multiset.ofList (hubGets trace) = Multiset.ofList (nodeReceives trace)
  /-- A frame that has arrived completely can be read, whatever else is on its way. -/
  up_readable : c.up.HasFrame → ∃ c' seen, c.step .serverReceive = some (c', seen)
  down_readable : c.down.HasFrame → ∃ c' seen, c.step .clientReceive = some (c', seen)
  /-- Once everything has arrived, all that is not read yet are frames. -/
  up_frames : c.up.Flushed → c.up.chunks.flatten ≠ [] → c.up.HasFrame
  down_frames : c.down.Flushed → c.down.chunks.flatten ≠ [] → c.down.HasFrame

theorem Link.Carried.dataPath (carried : c.Carried trace) : DataPath trace c := by
  obtain ⟨sent, received, hcarries, hin, hout⟩ := carried.up
  obtain ⟨sent', received', hcarries', hin', hout'⟩ := carried.down
  obtain ⟨-, more, hmore, -⟩ := hcarries.rest
  obtain ⟨-, more', hmore', -⟩ := hcarries'.rest
  refine ⟨?_, ?_, ?_, ?_, ?_, ?_, hcarries.hasFrame_of_flushed, hcarries'.hasFrame_of_flushed⟩
  · rw [hin, hout, ← hmore, List.filterMap_append]
    exact List.prefix_append _ _
  · intro flushed hread
    rw [hin, hout, hcarries.eq_of_flushed flushed hread]
  · calc Multiset.ofList (hubGets trace)
        ≤ Multiset.ofList (hubGets trace) + c.held.filterMap told := Multiset.le_add_right _ _
      _ = Multiset.ofList (received'.filterMap told) := hout'.symm
      _ ≤ Multiset.ofList (nodeReceives trace) := by
          rw [hin', ← hmore', List.filterMap_append, ← Multiset.coe_add]
          exact Multiset.le_add_right _ _
  · intro flushed hread hheld
    rw [hheld, Multiset.filterMap_zero, add_zero] at hout'
    rw [← hout', hin', hcarries'.eq_of_flushed flushed hread]
  · intro hframe
    obtain ⟨m, up, hreceive⟩ := hcarries.receive_of_hasFrame hframe
    refine ⟨{ c with up }, (told m).elim .nothing .nodeSend, ?_⟩
    rw [Link.step, hreceive]
    rfl
  · intro hframe
    obtain ⟨m, down, hreceive⟩ := hcarries'.receive_of_hasFrame hframe
    refine ⟨{ c with down, held := Multiset.ofList [m] + c.held }, .nothing, ?_⟩
    rw [Link.step, hreceive]
    rfl

/--
Whatever else shares the connection, however concurrent calls take turns and in
whatever pieces the bytes arrive: the server passes on the client's data exactly,
in order; the client gets the node's data exactly, though maybe in another order;
and neither is stuck before a frame that has arrived.
-/
theorem data_carried (run : Runs Link.step Link.othersTellNothing Link.new trace c) :
    DataPath trace c :=
  (carried_of_run run).dataPath

end Carried

instance (c : Link) (event : LinkEvent) : Decidable (c.othersTellNothing event) := by
  unfold Link.othersTellNothing
  split <;> infer_instance

/-- A pipe whose first sender has the lock. -/
def Pipe.posting (content : Content) : Pipe := ⟨⟨some (frame content.bytes), []⟩, 0, []⟩

theorem Pipe.post_new {content : Content} (hfits : content.Fits) {buf : Bytes}
    (hbuf : maxMessageLen ≤ buf.length) : Pipe.new.post buf content = some (posting content) := by
  have hsend := send_eq (Content.length_bytes_le hfits)
  simp only [Pipe.post, Content.write_eq hfits hbuf, Except.toOption, Option.bind_eq_bind,
    Option.bind_some, List.take_left, Pipe.step, Framer.step, Pipe.new, Framer.new, hsend,
    Option.map_some, posting]

theorem clientSend_of_fits {c : Link} (hup : c.up = Pipe.new) (dst : Addr) {data : Bytes}
    (h : data.length ≤ mtu) : c.step (.clientSend dst data) =
      some ({ c with up := .posting (.data dst data) }, .nothing) := by
  have hfits : (Content.data dst data).Fits := h
  rw [Link.step, hup, Pipe.post_new hfits (by rw [List.length_replicate])]
  rfl

theorem nodeReceive_of_fits {c : Link} (hdown : c.down = Pipe.new)
    (buf : List.Vector UInt8 maxFrameLen) (src : Addr) {data : Bytes} (h : data.length ≤ mtu) :
    c.step (.nodeReceive buf src data) =
      some ({ c with down := .posting (.data src data) }, .nothing) := by
  have hfits : (Content.data src data).Fits := h
  have hbuf : maxMessageLen ≤ buf.toList.length := by
    rw [List.Vector.toList_length]
    exact Nat.le_add_right _ _
  rw [Link.step, hdown, Pipe.post_new hfits hbuf]
  rfl

def sampleDst : Addr := copyTo 32 [1]

def sampleSrc : Addr := copyTo 32 [2]

def sampleBuf : List.Vector UInt8 maxFrameLen := List.Vector.replicate maxFrameLen 0

/-- Both sides have sent a message, in streams that break them up. -/
def sampleFlow : List LinkEvent :=
  [.up (.write 41), .up .unlock, .clientOther Content.keepAlive.bytes, .up (.write 8),
    .up .unlock, .down (.write 30), .up (.arrive 10), .up (.arrive 39), .serverReceive,
    .down (.arrive 30), .down (.write 11), .down .unlock, .down (.arrive 11), .clientReceive,
    .clientHandle (Content.data sampleSrc [8]).bytes]

theorem data_carried_sample :
    ∃ trace c, trace.map Prod.fst =
        .clientSend sampleDst [7] :: .nodeReceive sampleBuf sampleSrc [8] :: sampleFlow ∧
      Runs Link.step Link.othersTellNothing Link.new trace c ∧
      nodeSends trace = [⟨sampleDst, [7]⟩] ∧ hubGets trace = [⟨sampleSrc, [8]⟩] ∧
      DataPath trace c := by
  have hreplay : (replay Link.step Link.othersTellNothing
      ⟨.posting (.data sampleDst [7]), .posting (.data sampleSrc [8]), 0⟩ sampleFlow).map
      (fun result => (nodeSends result.2, hubGets result.2)) =
      some ([⟨sampleDst, [7]⟩], [⟨sampleSrc, [8]⟩]) := by
    decide +kernel
  obtain ⟨trace, c, hevents, run, hseen⟩ := exists_run_of_map hreplay
  obtain ⟨hsends, hgets⟩ := Prod.mk.inj hseen
  have hsend := clientSend_of_fits (c := Link.new) rfl sampleDst (show [7].length ≤ mtu by decide)
  have first : Runs Link.step Link.othersTellNothing Link.new _ _ :=
    (Runs.single (by trivial) hsend).next (by trivial)
      (nodeReceive_of_fits rfl sampleBuf sampleSrc (show [8].length ≤ mtu by decide))
  have whole := first.trans run
  refine ⟨_, c, ?_, whole, ?_, ?_, data_carried whole⟩
  · rw [List.map_append, hevents]
    rfl
  · rw [nodeSends_append, hsends]
    rfl
  · rw [hubGets_append, hgets]
    rfl

end Inet256.Ipc
