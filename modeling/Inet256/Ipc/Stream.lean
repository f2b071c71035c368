import Inet256.Foundation.Chunks
import Inet256.Foundation.Runs
import Inet256.Ipc.Message

/-!
# Framed messages on a byte stream

Each message travels behind its length.  Any number of calls of `Send` share a
write lock and the writer may take their bytes piece by piece; the reader sees
the stream in chunks of any size.
-/

namespace Inet256.Ipc

open Inet256.Foundation

/-- The bytes that `Send` writes while it holds the lock. -/
def send (data : Bytes) : Go Bytes :=
  if maxMessageLen < data.length then
    fail s!"data too long for StreamFramer len={data.length}"
  else .ok (beBytes 4 data.length ++ data)

def receive (chunks : List Bytes) : Go (Bytes × List Bytes) := do
  let (lbuf, chunks) ← readFull false 4 chunks
  let l := beValue lbuf
  if maxMessageLen < l then fail s!"max message length exceeded {l}"
  else readFull false l chunks

def receives : Nat → List Bytes → Go (List Bytes × List Bytes)
  | 0, chunks => .ok ([], chunks)
  | count + 1, chunks => do
      let (m, chunks) ← receive chunks
      let (ms, chunks) ← receives count chunks
      return (m :: ms, chunks)

/-! ## Frames -/

def frame (m : Bytes) : Bytes := beBytes 4 m.length ++ m

theorem send_eq {m : Bytes} (h : m.length ≤ maxMessageLen) : send m = .ok (frame m) := by
  rw [send, if_neg (Nat.not_lt.mpr h), frame]

theorem length_le_of_send {m bytes : Bytes} (h : send m = .ok bytes) :
    m.length ≤ maxMessageLen := by
  unfold send at h
  split at h
  · cases h
  · next hle => exact Nat.not_lt.mp hle

theorem length_lt_word {m : Bytes} (h : m.length ≤ maxMessageLen) : m.length < 256 ^ 4 := by
  unfold maxMessageLen mtu at h
  omega

theorem receive_frame {m back : Bytes} {chunks : List Bytes} (h : m.length ≤ maxMessageLen)
    (hchunks : chunks.flatten = frame m ++ back) :
    ∃ rest, receive chunks = .ok (m, rest) ∧ rest.flatten = back := by
  rw [frame, List.append_assoc] at hchunks
  obtain ⟨chunks', hlength, hchunks'⟩ := readFull_of_append false hchunks
  rw [beBytes_length] at hlength
  have hvalue : beValue (beBytes 4 m.length) = m.length :=
    beValue_beBytes (length_lt_word h)
  obtain ⟨rest, hbody, hrest⟩ := readFull_of_append false hchunks'
  refine ⟨rest, ?_, hrest⟩
  simp only [receive, hlength, Go.ok_bind, hvalue, if_neg (Nat.not_lt.mpr h), hbody]

/-- A message was received from exactly the bytes that would be sent for it. -/
theorem frame_of_receive {m : Bytes} {chunks rest : List Bytes}
    (h : receive chunks = .ok (m, rest)) :
    send m = .ok (frame m) ∧ chunks.flatten = frame m ++ rest.flatten := by
  obtain ⟨⟨lbuf, chunks'⟩, hlength, h⟩ := Go.bind_eq_ok.mp h
  dsimp only at h
  split at h
  · cases h
  · next hle =>
      have hword := readFull_eq_ok hlength
      have hbody := readFull_eq_ok h
      have hframe : beBytes 4 m.length = lbuf := by
        rw [hbody.1, ← hword.1]
        exact beBytes_beValue lbuf
      constructor
      · refine send_eq ?_
        rw [hbody.1]
        exact Nat.not_lt.mp hle
      · rw [frame, hframe, hword.2, hbody.2, List.append_assoc]

theorem receives_frames {messages : List Bytes} {back : Bytes} {chunks : List Bytes}
    (h : ∀ m ∈ messages, m.length ≤ maxMessageLen)
    (hchunks : chunks.flatten = messages.flatMap frame ++ back) :
    ∃ rest, receives messages.length chunks = .ok (messages, rest) ∧ rest.flatten = back := by
  induction messages generalizing chunks with
  | nil => exact ⟨chunks, rfl, by simpa using hchunks⟩
  | cons m messages ih =>
      rw [List.flatMap_cons, List.append_assoc] at hchunks
      obtain ⟨chunks', hreceive, hchunks'⟩ := receive_frame (h m (by simp)) hchunks
      obtain ⟨rest, hreceives, hrest⟩ := ih (fun m' hm' => h m' (by simp [hm'])) hchunks'
      refine ⟨rest, ?_, hrest⟩
      simp only [List.length_cons, receives, hreceive, Go.ok_bind, hreceives, Go.pure_eq_ok]

theorem frames_of_receives {count : Nat} {messages : List Bytes} {chunks rest : List Bytes}
    (h : receives count chunks = .ok (messages, rest)) :
    (∀ m ∈ messages, m.length ≤ maxMessageLen) ∧
      chunks.flatten = messages.flatMap frame ++ rest.flatten := by
  induction count generalizing messages chunks with
  | zero =>
      cases h
      exact ⟨by simp, rfl⟩
  | succ count ih =>
      obtain ⟨⟨m, chunks'⟩, hreceive, h⟩ := Go.bind_eq_ok.mp h
      obtain ⟨⟨ms, rest'⟩, hreceives, h⟩ := Go.bind_eq_ok.mp h
      cases h
      have hframe := frame_of_receive hreceive
      have hframes := ih hreceives
      constructor
      · intro m' hm'
        rcases List.mem_cons.mp hm' with rfl | hm'
        · exact length_le_of_send hframe.1
        · exact hframes.1 m' hm'
      · rw [List.flatMap_cons, hframe.2, hframes.2, List.append_assoc]

theorem frames_append_inj {messages others : List Bytes} {back : Bytes}
    (h : ∀ m ∈ messages, m.length ≤ maxMessageLen)
    (hothers : ∀ m ∈ others, m.length ≤ maxMessageLen)
    (heq : messages.flatMap frame ++ back = others.flatMap frame) :
    ∃ more, messages ++ more = others := by
  induction messages generalizing others with
  | nil => exact ⟨others, rfl⟩
  | cons m messages ih =>
      cases others with
      | nil =>
          have hlength := congrArg List.length heq
          simp [frame] at hlength
      | cons other others =>
          simp only [List.flatMap_cons, frame, List.append_assoc] at heq
          have hsplit := List.append_inj heq (by simp)
          have hlength : m.length = other.length := by
            have hm := beValue_beBytes (length_lt_word (h m (by simp)))
            have hother := beValue_beBytes (length_lt_word (hothers other (by simp)))
            rw [← hm, hsplit.1, hother]
          have hsplit' := List.append_inj hsplit.2 hlength
          obtain ⟨more, hmore⟩ := ih (fun m' hm' => h m' (by simp [hm']))
            (fun m' hm' => hothers m' (by simp [hm'])) hsplit'.2
          exact ⟨more, by rw [List.cons_append, hmore, hsplit'.1]⟩

/-! ## Concurrent calls of `Send` -/

/-- The bytes that the holder of the write lock still has to write, and the stream. -/
structure Framer where
  holder : Option Bytes
  written : Bytes
  deriving DecidableEq

inductive FramerEvent where
  /-- A call of `Send` with this message takes the lock. -/
  | lock (data : Bytes)
  /-- The writer takes some of the holder's bytes. -/
  | write (count : Nat)
  | unlock
  deriving DecidableEq

def Framer.new : Framer := ⟨none, []⟩

def Framer.step (f : Framer) : FramerEvent → Option (Framer × Unit)
  | .lock data =>
      match f.holder with
      | none => (send data).toOption.map fun bytes => ({ f with holder := some bytes }, ())
      | some _ => none
  | .write count =>
      match f.holder with
      | none => none
      | some bytes =>
          if 0 < count ∧ count ≤ bytes.length then
            some (⟨some (bytes.drop count), f.written ++ bytes.take count⟩, ())
          else none
  | .unlock =>
      match f.holder with
      | some [] => some ({ f with holder := none }, ())
      | _ => none

abbrev FramerTrace := List (FramerEvent × Unit)

def locked (trace : FramerTrace) : List Bytes :=
  trace.filterMap fun entry =>
    match entry.1 with
    | .lock data => some data
    | _ => none

def completed (f : Framer) (trace : FramerTrace) : List Bytes :=
  if f.holder.isSome then (locked trace).dropLast else locked trace

/-- The stream is the frames of the finished calls and the front of the current one. -/
structure Framer.Sound (f : Framer) (trace : FramerTrace) : Prop where
  fits : ∀ m ∈ locked trace, m.length ≤ maxMessageLen
  free : f.holder = none → f.written = (locked trace).flatMap frame
  held : ∀ bytes, f.holder = some bytes → ∃ before last front,
    locked trace = before ++ [last] ∧ frame last = front ++ bytes ∧
      f.written = before.flatMap frame ++ front

theorem locked_concat (trace : FramerTrace) (event : FramerEvent) (seen : Unit) :
    locked (trace ++ [(event, seen)]) = locked trace ++
      (match event with
        | .lock data => [data]
        | _ => []) := by
  cases event <;> simp [locked]

variable {f f' : Framer} {trace : FramerTrace}

theorem Framer.Sound.lock (sound : f.Sound trace) {data : Bytes} (hfree : f.holder = none)
    (hfits : data.length ≤ maxMessageLen) (seen : Unit) :
    Framer.Sound { f with holder := some (frame data) } (trace ++ [(.lock data, seen)]) := by
  refine ⟨?_, by simp, ?_⟩
  · intro m hm
    rw [locked_concat] at hm
    rcases List.mem_append.mp hm with hm | hm
    · exact sound.fits m hm
    · rw [List.mem_singleton.mp hm]
      exact hfits
  · intro bytes hbytes
    cases hbytes
    refine ⟨locked trace, data, [], locked_concat .., rfl, ?_⟩
    rw [List.append_nil]
    exact sound.free hfree

theorem Framer.Sound.write (sound : f.Sound trace) {bytes : Bytes} (hheld : f.holder = some bytes)
    (count : Nat) (seen : Unit) :
    Framer.Sound ⟨some (bytes.drop count), f.written ++ bytes.take count⟩
      (trace ++ [(.write count, seen)]) := by
  have hsame : locked (trace ++ [(.write count, seen)]) = locked trace := by
    rw [locked_concat, List.append_nil]
  obtain ⟨before, last, front, hlocked, hframe, hwritten⟩ := sound.held bytes hheld
  refine ⟨by rw [hsame]; exact sound.fits, by simp, ?_⟩
  intro rest hrest
  cases hrest
  refine ⟨before, last, front ++ bytes.take count, hsame.trans hlocked, ?_, ?_⟩
  · rw [List.append_assoc, List.take_append_drop, hframe]
  · dsimp only
    rw [hwritten, List.append_assoc]

theorem Framer.Sound.unlock (sound : f.Sound trace) (hheld : f.holder = some []) (seen : Unit) :
    Framer.Sound { f with holder := none } (trace ++ [(.unlock, seen)]) := by
  have hsame : locked (trace ++ [(.unlock, seen)]) = locked trace := by
    rw [locked_concat, List.append_nil]
  obtain ⟨before, last, front, hlocked, hframe, hwritten⟩ := sound.held [] hheld
  refine ⟨by rw [hsame]; exact sound.fits, ?_, by simp⟩
  intro _
  rw [hsame, hlocked, List.flatMap_append, List.flatMap_singleton, hframe, List.append_nil]
  exact hwritten

theorem Framer.Sound.step {event : FramerEvent} {seen : Unit} (sound : f.Sound trace)
    (h : f.step event = some (f', seen)) : f'.Sound (trace ++ [(event, seen)]) := by
  cases event with
  | lock data =>
      cases hholder : f.holder with
      | some bytes => simp [Framer.step, hholder] at h
      | none =>
          simp only [Framer.step, hholder] at h
          obtain ⟨bytes, hsend, h⟩ := Option.map_eq_some_iff.mp h
          have hsend := toOption_eq_some.mp hsend
          have hfits := length_le_of_send hsend
          rw [send_eq hfits] at hsend
          cases hsend
          cases h
          exact sound.lock hholder hfits ()
  | write count =>
      cases hholder : f.holder with
      | none => simp [Framer.step, hholder] at h
      | some bytes =>
          simp only [Framer.step, hholder] at h
          split at h
          · cases h
            exact sound.write hholder count ()
          · cases h
  | unlock =>
      cases hholder : f.holder with
      | none => simp [Framer.step, hholder] at h
      | some bytes =>
          cases bytes with
          | cons => simp [Framer.step, hholder] at h
          | nil =>
              simp only [Framer.step, hholder, Option.some.injEq, Prod.mk.injEq] at h
              rw [← h.1]
              exact sound.unlock hholder seen

theorem Framer.sound_run {allowed : Framer → FramerEvent → Prop} {f : Framer}
    {trace : FramerTrace} (run : Runs Framer.step allowed Framer.new trace f) :
    f.Sound trace := by
  refine run.history (motive := fun trace f => f.Sound trace) ?_ ?_
  · exact ⟨by simp [locked], fun _ => rfl, by simp [Framer.new]⟩
  · intro trace f event f' seen _ sound _ hstep
    exact sound.step hstep

/-! ## The wire format -/

/-- The message that the writers leave in a buffer for the content. -/
def Content.Written (content : Content) (m : Bytes) : Prop :=
  content.Fits ∧ ∃ dst buf l, maxMessageLen ≤ dst.length ∧
    content.write dst = .ok (buf, l) ∧ buf.take l = m

theorem Content.Written.eq_bytes {content : Content} {m : Bytes} (h : content.Written m) :
    m = content.bytes := by
  obtain ⟨hfits, dst, buf, l, hdst, hwrite, rfl⟩ := h
  rw [Content.write_eq hfits hdst] at hwrite
  cases hwrite
  rw [List.take_left]

/-- Only written messages are sent. -/
def Framer.sendsContents (_ : Framer) : FramerEvent → Prop
  | .lock data => ∃ content : Content, content.Written data
  | _ => True

theorem written_of_locked {f : Framer} {trace : FramerTrace}
    (run : Runs Framer.step Framer.sendsContents Framer.new trace f) :
    ∀ m ∈ locked trace, ∃ content : Content, content.Written m := by
  induction run with
  | refl => simp [locked]
  | @next trace f f' event seen _ hsends _ ih =>
      intro m hm
      rw [locked_concat] at hm
      rcases List.mem_append.mp hm with hm | hm
      · exact ih m hm
      · cases event with
        | lock data =>
            rw [List.mem_singleton.mp hm]
            exact hsends
        | write => cases hm
        | unlock => cases hm

/-- All that a stream of frames promises its reader. -/
structure WireFormat (f : Framer) (trace : FramerTrace) : Prop where
  /-- Once written, the messages arrive in the order of the lock, in any chunks. -/
  delivered : ∀ chunks, chunks.flatten = f.written → ∃ rest,
    receives (completed f trace).length chunks = .ok (completed f trace, rest) ∧
      (f.holder = none → rest.flatten = [])
  /-- What arrived at any time is the beginning of that order. -/
  in_order : ∀ chunks pending, chunks.flatten ++ pending = f.written →
    ∀ count messages rest, receives count chunks = .ok (messages, rest) →
      ∃ more, messages ++ more = locked trace
  readable : ∀ m ∈ locked trace, (∃ content : Content, content.Written m) ∧
    ∀ content : Content, content.Written m →
      content.ReadBack m ∧ ∀ isOutgoing, asMessage m isOutgoing = .ok m
  writable : ∀ content : Content, content.Fits → ∀ dst, maxMessageLen ≤ dst.length →
    ∃ buf l, content.write dst = .ok (buf, l)
  in_bounds : ∀ x m isOutgoing, asMessage x isOutgoing = .ok m → AccessorsInBounds m
  consumed : ∀ chunks m rest, receive chunks = .ok (m, rest) →
    ∃ bytes, send m = .ok bytes ∧ chunks.flatten = bytes ++ rest.flatten

theorem delivered_of_sound {f : Framer} {trace : FramerTrace} (sound : f.Sound trace)
    {chunks : List Bytes} (hchunks : chunks.flatten = f.written) :
    ∃ rest, receives (completed f trace).length chunks = .ok (completed f trace, rest) ∧
      (f.holder = none → rest.flatten = []) := by
  cases hholder : f.holder with
  | none =>
      have hcompleted : completed f trace = locked trace := by simp [completed, hholder]
      rw [sound.free hholder, ← List.append_nil ((locked trace).flatMap frame)] at hchunks
      obtain ⟨rest, hreceives, hrest⟩ := receives_frames sound.fits hchunks
      rw [hcompleted]
      exact ⟨rest, hreceives, fun _ => hrest⟩
  | some bytes =>
      obtain ⟨before, last, front, hlocked, -, hwritten⟩ := sound.held bytes hholder
      have hcompleted : completed f trace = before := by simp [completed, hholder, hlocked]
      rw [hwritten] at hchunks
      have hfits : ∀ m ∈ before, m.length ≤ maxMessageLen := by
        intro m hm
        exact sound.fits m (by simp [hlocked, hm])
      obtain ⟨rest, hreceives, -⟩ := receives_frames hfits hchunks
      rw [hcompleted]
      exact ⟨rest, hreceives, by simp⟩

theorem Framer.Sound.frames_eq {f : Framer} {trace : FramerTrace} (sound : f.Sound trace) :
    ∃ back, f.written ++ back = (locked trace).flatMap frame := by
  cases hholder : f.holder with
  | none => exact ⟨[], by rw [List.append_nil, sound.free hholder]⟩
  | some bytes =>
      obtain ⟨before, last, front, hlocked, hframe, hwritten⟩ := sound.held bytes hholder
      refine ⟨bytes, ?_⟩
      rw [hlocked, hwritten, List.flatMap_append, List.flatMap_singleton, hframe,
        List.append_assoc]

theorem in_order_of_sound {f : Framer} {trace : FramerTrace} (sound : f.Sound trace)
    {chunks rest : List Bytes} {pending : Bytes} {count : Nat} {messages : List Bytes}
    (hchunks : chunks.flatten ++ pending = f.written)
    (h : receives count chunks = .ok (messages, rest)) :
    ∃ more, messages ++ more = locked trace := by
  obtain ⟨back, hframes⟩ := sound.frames_eq
  have hreceived := frames_of_receives h
  have heq : messages.flatMap frame ++ (rest.flatten ++ pending ++ back) =
      (locked trace).flatMap frame := by
    rw [← hframes, ← hchunks, hreceived.2]
    simp only [List.append_assoc]
  exact frames_append_inj hreceived.1 sound.fits heq

/-- The wire format, for every interleaving of `Send`s and every chunking. -/
theorem ipc_wire_format {f : Framer} {trace : FramerTrace}
    (run : Runs Framer.step Framer.sendsContents Framer.new trace f) :
    WireFormat f trace := by
  have sound := Framer.sound_run run
  refine ⟨?_, ?_, ?_, ?_, ?_, ?_⟩
  · intro chunks hchunks
    exact delivered_of_sound sound hchunks
  · intro chunks pending hchunks count messages rest h
    exact in_order_of_sound sound hchunks h
  · intro m hm
    refine ⟨written_of_locked run m hm, fun content hwritten => ?_⟩
    rw [hwritten.eq_bytes]
    exact ⟨content.readBack_bytes, Content.asMessage_bytes hwritten.1⟩
  · intro content hfits dst hdst
    exact ⟨_, _, Content.write_eq hfits hdst⟩
  · intro x m isOutgoing h
    exact accessorsInBounds_of_asMessage h
  · intro chunks m rest h
    exact ⟨frame m, frame_of_receive h⟩

theorem Content.written_bytes {content : Content} (h : content.Fits) :
    content.Written content.bytes := by
  have hdst : maxMessageLen ≤ (List.replicate maxMessageLen (0 : UInt8)).length := by
    rw [List.length_replicate]
  exact ⟨h, _, _, _, hdst, Content.write_eq h hdst, List.take_left⟩

/-! ### Three messages -/

def sampleData : Content := .data (copyTo 32 [9]) [1, 2, 3]

def sampleAsk : Content := .ask mtFindAddr (copyTo 16 [7]) [123, 125]

/-- The first two are sent in parts, the last one is still being sent. -/
def sampleSending : List FramerEvent :=
  [.lock sampleData.bytes, .write 10, .write 33, .unlock,
    .lock Content.keepAlive.bytes, .write 3, .write 5, .unlock,
    .lock sampleAsk.bytes, .write 5]

theorem sendsContents_of_mem {event : FramerEvent} (h : event ∈ sampleSending) (f : Framer) :
    f.sendsContents event := by
  cases event with
  | lock data =>
      have hdata : data = sampleData.bytes ∨ data = Content.keepAlive.bytes ∨
          data = sampleAsk.bytes := by
        simpa [sampleSending] using h
      rcases hdata with rfl | rfl | rfl
      · exact ⟨sampleData, Content.written_bytes (show 3 ≤ mtu by decide)⟩
      · exact ⟨.keepAlive, Content.written_bytes trivial⟩
      · exact ⟨sampleAsk, Content.written_bytes (show _ ∧ _ by decide)⟩
  | write count => trivial
  | unlock => trivial

theorem ipc_wire_format_of_three_sends :
    ∃ trace f, trace.map Prod.fst = sampleSending ∧
      Runs Framer.step Framer.sendsContents Framer.new trace f ∧
      f.written = frame sampleData.bytes ++ frame Content.keepAlive.bytes ++
        (frame sampleAsk.bytes).take 5 ∧
      completed f trace = [sampleData.bytes, Content.keepAlive.bytes] ∧ WireFormat f trace := by
  have hreplay : (replay Framer.step anyEvent Framer.new sampleSending).map
      (fun result => (result.1.written, completed result.1 result.2)) =
      some (frame sampleData.bytes ++ frame Content.keepAlive.bytes ++
        (frame sampleAsk.bytes).take 5, [sampleData.bytes, Content.keepAlive.bytes]) := by
    decide +kernel
  obtain ⟨trace, f, hevents, run, hseen⟩ := exists_run_of_map hreplay
  obtain ⟨hwritten, hcompleted⟩ := Prod.mk.inj hseen
  have hsends : Runs Framer.step Framer.sendsContents Framer.new trace f := by
    refine run.restrict fun entry hentry state => ?_
    exact sendsContents_of_mem (hevents ▸ List.mem_map_of_mem hentry) state
  exact ⟨trace, f, hevents, hsends, hwritten, hcompleted, ipc_wire_format hsends⟩

end Inet256.Ipc
