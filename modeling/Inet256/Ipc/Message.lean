import Inet256.Pki.Codec

/-!
# Messages between processes

A message is a type word followed by a layout that depends on the type: an
address and a payload for data, a request ID and a JSON body for requests and
responses, nothing for a keep-alive.  Messages are written into buffers and
read back through accessors that slice them.
-/

namespace Inet256.Ipc

open Inet256.Foundation

def maxMessageLen : Nat := 4 + 32 + mtu

def minMessageLen : Nat := 4

def reqIDLen : Nat := 16

def minDataMsgLen : Nat := minMessageLen + 32

def minAskMsgLen : Nat := minMessageLen + reqIDLen

abbrev MessageType := UInt32

abbrev RequestID := List.Vector UInt8 reqIDLen

def spelled (a b c d : Char) : MessageType :=
  UInt32.ofNat (a.toNat <<< 24 ||| b.toNat <<< 16 ||| c.toNat <<< 8 ||| d.toNat)

def mtData : MessageType := spelled 'D' 'A' 'T' 'A'

def mtPublicKey : MessageType := spelled 'P' 'U' 'B' 'K'

def mtFindAddr : MessageType := spelled 'F' 'I' 'N' 'D'

def mtKeepAlive : MessageType := spelled 'K' 'E' 'E' 'P'

/-! ## Accessors -/

def getType (m : Bytes) : Go MessageType := do
  let word ← slice m 0 4
  return UInt32.ofNat (beValue word)

def asMessage (x : Bytes) (_isOutgoing : Bool) : Go Bytes :=
  if x.length < minMessageLen then fail s!"too short to be message len={x.length}"
  else do
    let mtype ← getType x
    if mtype = mtData then
      if x.length < minDataMsgLen then fail "too short to be Data message" else return x
    else if mtype = mtFindAddr ∨ mtype = mtPublicKey then
      if x.length < minAskMsgLen then
        fail s!"message type={mtype} does not contain request-id"
      else return x
    else if mtype = mtKeepAlive then return x
    else fail s!"unrecognized type {mtype}"

structure DataMsg where
  addr : Addr
  payload : Bytes
  deriving DecidableEq

def dataMsg (m : Bytes) : Go DataMsg := do
  let addr ← slice m 4 (4 + 32)
  let payload ← slice m (4 + 32) m.length
  return { addr := idFromBytes addr, payload }

def getRequestID (m : Bytes) : Go RequestID := do
  let id ← slice m 4 (4 + 16)
  return copyTo reqIDLen id

def askBody (m : Bytes) : Go Bytes := slice m (4 + 16) m.length

/-! ## Writers -/

def typeBytes (mtype : MessageType) : Bytes := beBytes 4 mtype.toNat

def putAt (buf : Bytes) (start : Nat) (part : Bytes) : Bytes :=
  buf.take start ++ part ++ buf.drop (start + part.length)

/-- Copy into a window of a buffer that has exactly the source's length. -/
def copyExact (buf : Bytes) (lo hi : Nat) (src : Bytes) : Go Bytes :=
  if min (hi - lo) src.length ≠ hi - lo then crash s!"{hi - lo}"
  else if min (hi - lo) src.length ≠ src.length then crash s!"{src.length}"
  else .ok (putAt buf lo src)

/-- Each writer returns the buffer and the length of the message in it. -/
def writeDataMessage (dst : Bytes) (addr : Addr) (data : Bytes) : Go (Bytes × Nat) := do
  let l := 4 + 32 + data.length
  let m ← slice dst 0 l
  let m := putAt m 0 (typeBytes mtData)
  let m ← copyExact m 4 (4 + 32) addr.toList
  let m ← copyExact m (4 + 32) m.length data
  return (m ++ dst.drop l, l)

def writeKeepAlive (dst : Bytes) : Go (Bytes × Nat) := do
  let l := 4
  let m ← slice dst 0 l
  let m := putAt m 0 (typeBytes mtKeepAlive)
  return (m ++ dst.drop l, l)

/-- The body is what the JSON encoder returned for the request or response. -/
def writeAskMessage (dst : Bytes) (reqID : RequestID) (mtype : MessageType) (body : Bytes) :
    Go (Bytes × Nat) := do
  let l := 4 + 16 + body.length
  let m ← slice dst 0 l
  let m := putAt m 0 (typeBytes mtype)
  let m := putAt m 4 reqID.toList
  let m ← copyExact m (4 + 16) m.length body
  return (m ++ dst.drop l, l)

/-! ## What the writers write -/

@[simp] theorem length_typeBytes (mtype : MessageType) : (typeBytes mtype).length = 4 :=
  beBytes_length 4 _

theorem length_addr (addr : Addr) : addr.toList.length = 32 := addr.toList_length

theorem length_reqID (reqID : RequestID) : reqID.toList.length = 16 := reqID.toList_length

theorem length_putAt {buf part : Bytes} {start : Nat} (h : start + part.length ≤ buf.length) :
    (putAt buf start part).length = buf.length := by
  simp only [putAt, List.length_append, List.length_take, List.length_drop]
  omega

theorem copyExact_eq_ok {buf src : Bytes} {lo hi : Nat} (h : lo + src.length = hi) :
    copyExact buf lo hi src = .ok (putAt buf lo src) := by
  have hwindow : hi - lo = src.length := by omega
  simp [copyExact, hwindow]

theorem putAt_append (front part old : Bytes) :
    putAt (front ++ old) front.length part = front ++ part ++ old.drop part.length := by
  rw [putAt, List.take_left, List.drop_append]
  simp

theorem putAt_three {buf : Bytes} (a b c : Bytes)
    (h : buf.length = a.length + b.length + c.length) :
    putAt (putAt (putAt buf 0 a) a.length b) (a.length + b.length) c = a ++ b ++ c := by
  have hfirst : putAt buf 0 a = a ++ buf.drop a.length := by
    simpa using putAt_append [] a buf
  have hsecond : putAt (a ++ buf.drop a.length) a.length b =
      a ++ b ++ buf.drop (a.length + b.length) := by
    rw [putAt_append, List.drop_drop]
  have hthird := putAt_append (a ++ b) c (buf.drop (a.length + b.length))
  rw [List.length_append] at hthird
  rw [hfirst, hsecond, hthird, List.drop_drop, List.drop_of_length_le (by omega),
    List.append_nil]

theorem slice_zero_length {dst : Bytes} {l : Nat} (h : l ≤ dst.length) :
    slice dst 0 l = .ok (dst.take l) ∧ (dst.take l).length = l :=
  ⟨slice_zero h, List.length_take_of_le h⟩

theorem writeDataMessage_eq {dst data : Bytes} (addr : Addr)
    (h : 4 + 32 + data.length ≤ dst.length) :
    writeDataMessage dst addr data =
      .ok (typeBytes mtData ++ addr.toList ++ data ++ dst.drop (4 + 32 + data.length),
        4 + 32 + data.length) := by
  obtain ⟨hslice, hlength⟩ := slice_zero_length h
  have haddr := length_addr addr
  generalize dst.take (4 + 32 + data.length) = buf at hslice hlength
  have htype : (putAt buf 0 (typeBytes mtData)).length = buf.length :=
    length_putAt (by rw [length_typeBytes]; omega)
  have hsecond : (putAt (putAt buf 0 (typeBytes mtData)) 4 addr.toList).length = buf.length := by
    rw [length_putAt (by rw [htype]; omega), htype]
  have hcopy : copyExact (putAt buf 0 (typeBytes mtData)) 4 (4 + 32) addr.toList =
      .ok (putAt (putAt buf 0 (typeBytes mtData)) 4 addr.toList) :=
    copyExact_eq_ok (by rw [haddr])
  have hthree := putAt_three (typeBytes mtData) addr.toList data
    (show buf.length = _ by rw [length_typeBytes, haddr, hlength])
  rw [length_typeBytes, haddr] at hthree
  rw [writeDataMessage]
  simp only [hslice, Go.ok_bind, hcopy]
  rw [copyExact_eq_ok (by rw [hsecond, hlength]), Go.ok_bind, hthree, Go.pure_eq_ok]

theorem writeKeepAlive_eq {dst : Bytes} (h : 4 ≤ dst.length) :
    writeKeepAlive dst = .ok (typeBytes mtKeepAlive ++ dst.drop 4, 4) := by
  obtain ⟨hslice, hlength⟩ := slice_zero_length h
  generalize dst.take 4 = buf at hslice hlength
  have hput : putAt buf 0 (typeBytes mtKeepAlive) = typeBytes mtKeepAlive := by
    have hthree := putAt_three (typeBytes mtKeepAlive) [] []
      (show buf.length = _ by simp [hlength])
    simpa [putAt] using hthree
  rw [writeKeepAlive]
  simp only [hslice, Go.ok_bind, hput, Go.pure_eq_ok]

theorem writeAskMessage_eq {dst body : Bytes} (reqID : RequestID) (mtype : MessageType)
    (h : 4 + 16 + body.length ≤ dst.length) :
    writeAskMessage dst reqID mtype body =
      .ok (typeBytes mtype ++ reqID.toList ++ body ++ dst.drop (4 + 16 + body.length),
        4 + 16 + body.length) := by
  obtain ⟨hslice, hlength⟩ := slice_zero_length h
  have hid := length_reqID reqID
  generalize dst.take (4 + 16 + body.length) = buf at hslice hlength
  have htype : (putAt buf 0 (typeBytes mtype)).length = buf.length :=
    length_putAt (by rw [length_typeBytes]; omega)
  have hsecond : (putAt (putAt buf 0 (typeBytes mtype)) 4 reqID.toList).length = buf.length := by
    rw [length_putAt (by rw [htype]; omega), htype]
  have hthree := putAt_three (typeBytes mtype) reqID.toList body
    (show buf.length = _ by rw [length_typeBytes, hid, hlength])
  rw [length_typeBytes, hid] at hthree
  rw [writeAskMessage]
  simp only [hslice, Go.ok_bind]
  rw [copyExact_eq_ok (by rw [hsecond, hlength]), Go.ok_bind, hthree, Go.pure_eq_ok]

/-! ## Contents -/

inductive Content where
  | data (addr : Addr) (payload : Bytes)
  | keepAlive
  | ask (mtype : MessageType) (reqID : RequestID) (body : Bytes)
  deriving DecidableEq

namespace Content

def write (dst : Bytes) : Content → Go (Bytes × Nat)
  | .data addr payload => writeDataMessage dst addr payload
  | .keepAlive => writeKeepAlive dst
  | .ask mtype reqID body => writeAskMessage dst reqID mtype body

/-- Payloads up to the MTU, and requests and responses that fit a message. -/
def Fits : Content → Prop
  | .data _ payload => payload.length ≤ mtu
  | .keepAlive => True
  | .ask mtype _ body =>
      (mtype = mtFindAddr ∨ mtype = mtPublicKey) ∧ 4 + 16 + body.length ≤ maxMessageLen

def bytes : Content → Bytes
  | .data addr payload => typeBytes mtData ++ addr.toList ++ payload
  | .keepAlive => typeBytes mtKeepAlive
  | .ask mtype reqID body => typeBytes mtype ++ reqID.toList ++ body

theorem length_bytes_le {content : Content} (h : content.Fits) :
    content.bytes.length ≤ maxMessageLen := by
  cases content with
  | data addr payload =>
      unfold Fits at h
      simp only [bytes, List.length_append, length_typeBytes, length_addr, maxMessageLen]
      omega
  | keepAlive =>
      simp only [bytes, length_typeBytes, maxMessageLen]
      omega
  | ask mtype reqID body =>
      simp only [bytes, List.length_append, length_typeBytes, length_reqID]
      exact h.2

theorem write_eq {content : Content} (h : content.Fits) {dst : Bytes}
    (hdst : maxMessageLen ≤ dst.length) :
    content.write dst =
      .ok (content.bytes ++ dst.drop content.bytes.length, content.bytes.length) := by
  have hle := (length_bytes_le h).trans hdst
  cases content with
  | data addr payload =>
      simp only [bytes, List.length_append, length_typeBytes, length_addr] at hle ⊢
      exact writeDataMessage_eq addr hle
  | keepAlive =>
      simp only [bytes, length_typeBytes] at hle ⊢
      exact writeKeepAlive_eq hle
  | ask mtype reqID body =>
      simp only [bytes, List.length_append, length_typeBytes, length_reqID] at hle ⊢
      exact writeAskMessage_eq reqID mtype hle

end Content

/-! ## What is written is read back -/

theorem getType_append (mtype : MessageType) (rest : Bytes) :
    getType (typeBytes mtype ++ rest) = .ok mtype := by
  have hslice : slice (typeBytes mtype ++ rest) 0 4 = .ok (typeBytes mtype) := by
    simpa using slice_append [] (typeBytes mtype) rest rfl (by simp)
  have hvalue : beValue (typeBytes mtype) = mtype.toNat :=
    beValue_beBytes (by simpa using mtype.toNat_lt)
  rw [getType, hslice, Go.ok_bind, hvalue, Go.pure_eq_ok, UInt32.ofNat_toNat]

theorem slice_to_end (front rest : Bytes) {lo : Nat} (h : front.length = lo) :
    slice (front ++ rest) lo (front ++ rest).length = .ok rest := by
  have hslice := slice_append front rest [] h rfl
  rw [List.append_nil, ← h, ← List.length_append] at hslice
  rw [← h]
  exact hslice

/-- The accessors for the type of a message return what it was written from. -/
def Content.ReadBack (m : Bytes) : Content → Prop
  | .data addr payload => getType m = .ok mtData ∧ dataMsg m = .ok ⟨addr, payload⟩
  | .keepAlive => getType m = .ok mtKeepAlive
  | .ask mtype reqID body =>
      getType m = .ok mtype ∧ getRequestID m = .ok reqID ∧ askBody m = .ok body

theorem Content.readBack_bytes (content : Content) : content.ReadBack content.bytes := by
  cases content with
  | data addr payload =>
      have haddr : slice (typeBytes mtData ++ addr.toList ++ payload) 4 (4 + 32) =
          .ok addr.toList := by
        rw [List.append_assoc]
        exact slice_append _ _ _ (length_typeBytes _) (by rw [length_addr])
      have hpayload := slice_to_end (typeBytes mtData ++ addr.toList) payload
        (show _ = 4 + 32 by rw [List.length_append, length_typeBytes, length_addr])
      refine ⟨?_, ?_⟩
      · rw [bytes, List.append_assoc, getType_append]
      · simp only [dataMsg, bytes, haddr, hpayload, Go.ok_bind, Go.pure_eq_ok, idFromBytes,
          copyTo_toList]
  | keepAlive => simpa [ReadBack, bytes] using getType_append mtKeepAlive []
  | ask mtype reqID body =>
      have hid : slice (typeBytes mtype ++ reqID.toList ++ body) 4 (4 + 16) =
          .ok reqID.toList := by
        rw [List.append_assoc]
        exact slice_append _ _ _ (length_typeBytes _) (by rw [length_reqID])
      have hbody := slice_to_end (typeBytes mtype ++ reqID.toList) body
        (show _ = 4 + 16 by rw [List.length_append, length_typeBytes, length_reqID])
      refine ⟨?_, ?_, hbody⟩
      · rw [bytes, List.append_assoc, getType_append]
      · rw [getRequestID, bytes, hid, Go.ok_bind, copyTo_toList, Go.pure_eq_ok]

theorem Content.asMessage_bytes {content : Content} (h : content.Fits) (isOutgoing : Bool) :
    asMessage content.bytes isOutgoing = .ok content.bytes := by
  have hread := content.readBack_bytes
  cases content with
  | data addr payload =>
      have hlength : minDataMsgLen ≤ (Content.data addr payload).bytes.length := by
        simp only [bytes, List.length_append, length_typeBytes, length_addr, minDataMsgLen,
          minMessageLen]
        omega
      have hmin : ¬ (Content.data addr payload).bytes.length < minMessageLen := by
        unfold minDataMsgLen at hlength
        omega
      rw [asMessage, if_neg hmin, hread.1, Go.ok_bind, if_pos rfl,
        if_neg (Nat.not_lt.mpr hlength), Go.pure_eq_ok]
  | keepAlive =>
      have hmin : ¬ Content.keepAlive.bytes.length < minMessageLen := by
        simp [bytes, minMessageLen]
      rw [asMessage, if_neg hmin, hread, Go.ok_bind, if_neg (by decide), if_neg (by decide),
        if_pos rfl, Go.pure_eq_ok]
  | ask mtype reqID body =>
      have hlength : minAskMsgLen ≤ (Content.ask mtype reqID body).bytes.length := by
        simp only [bytes, List.length_append, length_typeBytes, length_reqID]
        unfold minAskMsgLen minMessageLen reqIDLen
        omega
      have hmin : ¬ (Content.ask mtype reqID body).bytes.length < minMessageLen := by
        unfold minAskMsgLen at hlength
        omega
      have hdata : mtype ≠ mtData := by
        rcases h.1 with rfl | rfl <;> decide
      rw [asMessage, if_neg hmin, hread.1, Go.ok_bind, if_neg hdata, if_pos h.1,
        if_neg (Nat.not_lt.mpr hlength), Go.pure_eq_ok]

/-! ## Accepted messages -/

/-- The accessors for the type of a message stay inside it. -/
structure AccessorsInBounds (m : Bytes) : Prop where
  typed : ∃ mtype, getType m = .ok mtype
  data : getType m = .ok mtData → ∃ msg, dataMsg m = .ok msg
  ask : getType m = .ok mtFindAddr ∨ getType m = .ok mtPublicKey →
    (∃ reqID, getRequestID m = .ok reqID) ∧ ∃ body, askBody m = .ok body

theorem exists_getType {x : Bytes} (h : minMessageLen ≤ x.length) :
    ∃ mtype, getType x = .ok mtype := by
  unfold minMessageLen at h
  rw [getType, slice_eq_ok (by omega) h]
  exact ⟨_, rfl⟩

theorem exists_dataMsg {x : Bytes} (h : minDataMsgLen ≤ x.length) :
    ∃ msg, dataMsg x = .ok msg := by
  unfold minDataMsgLen minMessageLen at h
  rw [dataMsg, slice_eq_ok (by omega) h, Go.ok_bind, slice_eq_ok h le_rfl]
  exact ⟨_, rfl⟩

theorem exists_ask {x : Bytes} (h : minAskMsgLen ≤ x.length) :
    (∃ reqID, getRequestID x = .ok reqID) ∧ ∃ body, askBody x = .ok body := by
  unfold minAskMsgLen minMessageLen reqIDLen at h
  rw [getRequestID, askBody, slice_eq_ok (by omega) h, slice_eq_ok h le_rfl]
  exact ⟨⟨_, rfl⟩, ⟨_, rfl⟩⟩

theorem asMessage_eq_ok {x m : Bytes} {isOutgoing : Bool}
    (h : asMessage x isOutgoing = .ok m) :
    m = x ∧ minMessageLen ≤ x.length ∧
      (getType x = .ok mtData → minDataMsgLen ≤ x.length) ∧
      (getType x = .ok mtFindAddr ∨ getType x = .ok mtPublicKey →
        minAskMsgLen ≤ x.length) := by
  unfold asMessage at h
  split at h
  · cases h
  · next hmin =>
      have hlength := Nat.not_lt.mp hmin
      obtain ⟨mtype, htype, h⟩ := Go.bind_eq_ok.mp h
      rw [htype]
      split at h
      · next hdata =>
          subst hdata
          split at h
          · cases h
          · next hlong =>
              cases h
              refine ⟨rfl, hlength, fun _ => Nat.not_lt.mp hlong, fun hask => ?_⟩
              rcases hask with hask | hask
              · exact absurd (Except.ok.inj hask) (by decide)
              · exact absurd (Except.ok.inj hask) (by decide)
      · next hdata =>
          have hnot : (Except.ok mtype : Go MessageType) = .ok mtData →
              minDataMsgLen ≤ x.length := fun heq => absurd (Except.ok.inj heq) hdata
          split at h
          · split at h
            · cases h
            · next hlong =>
                cases h
                exact ⟨rfl, hlength, hnot, fun _ => Nat.not_lt.mp hlong⟩
          · next hask =>
              split at h
              · cases h
                refine ⟨rfl, hlength, hnot, fun heq => absurd ?_ hask⟩
                exact heq.imp Except.ok.inj Except.ok.inj
              · cases h

/-- A message of the same type that is not shorter than any header is accepted too. -/
theorem asMessage_of_same_type {x y m : Bytes} {isOutgoing isOutgoing' : Bool}
    (h : asMessage x isOutgoing = .ok m) (htype : getType y = getType x)
    (hlength : minDataMsgLen ≤ y.length) : asMessage y isOutgoing' = .ok y := by
  have hask : minAskMsgLen ≤ y.length := (by decide : minAskMsgLen ≤ minDataMsgLen).trans hlength
  have hmin : minMessageLen ≤ y.length := (by decide : minMessageLen ≤ minAskMsgLen).trans hask
  unfold asMessage at h ⊢
  split at h
  · cases h
  · obtain ⟨mtype, hmtype, h⟩ := Go.bind_eq_ok.mp h
    rw [if_neg (Nat.not_lt.mpr hmin), htype, hmtype, Go.ok_bind, if_neg (Nat.not_lt.mpr hlength),
      if_neg (Nat.not_lt.mpr hask)]
    split
    · rfl
    · next hdata =>
        rw [if_neg hdata] at h
        split
        · rfl
        · next hother =>
            rw [if_neg hother] at h
            split
            · rfl
            · next hkeep =>
                rw [if_neg hkeep] at h
                cases h

theorem getType_take (m : Bytes) {n : Nat} (h : 4 ≤ n) : getType (m.take n) = getType m := by
  rw [getType, slice_take m h, getType]

/-- What is accepted and neither data nor a keep-alive is a request or a response. -/
theorem ask_of_asMessage {x m : Bytes} {mtype : MessageType} {isOutgoing : Bool}
    (h : asMessage x isOutgoing = .ok m) (htype : getType x = .ok mtype)
    (hother : ¬ (mtype = mtData ∨ mtype = mtKeepAlive)) :
    mtype = mtFindAddr ∨ mtype = mtPublicKey := by
  obtain ⟨hdata, hkeep⟩ := not_or.mp hother
  unfold asMessage at h
  split at h
  · cases h
  · rw [htype, Go.ok_bind, if_neg hdata, if_neg hkeep] at h
    split at h
    · next hask => exact hask
    · cases h

theorem accessorsInBounds_of_asMessage {x m : Bytes} {isOutgoing : Bool}
    (h : asMessage x isOutgoing = .ok m) : AccessorsInBounds m := by
  obtain ⟨rfl, hlength, hdata, hask⟩ := asMessage_eq_ok h
  exact ⟨exists_getType hlength, fun htype => exists_dataMsg (hdata htype),
    fun htype => exists_ask (hask htype)⟩

end Inet256.Ipc
