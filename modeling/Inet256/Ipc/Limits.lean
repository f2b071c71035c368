import Inet256.Foundation.JsonValue
import Inet256.Ipc.Ask

/-!
# Messages that are too long

A client writes every message into a buffer of the largest length that a frame
may have.  The writers slice the buffer by the length that the message needs,
before anything has compared the two.
-/

namespace Inet256.Ipc

open Inet256.Foundation

variable {α : Type}

/-! ## The client and its transport -/

/-- What the transport's `Send` returns to a message. -/
abbrev Transport := Bytes → Option String

/-- The messages that were handed to the transport, and the error. -/
structure Sending where
  messages : List Bytes
  err : Option String
  deriving DecidableEq

def sendOn (transport : Transport) (m : Bytes) : Sending := ⟨[m], transport m⟩

namespace NodeClient

variable (transport : Transport)

def send (dst : Addr) (data : Bytes) : Go Sending := do
  let (buf, n) ← writeDataMessage (List.replicate maxMessageLen 0) dst data
  let m ← slice buf 0 n
  return sendOn transport m

/-- The body is what the JSON encoder returned for the request. -/
def sendRequest (reqID : RequestID) (mtype : MessageType) (body : Bytes) : Go Sending := do
  let (buf, n) ← writeAskMessage (List.replicate maxMessageLen 0) reqID mtype body
  let m ← slice buf 0 n
  return sendOn transport m

/-- A `FindAddrReq` as the encoder writes it; a slice that is nil becomes a null. -/
def findAddrReqText (prefixBytes : Option Bytes) (nbits : Int) : Bytes :=
  Json.Value.print (.object [
    (Json.stringBytes "prefix",
      match prefixBytes with
      | none => .null
      | some data => .string (Json.writeBytes data)),
    (Json.stringBytes "nbits", .number (Json.stringBytes (toString nbits)))])

/-- Without an error, the call goes on to wait for the response. -/
def findAddr (reqID : RequestID) (prefixBytes : Option Bytes) (nbits : Int) : Go Sending :=
  sendRequest transport reqID mtFindAddr (findAddrReqText prefixBytes nbits)

/-! ## The limit -/

/-- Both calls write a message, slice the buffer and hand the slice on. -/
def sendContent (content : Content) : Go Sending := do
  let (buf, n) ← content.write (List.replicate maxMessageLen 0)
  let m ← slice buf 0 n
  return sendOn transport m

theorem send_eq_sendContent (dst : Addr) (data : Bytes) :
    send transport dst data = sendContent transport (.data dst data) := rfl

theorem findAddr_eq_sendContent (reqID : RequestID) (prefixBytes : Option Bytes) (nbits : Int) :
    findAddr transport reqID prefixBytes nbits =
      sendContent transport (.ask mtFindAddr reqID (findAddrReqText prefixBytes nbits)) := rfl

variable {transport}

theorem sendContent_of_fits {content : Content} (h : content.Fits) :
    sendContent transport content = .ok (sendOn transport content.bytes) := by
  have hbuf : maxMessageLen ≤ (List.replicate maxMessageLen (0 : UInt8)).length := by
    rw [List.length_replicate]
  have hwrite := content.write_eq h hbuf
  have hslice := slice_append [] content.bytes
    ((List.replicate maxMessageLen 0).drop content.bytes.length) List.length_nil (Nat.zero_add _)
  rw [List.nil_append] at hslice
  simp only [sendContent, hwrite, hslice, Go.ok_bind, Go.pure_eq_ok]

/-- The slice comes before any test of the length. -/
theorem sendContent_of_lt {content : Content} (h : maxMessageLen < content.bytes.length) :
    sendContent transport content = crash "slice bounds out of range" := by
  have hbuf : (List.replicate maxMessageLen (0 : UInt8)).length < content.bytes.length := by
    rwa [List.length_replicate]
  cases content with
  | data addr payload =>
      simp only [Content.bytes, List.length_append, length_typeBytes, length_addr] at hbuf
      rw [sendContent, Content.write, writeDataMessage, slice_of_length_lt 0 hbuf]
      rfl
  | keepAlive => exact absurd h (by decide)
  | ask mtype reqID body =>
      simp only [Content.bytes, List.length_append, length_typeBytes, length_reqID] at hbuf
      rw [sendContent, Content.write, writeAskMessage, slice_of_length_lt 0 hbuf]
      rfl

/-- How long the message of a `FindAddr` request would be. -/
def requestLen (prefixBytes : Option Bytes) (nbits : Int) : Nat :=
  let digits := (Json.stringBytes (toString nbits)).length
  match prefixBytes with
  | none => 44 + digits
  | some data => 42 + 4 * ((data.length + 2) / 3) + digits

theorem length_findAddrReqText (reqID : RequestID) (prefixBytes : Option Bytes) (nbits : Int) :
    (Content.ask mtFindAddr reqID (findAddrReqText prefixBytes nbits)).bytes.length =
      requestLen prefixBytes nbits := by
  have hprefix : (Json.stringBytes "prefix").length = 6 := rfl
  have hnbits : (Json.stringBytes "nbits").length = 5 := rfl
  have hnull : (Json.stringBytes "null").length = 4 := rfl
  cases prefixBytes with
  | none =>
      simp only [Content.bytes, findAddrReqText, Json.Value.print, Json.printFields,
        List.length_append, List.length_cons, List.length_nil, length_typeBytes, length_reqID,
        hprefix, hnbits, hnull, requestLen]
      omega
  | some data =>
      simp only [Content.bytes, findAddrReqText, Json.Value.print, Json.printFields,
        List.length_append, List.length_cons, List.length_nil, length_typeBytes, length_reqID,
        hprefix, hnbits, Json.length_writeBytes, requestLen]
      omega

theorem send_of_lt {dst : Addr} {data : Bytes} (h : mtu < data.length) :
    send transport dst data = crash "slice bounds out of range" := by
  rw [send_eq_sendContent]
  refine sendContent_of_lt ?_
  simp only [Content.bytes, List.length_append, length_typeBytes, length_addr, maxMessageLen]
  omega

theorem findAddr_of_lt {reqID : RequestID} {prefixBytes : Option Bytes} {nbits : Int}
    (h : maxMessageLen < requestLen prefixBytes nbits) :
    findAddr transport reqID prefixBytes nbits = crash "slice bounds out of range" := by
  rw [findAddr_eq_sendContent]
  refine sendContent_of_lt ?_
  rwa [length_findAddrReqText]

/-! ## What the calls should do -/

/-- One data message for a payload that is not too long, and an error for any other. -/
structure SendsData (transport : Transport) (dst : Addr) (data : Bytes) : Prop where
  short : data.length ≤ mtu → ∃ m, send transport dst data = .ok ⟨[m], transport m⟩ ∧
    asMessage m true = .ok m ∧ Content.ReadBack m (.data dst data)
  long : mtu < data.length → ∃ err, send transport dst data = .ok ⟨[], some err⟩

/-- One request for the prefix, or an error. -/
def SendsRequest (transport : Transport) (reqID : RequestID) (prefixBytes : Option Bytes)
    (nbits : Int) : Prop :=
  ∃ sending, findAddr transport reqID prefixBytes nbits = .ok sending ∧
    ((∃ m, sending.messages = [m] ∧ asMessage m true = .ok m ∧
      Content.ReadBack m (.ask mtFindAddr reqID (findAddrReqText prefixBytes nbits))) ∨
    (sending.messages = [] ∧ sending.err.isSome))

theorem sendsData_iff (transport : Transport) (dst : Addr) (data : Bytes) :
    SendsData transport dst data ↔ data.length ≤ mtu := by
  constructor
  · intro h
    by_contra hlong
    obtain ⟨err, hsend⟩ := h.long (Nat.not_le.mp hlong)
    rw [send_of_lt (Nat.not_le.mp hlong)] at hsend
    cases hsend
  · intro hshort
    have hfits : (Content.data dst data).Fits := hshort
    refine ⟨fun _ => ?_, fun hlong => absurd hshort (Nat.not_le.mpr hlong)⟩
    rw [send_eq_sendContent]
    exact ⟨_, sendContent_of_fits hfits, Content.asMessage_bytes hfits true,
      Content.readBack_bytes _⟩

theorem sendsRequest_iff (transport : Transport) (reqID : RequestID)
    (prefixBytes : Option Bytes) (nbits : Int) :
    SendsRequest transport reqID prefixBytes nbits ↔
      requestLen prefixBytes nbits ≤ maxMessageLen := by
  have hlength := length_findAddrReqText reqID prefixBytes nbits
  constructor
  · rintro ⟨sending, hsend, -⟩
    by_contra hlong
    rw [findAddr_of_lt (Nat.not_le.mp hlong)] at hsend
    cases hsend
  · intro hshort
    have hfits : (Content.ask mtFindAddr reqID (findAddrReqText prefixBytes nbits)).Fits := by
      refine ⟨Or.inl rfl, ?_⟩
      rw [← hlength] at hshort
      simpa only [Content.bytes, List.length_append, length_typeBytes, length_reqID] using hshort
    rw [SendsRequest, findAddr_eq_sendContent]
    exact ⟨_, sendContent_of_fits hfits,
      Or.inl ⟨_, rfl, Content.asMessage_bytes hfits true, Content.readBack_bytes _⟩⟩

/-- The calls do what they should for exactly the inputs whose messages fit the buffer. -/
theorem client_limits_iff (transport : Transport) :
    (∀ dst data, SendsData transport dst data ↔ data.length ≤ mtu) ∧
    ∀ reqID prefixBytes nbits, SendsRequest transport reqID prefixBytes nbits ↔
      requestLen prefixBytes nbits ≤ maxMessageLen :=
  ⟨sendsData_iff transport, sendsRequest_iff transport⟩

/-- One byte more than a message may carry. -/
def sampleLong : Bytes := List.replicate (mtu + 1) 0

theorem length_sampleLong : sampleLong.length = mtu + 1 := List.length_replicate

/-- On any transport, a payload and a prefix that are too long stop the client. -/
theorem not_client_limits :
    send (fun _ => none) (copyTo 32 [7]) sampleLong = crash "slice bounds out of range" ∧
      findAddr (fun _ => none) (copyTo 16 [1]) (some sampleLong) 0 =
        crash "slice bounds out of range" ∧
      ¬ SendsData (fun _ => none) (copyTo 32 [7]) sampleLong ∧
      ¬ SendsRequest (fun _ => none) (copyTo 16 [1]) (some sampleLong) 0 := by
  have hdata : mtu < sampleLong.length := by
    rw [length_sampleLong]
    exact Nat.lt_succ_self mtu
  have hrequest : maxMessageLen < requestLen (some sampleLong) 0 := by
    rw [requestLen, length_sampleLong]
    unfold maxMessageLen
    omega
  refine ⟨send_of_lt hdata, findAddr_of_lt hrequest, ?_, ?_⟩
  · exact mt (sendsData_iff _ _ _).mp (Nat.not_le.mpr hdata)
  · exact mt (sendsRequest_iff _ _ _ _).mp (Nat.not_le.mpr hrequest)

end NodeClient

end Inet256.Ipc
