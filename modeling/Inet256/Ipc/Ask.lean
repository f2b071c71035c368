import Inet256.Foundation.Json
import Inet256.Ipc.Stream

/-!
# Requests and responses

The bodies of ask messages.  A response is an envelope with a value and an
error text, and the reader takes an empty text for success.
-/

namespace Inet256.Ipc

open Inet256.Foundation
open Inet256.Crypto

variable {P : Primitives} {α : Type}

structure FindAddrReq where
  prefixBytes : Bytes
  nbits : Int
  deriving DecidableEq

structure FindAddrRes where
  addr : Addr
  deriving DecidableEq

structure LookupPublicKeyReq where
  target : Addr
  deriving DecidableEq

structure LookupPublicKeyRes where
  publicKey : Bytes
  deriving DecidableEq

structure Response (α : Type) where
  success : α
  error : String
  deriving DecidableEq

structure Codecs where
  findAddrReq : JsonCodec FindAddrReq
  findAddrRes : JsonCodec (Response FindAddrRes)
  lookupPublicKeyReq : JsonCodec LookupPublicKeyReq
  lookupPublicKeyRes : JsonCodec (Response LookupPublicKeyRes)

def FindAddrRes.zero : FindAddrRes := ⟨copyTo 32 []⟩

def LookupPublicKeyRes.zero : LookupPublicKeyRes := ⟨[]⟩

/-! ## Readers -/

def parseJSON (J : JsonCodec α) (m : Bytes) : Go α := do
  let body ← slice m (4 + 16) m.length
  J.unmarshal body

def readResponse (J : JsonCodec (Response α)) (m : Bytes) : Go α := do
  let res ← parseJSON J m
  if res.error ≠ "" then fail res.error else return res.success

variable (C : Codecs)

def findAddrReq (m : Bytes) : Go FindAddrReq := parseJSON C.findAddrReq m

def findAddrRes (m : Bytes) : Go FindAddrRes := readResponse C.findAddrRes m

def lookupPublicKeyReq (m : Bytes) : Go LookupPublicKeyReq := parseJSON C.lookupPublicKeyReq m

def lookupPublicKeyRes (m : Bytes) : Go LookupPublicKeyRes :=
  readResponse C.lookupPublicKeyRes m

/-! ## Writers -/

def writeRequest (dst : Bytes) (reqID : RequestID) (mtype : MessageType) (J : JsonCodec α)
    (x : α) : Go (Bytes × Nat) :=
  writeAskMessage dst reqID mtype (J.marshal x)

def writeSuccess (dst : Bytes) (reqID : RequestID) (mtype : MessageType)
    (J : JsonCodec (Response α)) (x : α) : Go (Bytes × Nat) :=
  writeAskMessage dst reqID mtype (J.marshal { success := x, error := "" })

/-- The envelope of an error has the zero value of its type. -/
def writeError (dst : Bytes) (reqID : RequestID) (mtype : MessageType)
    (J : JsonCodec (Response α)) (zero : α) (err : String) : Go (Bytes × Nat) :=
  writeAskMessage dst reqID mtype (J.marshal { success := zero, error := err })

/-! ## The server's side -/

/-- A value and an error, of which the caller looks at the error first. -/
structure Result (α : Type) where
  value : α
  err : Option String
  deriving DecidableEq

/-- What a node returns to calls made at one moment. -/
structure Node (P : Primitives) where
  findAddr : Bytes → Int → Result Addr
  lookupPublicKey : Addr → Result (PublicKey P)

def handleAsk (node : Node P) (m resBuf : Bytes) : Go (Bytes × Nat) := do
  let mtype ← getType m
  if mtype = mtFindAddr then
    let req ← findAddrReq C m
    let addr := node.findAddr req.prefixBytes req.nbits
    let reqID ← getRequestID m
    match addr.err with
    | some err => writeError resBuf reqID mtFindAddr C.findAddrRes .zero err
    | none => writeSuccess resBuf reqID mtFindAddr C.findAddrRes ⟨addr.value⟩
  else if mtype = mtPublicKey then
    let req ← lookupPublicKeyReq C m
    let pubKey := node.lookupPublicKey req.target
    let reqID ← getRequestID m
    match pubKey.err with
    | some err => writeError resBuf reqID mtPublicKey C.lookupPublicKeyRes .zero err
    | none =>
        let data ← marshalPublicKey [] pubKey.value
        writeSuccess resBuf reqID mtPublicKey C.lookupPublicKeyRes ⟨data⟩
  else if mtype = mtKeepAlive then return (resBuf, 0)
  else fail s!"unrecognized message type {mtype}"

def maxFrameLen : Nat := maxMessageLen + 4

/-- What the goroutine for a request sends: after an error, nothing of its buffer. -/
def respond (node : Node P) (m : Bytes) (resBuf : List.Vector UInt8 maxFrameLen) : Go Bytes :=
  match handleAsk C node m resBuf.toList with
  | .ok (buf, n) => slice buf 0 n
  | .error (.error _) => slice resBuf.toList 0 0
  | .error (.panic text) => crash text

/-! ## The client's side -/

inductive Ask where
  | findAddr (prefixBytes : Bytes) (nbits : Int)
  | lookupPublicKey (target : Addr)
  deriving DecidableEq

def Ask.mtype : Ask → MessageType
  | .findAddr _ _ => mtFindAddr
  | .lookupPublicKey _ => mtPublicKey

def Ask.body : Ask → Bytes
  | .findAddr prefixBytes nbits => C.findAddrReq.marshal ⟨prefixBytes, nbits⟩
  | .lookupPublicKey target => C.lookupPublicKeyReq.marshal ⟨target⟩

def Ask.content (reqID : RequestID) (ask : Ask) : Content := .ask ask.mtype reqID (ask.body C)

def sendRequest (reqID : RequestID) (mtype : MessageType) (J : JsonCodec α) (req : α) :
    Go Bytes := do
  let (buf, n) ← writeRequest (List.replicate maxMessageLen 0) reqID mtype J req
  let m ← slice buf 0 n
  let _ ← send m
  return m

def Ask.request (reqID : RequestID) : Ask → Go Bytes
  | .findAddr prefixBytes nbits =>
      sendRequest reqID mtFindAddr C.findAddrReq ⟨prefixBytes, nbits⟩
  | .lookupPublicKey target => sendRequest reqID mtPublicKey C.lookupPublicKeyReq ⟨target⟩

/-- How a call ends when its future is settled: a failure keeps the error's text. -/
def settlement (call : Go α) : Go (Except String α) :=
  match call with
  | .ok value => .ok (.ok value)
  | .error (.error text) => .ok (.error text)
  | .error (.panic text) => crash text

def findAddrSettlement (m : Bytes) : Go (Except String Addr) :=
  settlement do
    let res ← findAddrRes C m
    return res.addr

def lookupPublicKeySettlement (m : Bytes) : Go (Except String (PublicKey P)) :=
  settlement do
    let res ← lookupPublicKeyRes C m
    parsePublicKey res.publicKey

variable {C}

/-! ## Reading what was written -/

theorem writeAskMessage_ok {dst buf body : Bytes} {reqID : RequestID} {mtype : MessageType}
    {n : Nat} (h : writeAskMessage dst reqID mtype body = .ok (buf, n)) :
    slice buf 0 n = .ok (Content.ask mtype reqID body).bytes := by
  by_cases hfits : 4 + 16 + body.length ≤ dst.length
  · rw [writeAskMessage_eq reqID mtype hfits] at h
    cases h
    have hlength : (Content.ask mtype reqID body).bytes.length = 4 + 16 + body.length := by
      simp only [Content.bytes, List.length_append, length_typeBytes, length_reqID]
    have hslice := slice_append [] (Content.ask mtype reqID body).bytes
      (dst.drop (4 + 16 + body.length)) rfl (Nat.zero_add _)
    rw [hlength, List.nil_append] at hslice
    exact hslice
  · rw [writeAskMessage, slice_of_length_lt 0 (Nat.not_le.mp hfits)] at h
    cases h

theorem parseJSON_ask (J : JsonCodec α) (mtype : MessageType) (reqID : RequestID) (x : α) :
    parseJSON J (Content.ask mtype reqID (J.marshal x)).bytes = .ok x := by
  have hbody : slice _ (4 + 16) _ = .ok (J.marshal x) :=
    (Content.ask mtype reqID (J.marshal x)).readBack_bytes.2.2
  rw [parseJSON, hbody, Go.ok_bind, J.unmarshal_marshal]

theorem readResponse_ask (J : JsonCodec (Response α)) (mtype : MessageType)
    (reqID : RequestID) (res : Response α) :
    readResponse J (Content.ask mtype reqID (J.marshal res)).bytes =
      if res.error ≠ "" then fail res.error else .ok res.success := by
  rw [readResponse, parseJSON_ask]
  rfl

theorem settlement_eq_ok {call : Go α} {value : α} :
    settlement call = .ok (.ok value) ↔ call = .ok value := by
  unfold settlement
  split <;> simp [crash]

theorem fits_ask (ask : Ask) (reqID : RequestID)
    (h : (ask.content C reqID).bytes.length ≤ maxMessageLen) : (ask.content C reqID).Fits := by
  constructor
  · cases ask with
    | findAddr => exact Or.inl rfl
    | lookupPublicKey => exact Or.inr rfl
  · simpa only [Ask.content, Content.bytes, List.length_append, length_typeBytes,
      length_reqID] using h

theorem sendRequest_eq_ok {reqID : RequestID} {mtype : MessageType} {J : JsonCodec α}
    {req : α} {m : Bytes} (h : sendRequest reqID mtype J req = .ok m) :
    m = (Content.ask mtype reqID (J.marshal req)).bytes ∧ m.length ≤ maxMessageLen := by
  obtain ⟨⟨buf, n⟩, hwrite, h⟩ := Go.bind_eq_ok.mp h
  obtain ⟨m', hslice, h⟩ := Go.bind_eq_ok.mp h
  obtain ⟨bytes, hsend, h⟩ := Go.bind_eq_ok.mp h
  cases h
  rw [writeAskMessage_ok hwrite] at hslice
  cases hslice
  exact ⟨rfl, length_le_of_send hsend⟩

theorem Ask.request_eq_ok {reqID : RequestID} {ask : Ask} {m : Bytes}
    (h : ask.request C reqID = .ok m) :
    m = (ask.content C reqID).bytes ∧ (ask.content C reqID).Fits := by
  have hsend : m = (ask.content C reqID).bytes ∧ m.length ≤ maxMessageLen := by
    cases ask with
    | findAddr prefixBytes nbits => exact sendRequest_eq_ok h
    | lookupPublicKey target => exact sendRequest_eq_ok h
  obtain ⟨rfl, hlength⟩ := hsend
  exact ⟨rfl, fits_ask ask reqID hlength⟩

theorem writeAskMessage_of_le {dst body : Bytes} (reqID : RequestID) (mtype : MessageType)
    (h : 4 + 16 + body.length ≤ dst.length) :
    ∃ buf n, writeAskMessage dst reqID mtype body = .ok (buf, n) ∧
      slice buf 0 n = .ok (Content.ask mtype reqID body).bytes := by
  have hwrite := writeAskMessage_eq reqID mtype h
  exact ⟨_, _, hwrite, writeAskMessage_ok hwrite⟩

theorem sendRequest_of_le {reqID : RequestID} {mtype : MessageType} {J : JsonCodec α} {req : α}
    (h : 4 + 16 + (J.marshal req).length ≤ maxMessageLen) :
    sendRequest reqID mtype J req = .ok (Content.ask mtype reqID (J.marshal req)).bytes := by
  obtain ⟨buf, n, hwrite, hslice⟩ := writeAskMessage_of_le reqID mtype
    (show 4 + 16 + (J.marshal req).length ≤ (List.replicate maxMessageLen 0).length by
      rwa [List.length_replicate])
  have hsend := send_eq (show (Content.ask mtype reqID (J.marshal req)).bytes.length ≤
    maxMessageLen by
      simpa only [Content.bytes, List.length_append, length_typeBytes, length_reqID] using h)
  simp only [sendRequest, writeRequest, hwrite, Go.ok_bind, hslice, hsend, Go.pure_eq_ok]

theorem Ask.request_of_fits {reqID : RequestID} {ask : Ask}
    (h : (ask.content C reqID).Fits) :
    ask.request C reqID = .ok (ask.content C reqID).bytes := by
  cases ask with
  | findAddr prefixBytes nbits => exact sendRequest_of_le h.2
  | lookupPublicKey target => exact sendRequest_of_le h.2

/-! ## Answering a request -/

theorem respond_of_handleAsk {node : Node P} {m r : Bytes}
    {resBuf : List.Vector UInt8 maxFrameLen} (h : respond C node m resBuf = .ok r) :
    r = [] ∨ ∃ buf n, handleAsk C node m resBuf.toList = .ok (buf, n) ∧
      slice buf 0 n = .ok r := by
  unfold respond at h
  split at h
  · next buf n hhandle => exact Or.inr ⟨buf, n, hhandle, h⟩
  · refine Or.inl ?_
    rw [slice_eq_ok le_rfl (Nat.zero_le _)] at h
    cases h
    simp
  · cases h

theorem respond_of_error {node : Node P} {m : Bytes} {resBuf : List.Vector UInt8 maxFrameLen}
    {text : String} (h : handleAsk C node m resBuf.toList = .error (.error text)) :
    respond C node m resBuf = .ok [] := by
  simp only [respond, h]
  rw [slice_eq_ok le_rfl (Nat.zero_le _)]
  rfl

/-- A message that was written to the buffer and is not too long is sent. -/
theorem respond_of_write {node : Node P} {m body : Bytes} {reqID : RequestID}
    {mtype : MessageType} {resBuf : List.Vector UInt8 maxFrameLen}
    (h : handleAsk C node m resBuf.toList = writeAskMessage resBuf.toList reqID mtype body)
    (hbody : 4 + 16 + body.length ≤ maxMessageLen) :
    respond C node m resBuf = .ok (Content.ask mtype reqID body).bytes := by
  have hle : 4 + 16 + body.length ≤ resBuf.toList.length := by
    rw [List.Vector.toList_length]
    unfold maxFrameLen
    omega
  obtain ⟨buf, n, hwrite, hslice⟩ := writeAskMessage_of_le reqID mtype hle
  rw [respond, h, hwrite]
  exact hslice

def Result.response (result : Result Addr) : Response FindAddrRes :=
  match result.err with
  | some err => ⟨.zero, err⟩
  | none => ⟨⟨result.value⟩, ""⟩

def Result.keyResponse (result : Result (PublicKey P)) : Go (Response LookupPublicKeyRes) :=
  match result.err with
  | some err => .ok ⟨.zero, err⟩
  | none => do
      let data ← marshalPublicKey [] result.value
      return ⟨⟨data⟩, ""⟩

/-- An error with a text is told apart from every success. -/
theorem Result.eq_of_response {result : Result Addr} (hempty : result.err ≠ some "")
    (h : result.response.error = "") : result = ⟨result.response.success.addr, none⟩ := by
  cases result with
  | mk value err =>
      cases err with
      | some err =>
          have herr : err = "" := h
          rw [herr] at hempty
          exact absurd rfl hempty
      | none => rfl

theorem handleAsk_of_findAddrReq {node : Node P} {m : Bytes} {reqID : RequestID}
    {req : FindAddrReq} (htype : getType m = .ok mtFindAddr) (hid : getRequestID m = .ok reqID)
    (hreq : findAddrReq C m = .ok req) (resBuf : Bytes) :
    handleAsk C node m resBuf =
      writeAskMessage resBuf reqID mtFindAddr
        (C.findAddrRes.marshal (node.findAddr req.prefixBytes req.nbits).response) := by
  simp only [handleAsk, htype, hid, hreq, Go.ok_bind, if_true]
  cases h : (node.findAddr req.prefixBytes req.nbits).err with
  | some err => simp only [writeError, Result.response, h]
  | none => simp only [writeSuccess, Result.response, h]

theorem handleAsk_of_lookupPublicKeyReq {node : Node P} {m : Bytes} {reqID : RequestID}
    {req : LookupPublicKeyReq} (htype : getType m = .ok mtPublicKey)
    (hid : getRequestID m = .ok reqID) (hreq : lookupPublicKeyReq C m = .ok req)
    (resBuf : Bytes) :
    handleAsk C node m resBuf = (node.lookupPublicKey req.target).keyResponse >>= fun res =>
      writeAskMessage resBuf reqID mtPublicKey (C.lookupPublicKeyRes.marshal res) := by
  have hother : mtPublicKey ≠ mtFindAddr := by decide
  simp only [handleAsk, htype, hid, hreq, Go.ok_bind, if_neg hother, if_true]
  cases h : (node.lookupPublicKey req.target).err with
  | some err => simp only [writeError, Result.keyResponse, h, Go.ok_bind]
  | none =>
      simp only [writeSuccess, Result.keyResponse, h]
      cases marshalPublicKey [] (node.lookupPublicKey req.target).value <;> rfl

theorem handleAsk_findAddr (node : Node P) (reqID : RequestID) (prefixBytes : Bytes)
    (nbits : Int) (resBuf : Bytes) :
    handleAsk C node (Ask.content C reqID (.findAddr prefixBytes nbits)).bytes resBuf =
      writeAskMessage resBuf reqID mtFindAddr
        (C.findAddrRes.marshal (node.findAddr prefixBytes nbits).response) := by
  obtain ⟨htype, hid, -⟩ := (Ask.content C reqID (.findAddr prefixBytes nbits)).readBack_bytes
  exact handleAsk_of_findAddrReq htype hid (parseJSON_ask C.findAddrReq _ _ _) resBuf

theorem handleAsk_lookupPublicKey (node : Node P) (reqID : RequestID) (target : Addr)
    (resBuf : Bytes) :
    handleAsk C node (Ask.content C reqID (.lookupPublicKey target)).bytes resBuf =
      (node.lookupPublicKey target).keyResponse >>= fun res =>
        writeAskMessage resBuf reqID mtPublicKey (C.lookupPublicKeyRes.marshal res) := by
  obtain ⟨htype, hid, -⟩ := (Ask.content C reqID (.lookupPublicKey target)).readBack_bytes
  exact handleAsk_of_lookupPublicKeyReq htype hid (parseJSON_ask C.lookupPublicKeyReq _ _ _)
    resBuf

theorem respond_findAddr_of_fits {node : Node P} {reqID : RequestID} {prefixBytes : Bytes}
    {nbits : Int} (resBuf : List.Vector UInt8 maxFrameLen)
    (h : (Content.ask mtFindAddr reqID (C.findAddrRes.marshal
      (node.findAddr prefixBytes nbits).response)).Fits) :
    respond C node (Ask.content C reqID (.findAddr prefixBytes nbits)).bytes resBuf =
      .ok (Content.ask mtFindAddr reqID (C.findAddrRes.marshal
        (node.findAddr prefixBytes nbits).response)).bytes :=
  respond_of_write (handleAsk_findAddr node reqID prefixBytes nbits _) h.2

/-- A response to `FindAddr` is read as success only for an address the node returned. -/
theorem respond_findAddr {node : Node P} {reqID : RequestID} {prefixBytes r : Bytes}
    {nbits : Int} {resBuf : List.Vector UInt8 maxFrameLen}
    (hempty : (node.findAddr prefixBytes nbits).err ≠ some "")
    (h : respond C node (Ask.content C reqID (.findAddr prefixBytes nbits)).bytes resBuf =
      .ok r) :
    r = [] ∨ ∃ res : Response FindAddrRes,
      r = (Content.ask mtFindAddr reqID (C.findAddrRes.marshal res)).bytes ∧
      (res.error = "" → node.findAddr prefixBytes nbits = ⟨res.success.addr, none⟩) := by
  refine (respond_of_handleAsk h).imp_right ?_
  rintro ⟨buf, n, hhandle, hslice⟩
  rw [handleAsk_findAddr] at hhandle
  rw [writeAskMessage_ok hhandle] at hslice
  cases hslice
  exact ⟨_, rfl, Result.eq_of_response hempty⟩

/-- The zero value in an error's envelope is not the encoding of a public key. -/
theorem parsePublicKey_nil (key : PublicKey P) : parsePublicKey [] ≠ .ok key := by
  intro h
  obtain ⟨tag, htag, -⟩ := Go.bind_eq_ok.mp h
  cases htag

/-- A key is read from a response only if the node returned it. -/
theorem Result.eq_of_keyResponse (laws : LawfulKeys P) {result : Result (PublicKey P)}
    {res : Response LookupPublicKeyRes} {key : PublicKey P} (h : result.keyResponse = .ok res)
    (hparse : parsePublicKey res.success.publicKey = .ok key) : result = ⟨key, none⟩ := by
  cases result with
  | mk value err =>
      cases err with
      | some err =>
          cases h
          exact absurd hparse (parsePublicKey_nil key)
      | none =>
          obtain ⟨data, hdata, h⟩ := Go.bind_eq_ok.mp h
          cases h
          rw [parsePublicKey_marshalPublicKey laws hdata] at hparse
          cases hparse
          rfl

theorem respond_lookupPublicKey (laws : LawfulKeys P) {node : Node P} {reqID : RequestID}
    {target : Addr} {r : Bytes} {resBuf : List.Vector UInt8 maxFrameLen}
    (h : respond C node (Ask.content C reqID (.lookupPublicKey target)).bytes resBuf = .ok r) :
    r = [] ∨ ∃ res : Response LookupPublicKeyRes,
      r = (Content.ask mtPublicKey reqID (C.lookupPublicKeyRes.marshal res)).bytes ∧
      ∀ key, res.error = "" → parsePublicKey res.success.publicKey = .ok key →
        node.lookupPublicKey target = ⟨key, none⟩ := by
  refine (respond_of_handleAsk h).imp_right ?_
  rintro ⟨buf, n, hhandle, hslice⟩
  rw [handleAsk_lookupPublicKey] at hhandle
  obtain ⟨res, hres, hwrite⟩ := Go.bind_eq_ok.mp hhandle
  rw [writeAskMessage_ok hwrite] at hslice
  cases hslice
  exact ⟨res, rfl, fun key _ hparse => Result.eq_of_keyResponse laws hres hparse⟩

/-! ### Concrete codecs -/

def unary (n : Nat) (rest : Bytes) : Bytes := List.replicate n 0 ++ 1 :: rest

def readUnary (data : Bytes) : Nat × Bytes :=
  let n := (data.takeWhile (· == 0)).length
  (n, data.drop (n + 1))

theorem readUnary_unary (n : Nat) (rest : Bytes) : readUnary (unary n rest) = (n, rest) := by
  have hdrop : (List.replicate n (0 : UInt8) ++ 1 :: rest).drop (n + 1) = rest := by
    simp [List.drop_append]
  simp [readUnary, unary, hdrop]

def textBytes (text : String) : Bytes := text.toByteArray.data.toList

def readText (data : Bytes) : Go String :=
  match String.fromUTF8? ⟨data.toArray⟩ with
  | some text => .ok text
  | none => fail "invalid UTF-8"

theorem readText_textBytes (text : String) : readText (textBytes text) = .ok text := by
  have hvalid := Json.bytesString_stringBytes text
  rw [Json.bytesString, Json.stringBytes] at hvalid
  rw [readText, textBytes, hvalid]

/-- Lengths in unary, addresses as they are, an error's text at the end. -/
def sampleCodecs : Codecs where
  findAddrReq := {
    marshal := fun req =>
      match req.nbits with
      | .ofNat n => 0 :: unary n req.prefixBytes
      | .negSucc n => 1 :: unary n req.prefixBytes
    unmarshal := fun data =>
      let (n, prefixBytes) := readUnary data.tail
      .ok ⟨prefixBytes, if data.head? = some 0 then .ofNat n else .negSucc n⟩
    unmarshal_marshal := by
      rintro ⟨prefixBytes, n | n⟩ <;> simp [readUnary_unary] }
  findAddrRes := {
    marshal := fun res => res.success.addr.toList ++ textBytes res.error
    unmarshal := fun data => do
      let error ← readText (data.drop 32)
      return ⟨⟨copyTo 32 (data.take 32)⟩, error⟩
    unmarshal_marshal := by
      rintro ⟨⟨addr⟩, error⟩
      have hlength := length_addr addr
      have htake : (addr.toList ++ textBytes error).take 32 = addr.toList :=
        List.take_left' hlength
      have hdrop : (addr.toList ++ textBytes error).drop 32 = textBytes error :=
        List.drop_left' hlength
      simp [htake, hdrop, readText_textBytes] }
  lookupPublicKeyReq := {
    marshal := fun req => req.target.toList
    unmarshal := fun data => .ok ⟨copyTo 32 data⟩
    unmarshal_marshal := by simp }
  lookupPublicKeyRes := {
    marshal := fun res =>
      unary res.success.publicKey.length (res.success.publicKey ++ textBytes res.error)
    unmarshal := fun data => do
      let (n, rest) := readUnary data
      let error ← readText (rest.drop n)
      return ⟨⟨rest.take n⟩, error⟩
    unmarshal_marshal := by
      rintro ⟨⟨publicKey⟩, error⟩
      simp [readUnary_unary, readText_textBytes] }

end Inet256.Ipc
