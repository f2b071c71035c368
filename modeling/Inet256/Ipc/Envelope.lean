import Inet256.Foundation.JsonText
import Inet256.Ipc.Ask
import Inet256.Pki.AddrText

/-!
# The envelope of responses

A response is a JSON object with the result under `ok` and the error's text
under `error`.  An empty text is omitted, as an empty key is; the result itself
is a struct and never omitted.  The reader has only the text to tell an error
from a success.
-/

namespace Inet256.Ipc

open Inet256.Foundation
open Inet256.Foundation.Json (Encoding TextEncoding Value Written stringBytes bytesString)
open Inet256.Addr (Stored storeAddr AddrStruct)

variable {α : Type}

/-! ## Results -/

/-- How the encoder writes a type of results, and the decoder stores it in a variable. -/
structure ResultCodec (E : Encoding) (α : Type) where
  zero : α
  marshal : α → Value
  store : Stored α → Value → Go (Stored α)
  written : ∀ x, Written E (marshal x)
  store_marshal : ∀ x, store ⟨zero, none⟩ (marshal x) = .ok ⟨x, none⟩

section Results

variable (E : Encoding)

/-- The address is an array and is not omitted; it has a text of its own. -/
def FindAddrRes.marshal (res : FindAddrRes) : Value :=
  .object (E.fields [("addr", some (E.marshalString (Addr.marshalText res.addr)))])

def FindAddrRes.struct : AddrStruct FindAddrRes where
  isAddr := E.isField "addr"
  addr res := res.addr
  setAddr a _ := ⟨a⟩
  setOther _ _ s := .ok s
  other_returns _ _ s := returns_ok s

def LookupPublicKeyRes.marshal (res : LookupPublicKeyRes) : Value :=
  .object (E.fields
    [("public_key", if res.publicKey = [] then none else some (E.marshalBytes res.publicKey))])

def LookupPublicKeyRes.setField (s : Stored LookupPublicKeyRes) (field : Bytes × Value) :
    Go (Stored LookupPublicKeyRes) :=
  if E.isField "public_key" field.1 then
    match E.unmarshalBytes field.2 with
    | none => .ok s.mismatch
    | some data => .ok { s with value := ⟨data⟩ }
  else .ok s

def LookupPublicKeyRes.store (s : Stored LookupPublicKeyRes) :
    Value → Go (Stored LookupPublicKeyRes)
  | .object fields => fields.foldlM (LookupPublicKeyRes.setField E) s
  | .null => .ok s
  | _ => .ok s.mismatch

theorem isText_marshalText (a : Addr) : Json.isText (Addr.marshalText a) = true := by
  have hletters : ∀ letter ∈ Addr.base64Alphabet.letters, letter < 128 := by decide +kernel
  apply Json.isText_of_ascii
  intro byte hbyte
  exact hletters byte (Base64.mem_letters_of_mem_encode Addr.base64Alphabet hbyte)

theorem FindAddrRes.written (res : FindAddrRes) : Written E (res.marshal E) := by
  apply Written.fields
  intro field hfield value hvalue
  rw [List.mem_singleton.1 hfield] at hvalue
  cases hvalue
  exact .string _

theorem FindAddrRes.store_marshal (res : FindAddrRes) :
    (FindAddrRes.struct E).store E ⟨.zero, none⟩ (res.marshal E) = .ok ⟨res, none⟩ := by
  have hname : (FindAddrRes.struct E).isAddr (E.quote (stringBytes "addr")) = true := by
    simp [FindAddrRes.struct]
  have htext : E.unquote (E.quote (Addr.marshalText res.addr)) =
      some (Addr.marshalText res.addr) := by
    rw [E.unquote_quote_eq, E.coerce_eq_iff.2 (isText_marshalText res.addr)]
  have haddr : Addr.unmarshalText (Addr.marshalText res.addr) = .ok res.addr :=
    Addr.parseAddrBase64_marshalText res.addr
  simp only [FindAddrRes.marshal, Encoding.fields, Encoding.marshalString, AddrStruct.store,
    List.foldlM_cons, List.foldlM_nil, AddrStruct.setField, if_pos hname, storeAddr, htext, haddr,
    Go.ok_bind, Go.pure_eq_ok]
  rfl

theorem LookupPublicKeyRes.written (res : LookupPublicKeyRes) : Written E (res.marshal E) := by
  apply Written.fields
  intro field hfield value hvalue
  rw [List.mem_singleton.1 hfield] at hvalue
  dsimp only at hvalue
  split at hvalue
  · cases hvalue
  · cases hvalue
    exact .string _

theorem LookupPublicKeyRes.store_marshal (res : LookupPublicKeyRes) :
    LookupPublicKeyRes.store E ⟨.zero, none⟩ (res.marshal E) = .ok ⟨res, none⟩ := by
  obtain ⟨publicKey⟩ := res
  by_cases hempty : publicKey = []
  · subst hempty
    rfl
  · simp [LookupPublicKeyRes.marshal, hempty, Encoding.fields, LookupPublicKeyRes.store,
      LookupPublicKeyRes.setField]

def FindAddrRes.codec : ResultCodec E FindAddrRes where
  zero := .zero
  marshal := FindAddrRes.marshal E
  store := (FindAddrRes.struct E).store E
  written := FindAddrRes.written E
  store_marshal := FindAddrRes.store_marshal E

def LookupPublicKeyRes.codec : ResultCodec E LookupPublicKeyRes where
  zero := .zero
  marshal := LookupPublicKeyRes.marshal E
  store := LookupPublicKeyRes.store E
  written := LookupPublicKeyRes.written E
  store_marshal := LookupPublicKeyRes.store_marshal E

end Results

/-! ## Responses -/

namespace Response

variable {E : Encoding} (R : ResultCodec E α)

def marshal (res : Response α) : Value :=
  .object (E.fields
    [("ok", some (R.marshal res.success)),
     ("error", if res.error = "" then none else some (E.marshalString (stringBytes res.error)))])

/-- A string field; what is read of it is text. -/
def storeString (E : Encoding) (s : Stored String) : Value → Stored String
  | .null => s
  | .string literal =>
      match (E.unquote literal).bind bytesString with
      | none => s.mismatch
      | some text => { s with value := text }
  | _ => s.mismatch

def setField (s : Stored (Response α)) (field : Bytes × Value) : Go (Stored (Response α)) :=
  if E.isField "ok" field.1 then do
    let stored ← R.store ⟨s.value.success, s.typeError⟩ field.2
    return ⟨{ s.value with success := stored.value }, stored.typeError⟩
  else if E.isField "error" field.1 then
    let stored := storeString E ⟨s.value.error, s.typeError⟩ field.2
    .ok ⟨{ s.value with error := stored.value }, stored.typeError⟩
  else .ok s

def store (s : Stored (Response α)) : Value → Go (Stored (Response α))
  | .object fields => fields.foldlM (setField R) s
  | .null => .ok s
  | _ => .ok s.mismatch

theorem storeString_marshalString (s : Stored String) (text : String) :
    storeString E s (E.marshalString (stringBytes text)) = { s with value := text } := by
  simp [storeString, Encoding.marshalString, E.unquote_quote_eq, Json.bytesString_stringBytes]

theorem written (res : Response α) : Written E (marshal R res) := by
  apply Written.fields
  intro field hfield value hvalue
  rcases List.mem_cons.1 hfield with rfl | hfield
  · cases hvalue
    exact R.written res.success
  · rw [List.mem_singleton.1 hfield] at hvalue
    dsimp only at hvalue
    split at hvalue
    · cases hvalue
    · cases hvalue
      exact .string _

theorem store_marshal (res : Response α) :
    store R ⟨⟨R.zero, ""⟩, none⟩ (marshal R res) = .ok ⟨res, none⟩ := by
  have hok : setField R ⟨⟨R.zero, ""⟩, none⟩ (E.quote (stringBytes "ok"), R.marshal res.success) =
      .ok ⟨⟨res.success, ""⟩, none⟩ := by
    simp [setField, R.store_marshal]
  obtain ⟨success, error⟩ := res
  by_cases hempty : error = ""
  · subst hempty
    simp [marshal, Encoding.fields, store, hok]
  · have herror : setField R ⟨⟨success, ""⟩, none⟩
        (E.quote (stringBytes "error"), E.marshalString (stringBytes error)) =
          .ok ⟨⟨success, error⟩, none⟩ := by
      simp [setField, storeString_marshalString]
    simp [marshal, hempty, Encoding.fields, store, hok, herror]

end Response

/-- `json.Unmarshal`: a value of the wrong type is reported when all is read. -/
def unmarshalResponse (E : TextEncoding) (R : ResultCodec E.toEncoding α) (text : Bytes) :
    Go (Response α) :=
  match E.parse text with
  | none => fail "invalid JSON"
  | some value => do
      let s ← Response.store R ⟨⟨R.zero, ""⟩, none⟩ value
      match s.typeError with
      | some err => fail err
      | none => return s.value

theorem unmarshalResponse_print (E : TextEncoding) (R : ResultCodec E.toEncoding α)
    (res : Response α) : unmarshalResponse E R (Response.marshal R res).print = .ok res := by
  rw [unmarshalResponse, E.parse_print _ (Response.written R res)]
  dsimp only
  rw [Response.store_marshal]
  rfl

def responseCodec (E : TextEncoding) (R : ResultCodec E.toEncoding α) :
    JsonCodec (Response α) where
  marshal res := (Response.marshal R res).print
  unmarshal := unmarshalResponse E R
  unmarshal_marshal := unmarshalResponse_print E R

/-- The codecs with responses in their envelopes. -/
def enveloped (E : TextEncoding) (C : Codecs) : Codecs :=
  { C with
    findAddrRes := responseCodec E (FindAddrRes.codec E.toEncoding)
    lookupPublicKeyRes := responseCodec E (LookupPublicKeyRes.codec E.toEncoding) }

/-! ## Success and failure -/

/-- Whatever the writer puts into the buffer is read with the given outcome. -/
def ReadAs (written : Go (Bytes × Nat)) (read : Bytes → Go α) (outcome : Go α) : Prop :=
  ∀ buf n, written = .ok (buf, n) → ∃ m, slice buf 0 n = .ok m ∧ read m = outcome

structure KeepsKind (C : Codecs) (err : String) : Prop where
  findAddr : ∀ dst reqID mtype x,
    ReadAs (writeSuccess dst reqID mtype C.findAddrRes x) (findAddrRes C) (.ok x)
  findAddrError : ∀ dst reqID mtype,
    ReadAs (writeError dst reqID mtype C.findAddrRes .zero err) (findAddrRes C) (fail err)
  lookupPublicKey : ∀ dst reqID mtype x,
    ReadAs (writeSuccess dst reqID mtype C.lookupPublicKeyRes x) (lookupPublicKeyRes C) (.ok x)
  lookupPublicKeyError : ∀ dst reqID mtype,
    ReadAs (writeError dst reqID mtype C.lookupPublicKeyRes .zero err) (lookupPublicKeyRes C)
      (fail err)

section Readers

variable (J : JsonCodec (Response α)) (reqID : RequestID) (mtype : MessageType)

theorem readAs_response (dst : Bytes) (res : Response α) :
    ReadAs (writeAskMessage dst reqID mtype (J.marshal res)) (readResponse J)
      (if res.error ≠ "" then fail res.error else .ok res.success) := by
  intro buf n hwrite
  exact ⟨_, writeAskMessage_ok hwrite, readResponse_ask J mtype reqID res⟩

theorem readAs_writeSuccess (dst : Bytes) (x : α) :
    ReadAs (writeSuccess dst reqID mtype J x) (readResponse J) (.ok x) := by
  have h := readAs_response J reqID mtype dst ⟨x, ""⟩
  rwa [if_neg (by simp)] at h

theorem readAs_writeError (dst : Bytes) (zero : α) {err : String} (herr : err ≠ "") :
    ReadAs (writeError dst reqID mtype J zero err) (readResponse J) (fail err) := by
  have h := readAs_response J reqID mtype dst ⟨zero, err⟩
  rwa [if_pos herr] at h

/-- An error without text is a success to the reader. -/
theorem writeError_empty (zero : α) :
    ∃ dst buf n m, writeError dst reqID mtype J zero "" = .ok (buf, n) ∧
      slice buf 0 n = .ok m ∧ readResponse J m = .ok zero := by
  obtain ⟨buf, n, hwrite, hslice⟩ := writeAskMessage_of_le reqID mtype
    (show 4 + 16 + (J.marshal ⟨zero, ""⟩).length ≤
      (List.replicate (4 + 16 + (J.marshal ⟨zero, ""⟩).length) 0).length by
        rw [List.length_replicate])
  refine ⟨_, buf, n, _, hwrite, hslice, ?_⟩
  rw [readResponse_ask, if_neg (by simp)]

end Readers

theorem not_keepsKind_empty (C : Codecs) : ¬ KeepsKind C "" := by
  intro h
  obtain ⟨dst, buf, n, m, hwrite, hslice, hread⟩ :=
    writeError_empty C.findAddrRes (copyTo 16 []) mtFindAddr .zero
  obtain ⟨m', hslice', hread'⟩ := h.findAddrError dst (copyTo 16 []) mtFindAddr buf n hwrite
  rw [hslice] at hslice'
  cases hslice'
  rw [findAddrRes, hread] at hread'
  cases hread'

/-- Results and errors are read as such exactly if the error has a text. -/
theorem keeps_kind_iff (E : TextEncoding) (C : Codecs) (err : String) :
    KeepsKind (enveloped E C) err ↔ err ≠ "" := by
  constructor
  · rintro h rfl
    exact not_keepsKind_empty _ h
  · intro herr
    exact ⟨fun dst reqID mtype x => readAs_writeSuccess _ reqID mtype dst x,
      fun dst reqID mtype => readAs_writeError _ reqID mtype dst _ herr,
      fun dst reqID mtype x => readAs_writeSuccess _ reqID mtype dst x,
      fun dst reqID mtype => readAs_writeError _ reqID mtype dst _ herr⟩

/-- The error whose text is empty comes back as the address of zeros, and as an empty key. -/
theorem empty_error_succeeds :
    let C := enveloped Json.compactEncoding sampleCodecs
    (∃ dst buf n m, writeError dst (copyTo 16 []) mtFindAddr C.findAddrRes .zero "" =
        .ok (buf, n) ∧ slice buf 0 n = .ok m ∧ findAddrRes C m = .ok .zero) ∧
      (∃ dst buf n m, writeError dst (copyTo 16 []) mtPublicKey C.lookupPublicKeyRes .zero "" =
        .ok (buf, n) ∧ slice buf 0 n = .ok m ∧ lookupPublicKeyRes C m = .ok .zero) ∧
      ¬ KeepsKind C "" := by
  intro C
  exact ⟨writeError_empty C.findAddrRes (copyTo 16 []) mtFindAddr .zero,
    writeError_empty C.lookupPublicKeyRes (copyTo 16 []) mtPublicKey .zero,
    not_keepsKind_empty C⟩

end Inet256.Ipc
