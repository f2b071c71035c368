import Inet256.Foundation.Runtime

/-!
# The protobuf wire format

Varints, tags and length-delimited values, and a message as a sequence of
fields.  Readers take their value from the front of the data and return what
follows.  A field keeps its value as it stands on the wire, since a field that
a message does not know is written back as it was read.  Groups are refused.
-/

namespace Inet256.Foundation

/-- Marshalling at one type of message; what was unmarshalled can be marshalled again. -/
structure ProtoCodec (α : Type) where
  marshal : α → Bytes
  unmarshal : Bytes → Go α
  unmarshal_marshal : ∀ {data value}, unmarshal data = .ok value →
    unmarshal (marshal value) = .ok value

/-- The one encoding that is marshalled for some message. -/
def ProtoCodec.Canonical {α : Type} (codec : ProtoCodec α) (data : Bytes) : Prop :=
  ∃ source value, codec.unmarshal source = .ok value ∧ data = codec.marshal value

theorem ProtoCodec.marshal_eq_iff {α : Type} (codec : ProtoCodec α) {data : Bytes} {value : α}
    (h : codec.unmarshal data = .ok value) :
    codec.marshal value = data ↔ codec.Canonical data := by
  constructor
  · intro hmarshal
    exact ⟨data, value, h, hmarshal.symm⟩
  · rintro ⟨source, other, hsource, rfl⟩
    rw [codec.unmarshal_marshal hsource] at h
    cases h
    rfl

namespace Protobuf

variable {α : Type}

abbrev Reader (α : Type) := Bytes → Option (α × Bytes)

/-- The reader takes exactly these bytes, whatever follows them. -/
def Takes (read : Reader α) (front : Bytes) (value : α) : Prop :=
  ∀ rest, read (front ++ rest) = some (value, rest)

/-- Whatever is read was taken from the front of the data. -/
def Local (read : Reader α) : Prop :=
  ∀ data value rest, read data = some (value, rest) →
    ∃ front, data = front ++ rest ∧ Takes read front value

/-! ## Varints -/

/-- Groups of seven bits, the lowest first; `more` groups may follow the first. -/
def writeDigits : Nat → Nat → Bytes
  | 0, value => [UInt8.ofNat value]
  | more + 1, value =>
      if value < 128 then [UInt8.ofNat value]
      else UInt8.ofNat (value % 128 + 128) :: writeDigits more (value / 128)

def readDigits : Nat → Reader Nat
  | _, [] => none
  | 0, byte :: rest => if byte.toNat < 2 then some (byte.toNat, rest) else none
  | more + 1, byte :: rest =>
      if byte.toNat < 128 then some (byte.toNat, rest)
      else (readDigits more rest).map fun (value, rest) => (byte.toNat - 128 + 128 * value, rest)

theorem takes_writeDigits {more value : Nat} (h : value < 2 ^ (7 * more + 1)) :
    Takes (readDigits more) (writeDigits more value) value := by
  intro rest
  induction more generalizing value with
  | zero =>
      have hsmall : value < 2 := by simpa using h
      have hmod : value % 256 = value := by omega
      simp [writeDigits, readDigits, hmod, hsmall]
  | succ more ih =>
      rw [writeDigits]
      split
      · next hsmall =>
          have hmod : value % 256 = value := by omega
          simp [readDigits, hmod, hsmall]
      · have hdigit : (value % 128 + 128) % 256 = value % 128 + 128 := by omega
        have hquotient : value / 128 < 2 ^ (7 * more + 1) := by
          have hpow : 2 ^ (7 * (more + 1) + 1) = 128 * 2 ^ (7 * more + 1) := by
            rw [show 7 * (more + 1) + 1 = 7 + (7 * more + 1) by omega, pow_add]
            simp
          omega
        have hvalue : value % 128 + 128 * (value / 128) = value := by omega
        simp [readDigits, hdigit, ih hquotient, hvalue]

theorem local_readDigits (more : Nat) : Local (readDigits more) := by
  intro data value rest h
  induction more generalizing data value with
  | zero =>
      cases data with
      | nil => simp [readDigits] at h
      | cons byte data =>
          simp only [readDigits] at h
          split at h
          · next hlast =>
              cases h
              exact ⟨[byte], rfl, fun rest => by simp [readDigits, hlast]⟩
          · cases h
  | succ more ih =>
      cases data with
      | nil => simp [readDigits] at h
      | cons byte data =>
          simp only [readDigits] at h
          split at h
          · next hlast =>
              cases h
              exact ⟨[byte], rfl, fun rest => by simp [readDigits, hlast]⟩
          · next hmore =>
              simp only [Option.map_eq_some_iff, Prod.exists, Prod.mk.injEq] at h
              obtain ⟨high, _, hread, rfl, rfl⟩ := h
              obtain ⟨front, rfl, htakes⟩ := ih _ _ hread
              refine ⟨byte :: front, rfl, fun rest => ?_⟩
              simp [readDigits, hmore, htakes rest]

def writeVarint (value : UInt64) : Bytes := writeDigits 9 value.toNat

def readVarint : Reader UInt64 := fun data =>
  (readDigits 9 data).map fun (value, rest) => (UInt64.ofNat value, rest)

theorem takes_writeVarint (value : UInt64) : Takes readVarint (writeVarint value) value := by
  intro rest
  have hdigits : readDigits 9 (writeDigits 9 value.toNat ++ rest) = some (value.toNat, rest) :=
    takes_writeDigits value.toNat_lt rest
  simp [readVarint, writeVarint, hdigits]

theorem local_readVarint : Local readVarint := by
  intro data value rest h
  simp only [readVarint, Option.map_eq_some_iff, Prod.exists, Prod.mk.injEq] at h
  obtain ⟨digits, _, hread, rfl, rfl⟩ := h
  obtain ⟨front, rfl, htakes⟩ := local_readDigits 9 _ _ _ hread
  exact ⟨front, rfl, fun rest => by simp [readVarint, htakes rest]⟩

/-! ## Lengths -/

def readRaw (n : Nat) : Reader Bytes := fun data =>
  if n ≤ data.length then some (data.take n, data.drop n) else none

theorem takes_raw (content : Bytes) : Takes (readRaw content.length) content content := by
  intro rest
  simp [readRaw]

theorem readRaw_eq_some {n : Nat} {data content rest : Bytes}
    (h : readRaw n data = some (content, rest)) : data = content ++ rest ∧ content.length = n := by
  simp only [readRaw] at h
  split at h
  · next hle =>
      cases h
      exact ⟨(List.take_append_drop n data).symm, List.length_take_of_le hle⟩
  · cases h

theorem local_readRaw (n : Nat) : Local (readRaw n) := by
  intro data content rest h
  obtain ⟨rfl, rfl⟩ := readRaw_eq_some h
  exact ⟨content, rfl, takes_raw content⟩

def writeBytes (content : Bytes) : Bytes :=
  writeVarint (UInt64.ofNat content.length) ++ content

def readBytes : Reader Bytes := fun data => do
  let (length, rest) ← readVarint data
  readRaw length.toNat rest

theorem takes_writeBytes {content : Bytes} (h : content.length < 2 ^ 64) :
    Takes readBytes (writeBytes content) content := by
  intro rest
  have hlength : (UInt64.ofNat content.length).toNat = content.length :=
    UInt64.toNat_ofNat_of_lt' h
  simp [readBytes, writeBytes, takes_writeVarint _ _, hlength, takes_raw content rest]

theorem readBytes_cases {data content rest : Bytes} (h : readBytes data = some (content, rest)) :
    ∃ front, data = front ++ content ++ rest ∧ content.length < 2 ^ 64 ∧
      Takes readBytes (front ++ content) content := by
  simp only [readBytes, Option.bind_eq_bind, Option.bind_eq_some_iff, Prod.exists] at h
  obtain ⟨length, middle, hread, hraw⟩ := h
  obtain ⟨front, rfl, htakes⟩ := local_readVarint _ _ _ hread
  obtain ⟨rfl, hlength⟩ := readRaw_eq_some hraw
  refine ⟨front, by simp, hlength ▸ length.toNat_lt, fun rest => ?_⟩
  have hcontent : readRaw length.toNat (content ++ rest) = some (content, rest) :=
    hlength ▸ takes_raw content rest
  simp [readBytes, htakes _, hcontent]

theorem local_readBytes : Local readBytes := by
  intro data content rest h
  obtain ⟨front, rfl, -, htakes⟩ := readBytes_cases h
  exact ⟨front ++ content, rfl, htakes⟩

/-! ## Fields -/

inductive WireType where
  | varint
  | fixed64
  | bytes
  | fixed32
  deriving DecidableEq

namespace WireType

def code : WireType → Nat
  | .varint => 0
  | .fixed64 => 1
  | .bytes => 2
  | .fixed32 => 5

def ofCode : Nat → Option WireType
  | 0 => some .varint
  | 1 => some .fixed64
  | 2 => some .bytes
  | 5 => some .fixed32
  | _ => none

/-- What follows a value of the wire type. -/
def skip : WireType → Bytes → Option Bytes
  | .varint, data => (readVarint data).map Prod.snd
  | .fixed64, data => (readRaw 8 data).map Prod.snd
  | .bytes, data => (readBytes data).map Prod.snd
  | .fixed32, data => (readRaw 4 data).map Prod.snd

end WireType

structure Field where
  number : Nat
  type : WireType
  /-- The value as it stands on the wire. -/
  payload : Bytes
  deriving DecidableEq

def writeField (field : Field) : Bytes :=
  writeVarint (UInt64.ofNat (8 * field.number + field.type.code)) ++ field.payload

def readField : Reader Field := fun data => do
  let (tag, rest) ← readVarint data
  let number := tag.toNat / 8
  let type ← WireType.ofCode (tag.toNat % 8)
  if 1 ≤ number ∧ number < 2 ^ 29 then
    let after ← type.skip rest
    some (⟨number, type, rest.take (rest.length - after.length)⟩, after)
  else none

def readFields : Nat → Bytes → Option (List Field)
  | _, [] => some []
  | 0, _ :: _ => none
  | fuel + 1, byte :: data => do
      let (field, rest) ← readField (byte :: data)
      let fields ← readFields fuel rest
      return field :: fields

def fieldsOf (data : Bytes) : Option (List Field) := readFields data.length data

theorem WireType.ofCode_code (type : WireType) : WireType.ofCode type.code = some type := by
  cases type <;> rfl

theorem WireType.skip_eq_some {type : WireType} {data rest : Bytes}
    (h : type.skip data = some rest) :
    ∃ front, data = front ++ rest ∧ ∀ rest, type.skip (front ++ rest) = some rest := by
  have hlocal : ∀ {α : Type} {read : Reader α}, Local read →
      (read data).map Prod.snd = some rest →
      ∃ front, data = front ++ rest ∧ ∀ rest, (read (front ++ rest)).map Prod.snd = some rest := by
    intro α read hread h
    obtain ⟨⟨value, _⟩, hsome, rfl⟩ := Option.map_eq_some_iff.mp h
    obtain ⟨front, hdata, htakes⟩ := hread _ _ _ hsome
    exact ⟨front, hdata, fun rest => by rw [htakes rest]; rfl⟩
  cases type with
  | varint => exact hlocal local_readVarint h
  | fixed64 => exact hlocal (local_readRaw _) h
  | bytes => exact hlocal local_readBytes h
  | fixed32 => exact hlocal (local_readRaw _) h

/-- The number is one a message may use and the payload is a value of the wire type. -/
structure Field.Valid (field : Field) : Prop where
  number_pos : 1 ≤ field.number
  number_lt : field.number < 2 ^ 29
  payload : ∀ rest, field.type.skip (field.payload ++ rest) = some rest

theorem Field.Valid.takes {field : Field} (h : field.Valid) :
    Takes readField (writeField field) field := by
  intro rest
  have hcode : field.type.code < 8 := by cases field.type <;> decide
  have hnumber_lt := h.number_lt
  have htag : (8 * field.number + field.type.code) % 2 ^ 64 =
      8 * field.number + field.type.code := by
    omega
  have hnumber : (8 * field.number + field.type.code) / 8 = field.number := by omega
  have htype : (8 * field.number + field.type.code) % 8 = field.type.code := by omega
  simp only [readField, writeField, List.append_assoc, takes_writeVarint _ _,
    UInt64.toNat_ofNat', htag, hnumber, htype, WireType.ofCode_code, h.payload rest,
    Option.bind_eq_bind, Option.bind_some, h.number_pos, hnumber_lt, and_self, if_true]
  simp

theorem valid_of_readField {data rest : Bytes} {field : Field}
    (h : readField data = some (field, rest)) : field.Valid := by
  simp only [readField, Option.bind_eq_bind, Option.ite_none_right_eq_some,
    Option.bind_eq_some_iff, Prod.exists, Option.some.injEq, Prod.mk.injEq] at h
  obtain ⟨tag, middle, -, type, -, hnumber, after, hskip, rfl, rfl⟩ := h
  obtain ⟨payload, rfl, htakes⟩ := WireType.skip_eq_some hskip
  refine ⟨hnumber.1, hnumber.2, ?_⟩
  simpa using htakes

theorem length_writeField_pos (field : Field) : 0 < (writeField field).length := by
  have hdigits : ∀ value, 0 < (writeDigits 9 value).length := by
    intro value
    rw [writeDigits]
    split <;> simp
  have := hdigits (UInt64.ofNat (8 * field.number + field.type.code)).toNat
  simp only [writeField, writeVarint, List.length_append]
  omega

theorem readFields_of_valid {fields : List Field} (h : ∀ field ∈ fields, field.Valid)
    {fuel : Nat} (hfuel : fields.length ≤ fuel) :
    readFields fuel (fields.flatMap writeField) = some fields := by
  induction fields generalizing fuel with
  | nil => cases fuel <;> rfl
  | cons field fields ih =>
      cases fuel with
      | zero => simp at hfuel
      | succ fuel =>
          have htakes := (h field (by simp)).takes (fields.flatMap writeField)
          have hrest := ih (fun other hother => h other (by simp [hother]))
            (Nat.le_of_succ_le_succ hfuel)
          have hpos := length_writeField_pos field
          rw [List.flatMap_cons]
          cases hdata : writeField field ++ fields.flatMap writeField with
          | nil =>
              have := congrArg List.length hdata
              simp only [List.length_append, List.length_nil] at this
              omega
          | cons byte data =>
              rw [hdata] at htakes
              simp [readFields, htakes, hrest]

/-- A message that is written field by field is read field by field. -/
theorem fieldsOf_flatMap {fields : List Field} (h : ∀ field ∈ fields, field.Valid) :
    fieldsOf (fields.flatMap writeField) = some fields := by
  apply readFields_of_valid h
  induction fields with
  | nil => simp
  | cons field fields ih =>
      have hrest := ih fun other hother => h other (by simp [hother])
      have hpos := length_writeField_pos field
      simp only [List.flatMap_cons, List.length_append, List.length_cons]
      omega

theorem valid_of_readFields {fuel : Nat} {data : Bytes} {fields : List Field}
    (h : readFields fuel data = some fields) : ∀ field ∈ fields, field.Valid := by
  induction fuel generalizing data fields with
  | zero =>
      cases data with
      | nil => simp_all [readFields]
      | cons byte data => simp [readFields] at h
  | succ fuel ih =>
      cases data with
      | nil => simp_all [readFields]
      | cons byte data =>
          simp only [readFields, Option.bind_eq_bind, Option.bind_eq_some_iff, Prod.exists] at h
          obtain ⟨field, rest, hfield, others, hothers, h⟩ := h
          cases h
          exact List.forall_mem_cons.mpr ⟨valid_of_readField hfield, ih hothers⟩

/-! ## Values of fields -/

def bytesField (number : Nat) (content : Bytes) : Field := ⟨number, .bytes, writeBytes content⟩

def varintField (number : Nat) (value : UInt64) : Field := ⟨number, .varint, writeVarint value⟩

def Field.content (field : Field) : Option Bytes := (readBytes field.payload).map Prod.fst

def Field.value (field : Field) : Option UInt64 := (readVarint field.payload).map Prod.fst

theorem Takes.whole {read : Reader α} {front : Bytes} {value : α} (h : Takes read front value) :
    read front = some (value, []) := by
  simpa using h []

theorem content_bytesField (number : Nat) {content : Bytes} (h : content.length < 2 ^ 64) :
    (bytesField number content).content = some content := by
  rw [Field.content, bytesField, (takes_writeBytes h).whole]
  rfl

theorem value_varintField (number : Nat) (value : UInt64) :
    (varintField number value).value = some value := by
  rw [Field.value, varintField, (takes_writeVarint value).whole]
  rfl

theorem length_lt_of_content {field : Field} {content : Bytes} (h : field.content = some content) :
    content.length < 2 ^ 64 := by
  obtain ⟨⟨_, rest⟩, hread, rfl⟩ := Option.map_eq_some_iff.mp h
  obtain ⟨-, -, hlength, -⟩ := readBytes_cases hread
  exact hlength

theorem valid_bytesField {number : Nat} (hpos : 1 ≤ number) (hlt : number < 2 ^ 29)
    {content : Bytes} (h : content.length < 2 ^ 64) : (bytesField number content).Valid where
  number_pos := hpos
  number_lt := hlt
  payload rest := by simp [bytesField, WireType.skip, takes_writeBytes h rest]

theorem valid_varintField {number : Nat} (hpos : 1 ≤ number) (hlt : number < 2 ^ 29)
    (value : UInt64) : (varintField number value).Valid where
  number_pos := hpos
  number_lt := hlt
  payload rest := by simp [varintField, WireType.skip, takes_writeVarint value rest]

end Protobuf

end Inet256.Foundation
