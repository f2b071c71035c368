import Inet256.Foundation.Json

/-!
# JSON values

A value is the structure of its text, with its numbers and strings as they are
written.  How texts are read and how strings are escaped is left to an encoding;
what it keeps of a string depends on whether the string is text.
-/

namespace Inet256.Foundation.Json

inductive Value where
  | null
  | boolean (truth : Bool)
  | number (literal : Bytes)
  | string (literal : Bytes)
  | array (items : List Value)
  | object (fields : List (Bytes × Value))

mutual

/-- The text without space between its parts. -/
def Value.print : Value → Bytes
  | .null => stringBytes "null"
  | .boolean truth => stringBytes (if truth then "true" else "false")
  | .number literal => literal
  | .string literal => quoteMark :: (literal ++ [quoteMark])
  | .array items => openBracket :: (printItems items ++ [closeBracket])
  | .object fields => openBrace :: (printFields fields ++ [closeBrace])

def printItems : List Value → Bytes
  | [] => []
  | [item] => item.print
  | item :: items => item.print ++ comma :: printItems items

def printFields : List (Bytes × Value) → Bytes
  | [] => []
  | [(name, value)] => quoteMark :: (name ++ quoteMark :: colon :: value.print)
  | (name, value) :: fields =>
      quoteMark :: (name ++ quoteMark :: colon :: value.print) ++ comma :: printFields fields

end

/-- Valid UTF-8. -/
def isText (data : GoString) : Bool := (bytesString data).isSome

@[simp] theorem isText_stringBytes (text : String) : isText (stringBytes text) = true := by
  simp [isText, bytesString_stringBytes]

theorem flatMap_utf8EncodeChar {data : Bytes} (h : ∀ byte ∈ data, byte < 128) :
    (data.map fun byte => Char.ofNat byte.toNat).flatMap String.utf8EncodeChar = data := by
  induction data with
  | nil => rfl
  | cons byte data ih =>
      have hbyte : byte.toNat < 128 := by
        simpa [UInt8.lt_iff_toNat_lt] using h byte (by simp)
      have hvalid : byte.toNat.isValidChar := Or.inl (by omega)
      have hval : (Char.ofNat byte.toNat).val.toNat = byte.toNat := by
        rw [Char.ofNat, dif_pos hvalid]
        rfl
      have hsize : (Char.ofNat byte.toNat).utf8Size = 1 := by
        rw [Char.utf8Size_eq_one_iff, UInt32.le_iff_toNat_le, hval]
        exact Nat.le_of_lt_succ hbyte
      have hback : (Char.ofNat byte.toNat).val.toUInt8 = byte := by
        apply UInt8.toNat_inj.mp
        rw [UInt32.toNat_toUInt8, hval]
        omega
      rw [List.map_cons, List.flatMap_cons, String.utf8EncodeChar_eq_singleton hsize, hback,
        ih fun other hother => h other (by simp [hother])]
      rfl

theorem isText_of_ascii {data : GoString} (h : ∀ byte ∈ data, byte < 128) :
    isText data = true := by
  have hdata : data =
      stringBytes (String.ofList (data.map fun byte => Char.ofNat byte.toNat)) := by
    rw [stringBytes, String.toByteArray_ofList, List.utf8Encode, List.toList_data_toByteArray,
      flatMap_utf8EncodeChar h]
  rw [hdata, isText_stringBytes]

theorem isText_writeBytes (data : Bytes) : isText (writeBytes data) = true := by
  have hletters : ∀ letter ∈ alphabet.letters, letter < 128 := by decide +kernel
  have hpadding : padding < 128 := by decide
  apply isText_of_ascii
  intro byte hbyte
  rcases List.mem_append.mp hbyte with hbyte | hbyte
  · exact hletters byte (Base64.mem_letters_of_mem_encode alphabet hbyte)
  · rw [List.eq_of_mem_replicate hbyte]
    exact hpadding

/-! ## Encodings -/

/-- `parse` gives the value of a valid text, its literals as the encoder writes them. -/
structure Encoding where
  parse : Bytes → Option Value
  quote : GoString → Bytes
  unquote : Bytes → Option GoString
  print_ne_nil : ∀ text value, parse text = some value → value.print ≠ []
  unquote_quote : ∀ text, ∃ coerced, unquote (quote text) = some coerced ∧
    isText coerced = true ∧ (isText text = true → coerced = text)

namespace Encoding

variable (E : Encoding)

/-- What is read back of a string. -/
def coerce (text : GoString) : GoString := (E.unquote (E.quote text)).getD []

theorem unquote_quote_eq (text : GoString) : E.unquote (E.quote text) = some (E.coerce text) := by
  obtain ⟨coerced, hread, -⟩ := E.unquote_quote text
  simp [coerce, hread]

theorem coerce_eq_iff {text : GoString} : E.coerce text = text ↔ isText text = true := by
  obtain ⟨coerced, hread, hcoerced, hsame⟩ := E.unquote_quote text
  have heq : E.coerce text = coerced := by simp [coerce, hread]
  rw [heq]
  constructor
  · intro h
    rwa [h] at hcoerced
  · exact hsame

@[simp] theorem coerce_stringBytes (text : String) :
    E.coerce (stringBytes text) = stringBytes text :=
  E.coerce_eq_iff.mpr (isText_stringBytes text)

/-! Strings, bytes and pointers.  A null leaves the variable as it is, which is the zero value. -/

def marshalString (text : GoString) : Value := .string (E.quote text)

def unmarshalString : Value → Option GoString
  | .string literal => E.unquote literal
  | .null => some []
  | _ => none

@[simp] theorem unmarshalString_marshalString (text : GoString) :
    E.unmarshalString (E.marshalString text) = some (E.coerce text) :=
  E.unquote_quote_eq text

def marshalBytes (data : Bytes) : Value := E.marshalString (writeBytes data)

def unmarshalBytes (value : Value) : Option Bytes := do
  let text ← E.unmarshalString value
  (readBytes text).toOption

@[simp] theorem unmarshalBytes_marshalBytes (data : Bytes) :
    E.unmarshalBytes (E.marshalBytes data) = some data := by
  have htext : E.coerce (writeBytes data) = writeBytes data :=
    E.coerce_eq_iff.mpr (isText_writeBytes data)
  simp [unmarshalBytes, marshalBytes, htext, readBytes_writeBytes, Except.toOption]

def unmarshalPointer {α : Type} (read : Value → Option α) : Value → Option (Option α)
  | .null => some none
  | value => (read value).map some

/-! Raw messages are copied into the text, and out of it.  A nil message is written as null. -/

def marshalRaw (message : Bytes) : Option Value :=
  if message = [] then some .null else E.parse message

def unmarshalRaw (value : Value) : Bytes := value.print

def compact (message : Bytes) : Option Bytes := (E.parse message).map Value.print

/-- What is read back of a message that can be written. -/
def resent (message : Bytes) : Bytes := unmarshalRaw ((E.marshalRaw message).getD .null)

theorem resent_ne_nil (message : Bytes) : E.resent message ≠ [] := by
  have hnull : Value.print .null ≠ [] := by decide +kernel
  rw [resent, unmarshalRaw, marshalRaw]
  split
  · exact hnull
  · cases hparse : E.parse message with
    | none => exact hnull
    | some value => exact E.print_ne_nil message value hparse

theorem resent_eq_iff {message : Bytes} (h : (E.marshalRaw message).isSome = true) :
    E.resent message = message ↔ E.compact message = some message := by
  by_cases hnil : message = []
  · have hparse : E.compact message ≠ some message := by
      intro hcompact
      obtain ⟨value, hvalue, hprint⟩ := Option.map_eq_some_iff.mp hcompact
      exact E.print_ne_nil message value hvalue (hprint.trans hnil)
    have hresent : E.resent message ≠ message := by
      rw [hnil]
      exact E.resent_ne_nil []
    simp [hparse, hresent]
  · rw [marshalRaw, if_neg hnil] at h
    obtain ⟨value, hvalue⟩ := Option.isSome_iff_exists.mp h
    simp [resent, unmarshalRaw, marshalRaw, hnil, compact, hvalue]

/-! Structs, field by field.  A field without a value is one that is omitted. -/

def fields : List (String × Option Value) → List (Bytes × Value)
  | [] => []
  | (_, none) :: rest => fields rest
  | (name, some value) :: rest => (E.quote (stringBytes name), value) :: fields rest

def unmarshalStruct {α : Type} (set : Bytes → Value → α → Option α) (zero : α) :
    Value → Option α
  | .object fields => fields.foldlM (fun made (name, value) => set name value made) zero
  | .null => some zero
  | _ => none

def isField (name : String) (literal : Bytes) : Bool := E.unquote literal == some (stringBytes name)

/-- A pointer that is omitted if it is nil. -/
def marshalOptional {α : Type} (write : α → Option Value) : Option α → Option (Option Value)
  | none => some none
  | some target => (write target).map some

/-- A field whose zero value is nil. -/
def unmarshalOptional {α : Type} (read : Value → Option (Option α)) :
    Option Value → Option (Option α)
  | none => some none
  | some value => read value

@[simp] theorem isField_quote (name other : String) :
    E.isField name (E.quote (stringBytes other)) = decide (other = name) := by
  have hinj : stringBytes other = stringBytes name ↔ other = name := by
    constructor
    · intro h
      have htext := congrArg bytesString h
      rw [bytesString_stringBytes, bytesString_stringBytes] at htext
      exact Option.some.inj htext
    · exact congrArg stringBytes
  rw [isField, E.unquote_quote_eq, coerce_stringBytes]
  by_cases hname : other = name
  · simp [hname]
  · simp [hname, hinj]

end Encoding

end Inet256.Foundation.Json
