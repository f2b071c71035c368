import Inet256.Foundation.Base64
import Inet256.Foundation.Runtime

/-!
# JSON strings, arrays of strings and objects of bytes

Strings in double quotes, with quotes and backslashes escaped, arrays of them,
and objects with one field that holds bytes.  Readers take their value from the
front of a text and return what follows.
-/

namespace Inet256.Foundation.Json

def quoteMark : UInt8 := 34

def backslash : UInt8 := 92

def escape (text : Bytes) : Bytes :=
  text.flatMap fun byte =>
    if byte = quoteMark ∨ byte = backslash then [backslash, byte] else [byte]

def writeString (text : Bytes) : Bytes := quoteMark :: (escape text ++ [quoteMark])

/-- The text up to the closing quote mark. -/
def readEscaped : Bytes → Option (Bytes × Bytes)
  | [] => none
  | byte :: rest =>
      if byte = quoteMark then some ([], rest)
      else if byte = backslash then
        match rest with
        | [] => none
        | escaped :: rest => (readEscaped rest).map fun (text, rest) => (escaped :: text, rest)
      else (readEscaped rest).map fun (text, rest) => (byte :: text, rest)

def readString : Bytes → Option (Bytes × Bytes)
  | [] => none
  | byte :: rest => if byte = quoteMark then readEscaped rest else none

theorem escape_cons (byte : UInt8) (text : Bytes) :
    escape (byte :: text) =
      (if byte = quoteMark ∨ byte = backslash then [backslash, byte] else [byte]) ++
        escape text := by
  simp [escape]

theorem readEscaped_escape (text rest : Bytes) :
    readEscaped (escape text ++ quoteMark :: rest) = some (text, rest) := by
  induction text with
  | nil =>
      rw [readEscaped.eq_def]
      simp [escape]
  | cons byte text ih =>
      have hmarks : backslash ≠ quoteMark := by decide
      rw [escape_cons]
      by_cases hspecial : byte = quoteMark ∨ byte = backslash
      · simp [hspecial, readEscaped, hmarks, ih]
      · obtain ⟨hquote, hslash⟩ := not_or.mp hspecial
        rw [if_neg hspecial, List.cons_append, List.nil_append, List.cons_append,
          readEscaped.eq_def]
        simp [hquote, hslash, ih]

theorem readString_writeString (text rest : Bytes) :
    readString (writeString text ++ rest) = some (text, rest) := by
  simp [writeString, readString, readEscaped_escape]

/-! ## Text -/

def stringBytes (text : String) : Bytes := text.toByteArray.data.toList

def bytesString (data : Bytes) : Option String := String.fromUTF8? ⟨data.toArray⟩

theorem bytesString_stringBytes (text : String) : bytesString (stringBytes text) = some text := by
  rw [bytesString, stringBytes, Array.toArray_toList, String.fromUTF8?, dif_pos text.isValidUTF8]
  rfl

theorem stringBytes_of_bytesString {data : Bytes} {text : String}
    (h : bytesString data = some text) : stringBytes text = data := by
  rw [bytesString, String.fromUTF8?] at h
  split at h
  · cases h
    rfl
  · cases h

/-! ## Arrays -/

def comma : UInt8 := 44

def openBracket : UInt8 := 91

def closeBracket : UInt8 := 93

/-- Every element behind a comma, then the closing bracket. -/
def writeElements (texts : List Bytes) : Bytes :=
  texts.flatMap (fun text => comma :: writeString text) ++ [closeBracket]

def writeArray : List Bytes → Bytes
  | [] => [openBracket, closeBracket]
  | text :: texts => openBracket :: (writeString text ++ writeElements texts)

def readElements : Nat → Bytes → Option (List Bytes)
  | 0, _ => none
  | _, [] => none
  | fuel + 1, byte :: rest =>
      if byte = closeBracket then some []
      else if byte = comma then do
        let (text, rest) ← readString rest
        let texts ← readElements fuel rest
        return text :: texts
      else none

def readArray : Bytes → Option (List Bytes)
  | [] => none
  | byte :: rest =>
      if byte ≠ openBracket then none
      else if rest = [closeBracket] then some []
      else do
        let (text, rest) ← readString rest
        let texts ← readElements (rest.length + 1) rest
        return text :: texts

theorem readElements_writeElements (texts : List Bytes) {fuel : Nat} (h : texts.length < fuel) :
    readElements fuel (writeElements texts) = some texts := by
  induction texts generalizing fuel with
  | nil =>
      cases fuel with
      | zero => simp at h
      | succ fuel => simp [writeElements, readElements]
  | cons text texts ih =>
      cases fuel with
      | zero => simp at h
      | succ fuel =>
          have hsplit : writeElements (text :: texts) =
              comma :: (writeString text ++ writeElements texts) := by
            simp [writeElements]
          have hmarks : comma ≠ closeBracket := by decide
          rw [hsplit]
          simp [readElements, hmarks, readString_writeString, ih (Nat.lt_of_succ_lt_succ h)]

theorem readArray_writeArray (texts : List Bytes) : readArray (writeArray texts) = some texts := by
  cases texts with
  | nil => simp [writeArray, readArray]
  | cons text texts =>
      have hnot : writeString text ++ writeElements texts ≠ [closeBracket] := by
        intro h
        cases h
      have hfuel : texts.length < (writeElements texts).length + 1 := by
        have hle : texts.length ≤ (texts.flatMap fun text => comma :: writeString text).length := by
          induction texts with
          | nil => simp
          | cons text texts ih =>
              simp
              omega
        simp [writeElements]
        omega
      simp [writeArray, readArray, hnot, readString_writeString,
        readElements_writeElements texts hfuel]

/-! ## Codecs -/

def array (n : Nat) : JsonCodec (List.Vector UInt8 n) where
  marshal value := writeString value.toList
  unmarshal data :=
    match readString data with
    | some (text, []) => if h : text.length = n then .ok ⟨text, h⟩ else fail "wrong length"
    | _ => fail "invalid string"
  unmarshal_marshal value := by
    have hread : readString (writeString value.toList) = some (value.toList, []) := by
      simpa using readString_writeString value.toList []
    simp only [hread, List.Vector.toList_length, dite_true]
    rfl

/-! ## Bytes -/

def alphabet : Base64.Alphabet where
  letters := stringBytes
    "ABCDEFGHIJKLMNOPQRSTUVWXYZabcdefghijklmnopqrstuvwxyz0123456789+/"
  length_eq := by decide +kernel
  nodup := by decide +kernel
  not_newline := by decide +kernel

def padding : UInt8 := 61

def writeBytes (data : Bytes) : Bytes :=
  Base64.encode alphabet data ++ List.replicate ((3 - data.length % 3) % 3) padding

def readBytes (text : Bytes) : Go Bytes :=
  Base64.decode alphabet text.length (text.takeWhile (· != padding))

theorem readBytes_writeBytes (data : Bytes) : readBytes (writeBytes data) = .ok data := by
  have hletters : ∀ letter ∈ Base64.encode alphabet data, (letter != padding) = true := by
    intro letter hletter
    have hmem := Base64.mem_letters_of_mem_encode alphabet hletter
    have hall : ∀ letter ∈ alphabet.letters, (letter != padding) = true := by decide +kernel
    exact hall letter hmem
  have htake : (writeBytes data).takeWhile (· != padding) = Base64.encode alphabet data := by
    rw [writeBytes, List.takeWhile_append_of_pos hletters]
    simp
  have hroom : data.length ≤ (writeBytes data).length := by
    have hencode := Base64.length_le_encode alphabet data
    simp only [writeBytes, List.length_append]
    omega
  rw [readBytes, htake, Base64.decode_encode alphabet hroom]

theorem length_writeBytes (data : Bytes) :
    (writeBytes data).length = 4 * ((data.length + 2) / 3) := by
  rw [writeBytes, List.length_append, Base64.length_encode, List.length_replicate]
  omega

def openBrace : UInt8 := 123

def closeBrace : UInt8 := 125

def colon : UInt8 := 58

def writeField (name content : Bytes) : Bytes :=
  openBrace :: (writeString name ++ colon :: (writeString content ++ [closeBrace]))

/-- The field's string, from an object that has no other. -/
def readField (name : Bytes) : Bytes → Option Bytes
  | [] => none
  | first :: text => do
      let (found, rest) ← readString text
      let mark ← rest.head?
      let (content, last) ← readString rest.tail
      if first = openBrace ∧ found = name ∧ mark = colon ∧ last = [closeBrace] then
        some content
      else none

theorem readField_writeField (name content : Bytes) :
    readField name (writeField name content) = some content := by
  simp [writeField, readField, readString_writeString]

/-- An object whose only field holds bytes, in base64. -/
def bytesObject {α : Type} (name : String) (make : Bytes → α) (field : α → Bytes)
    (make_field : ∀ value, make (field value) = value) : JsonCodec α where
  marshal value := writeField (stringBytes name) (writeBytes (field value))
  unmarshal text :=
    match readField (stringBytes name) text with
    | none => fail "invalid JSON"
    | some content => do
        let data ← readBytes content
        return make data
  unmarshal_marshal value := by
    simp [readField_writeField, readBytes_writeBytes, make_field]

end Inet256.Foundation.Json
