import Inet256.Foundation.Base64Order
import Inet256.Foundation.JsonValue
import Inet256.Pki.Addr

/-!
# Reading addresses from any text

An address is decoded into its array before the number of bytes is looked at.  A
text with more letters than an address has makes the decoder write behind the
array, wherever the text comes from: a path, a JSON string or the field of a
struct.  The texts that addresses are written as have their order.
-/

namespace Inet256.Addr

open Inet256.Foundation
open Inet256.Foundation.Json (Encoding Value)

def unmarshalText (x : Bytes) : Go ID := do
  let bytes ← Base64.decode base64Alphabet 32 x
  if bytes.length ≠ 32 then
    fail "too short to be INET256 address"
  else
    return idFromBytes bytes

theorem parseAddrBase64_eq : parseAddrBase64 = unmarshalText := rfl

/-! ## Text -/

/-- The text is base64 for the bytes of the address. -/
def Denotes (x : Bytes) (a : ID) : Prop := Base64.Denotes base64Alphabet x a.toList

/-- The first 44 bytes, line breaks apart, are letters: one group more than there is room for. -/
def Overruns (x : Bytes) : Prop :=
  44 ≤ (Base64.unbroken x).length ∧
    ∀ letter ∈ (Base64.unbroken x).take 44, letter ∈ base64Alphabet.letters

instance (x : Bytes) : Decidable (Overruns x) := inferInstanceAs (Decidable (_ ∧ _))

theorem returns_unmarshalText_iff {x : Bytes} : Returns (unmarshalText x) ↔ ¬ Overruns x := by
  have hdecode : Returns (Base64.decode base64Alphabet 32 x) ↔ ¬ Overruns x :=
    Base64.returns_decode_iff base64Alphabet 10
  rw [unmarshalText, returns_bind_iff, hdecode]
  refine and_iff_left ?_
  intro bytes _
  split
  · exact returns_fail _
  · exact returns_ok _

theorem unmarshalText_eq_ok_iff {x : Bytes} {a : ID} :
    unmarshalText x = .ok a ↔ Denotes x a := by
  rw [unmarshalText, Go.bind_eq_ok]
  constructor
  · rintro ⟨bytes, hdecode, h⟩
    split at h
    · cases h
    · next hlength =>
        cases h
        have hbytes : (idFromBytes bytes).toList = bytes := by
          have hexact := not_not.mp hlength
          simp [idFromBytes, copyTo, List.Vector.toList_mk, hexact]
        rw [Denotes, hbytes]
        exact ((Base64.decode_eq_ok_iff base64Alphabet).mp hdecode).1
  · intro h
    have hlength : a.toList.length = 32 := a.toList_length
    refine ⟨a.toList, (Base64.decode_eq_ok_iff base64Alphabet).mpr ⟨h, hlength.le⟩, ?_⟩
    rw [if_neg (not_not.mpr hlength), idFromBytes, copyTo_toList, Go.pure_eq_ok]

theorem base64Alphabet_increasing : base64Alphabet.Increasing := by
  unfold Base64.Alphabet.Increasing
  decide +kernel

/-- Texts have 43 letters, are read back, and are ordered as the addresses. -/
theorem text_preserves_order (a b : ID) :
    unmarshalText (marshalText a) = .ok a ∧ (marshalText a).length = 43 ∧
      (a.toList < b.toList ↔ marshalText a < marshalText b) := by
  refine ⟨parseAddrBase64_marshalText a, ?_, ?_⟩
  · rw [marshalText, Base64.length_encode, a.toList_length]
  · have hlength : a.toList.length = b.toList.length := by
      rw [a.toList_length, b.toList_length]
    exact (Base64.encode_lt_encode_iff base64Alphabet_increasing hlength).symm

/-! ## JSON -/

/-- A variable that is decoded into, and the first value that was not of its type. -/
structure Stored (α : Type) where
  value : α
  typeError : Option String

def Stored.mismatch {α : Type} (s : Stored α) : Stored α :=
  { s with typeError := s.typeError <|> some "cannot unmarshal value" }

variable (E : Encoding)

/-- A null leaves the address as it is; a mismatch is reported when the whole text is read. -/
def storeAddr (s : Stored Addr) : Value → Go (Stored Addr)
  | .null => .ok s
  | .string literal =>
      match E.unquote literal with
      | none => fail "invalid string"
      | some text => do
          let a ← unmarshalText text
          return { s with value := a }
  | _ => .ok s.mismatch

/-- A struct with an address in one of its fields, and a decoder for the others. -/
structure AddrStruct (α : Type) where
  isAddr : Bytes → Bool
  addr : α → Addr
  setAddr : Addr → α → α
  setOther : Bytes → Value → Stored α → Go (Stored α)
  other_returns : ∀ name value s, Returns (setOther name value s)

namespace AddrStruct

variable {α : Type} (S : AddrStruct α)

def setField (s : Stored α) (field : Bytes × Value) : Go (Stored α) :=
  if S.isAddr field.1 then do
    let stored ← storeAddr E ⟨S.addr s.value, s.typeError⟩ field.2
    return ⟨S.setAddr stored.value s.value, stored.typeError⟩
  else S.setOther field.1 field.2 s

def store (s : Stored α) : Value → Go (Stored α)
  | .object fields => fields.foldlM (S.setField E) s
  | .null => .ok s
  | _ => .ok s.mismatch

end AddrStruct

/-- The value is a string with too many letters. -/
def StringOverruns (value : Value) : Prop :=
  ∃ literal text, value = .string literal ∧ E.unquote literal = some text ∧ Overruns text

variable {E}

theorem returns_storeAddr_iff {s : Stored Addr} {value : Value} :
    Returns (storeAddr E s value) ↔ ¬ StringOverruns E value := by
  cases value with
  | string literal =>
      simp only [storeAddr, StringOverruns, Value.string.injEq]
      cases htext : E.unquote literal with
      | none => simp [htext]
      | some text =>
          simp only [returns_bind_iff, returns_unmarshalText_iff, Go.pure_eq_ok, returns_ok,
            implies_true, and_true]
          constructor
          · rintro h ⟨literal', text', rfl, htext', hover⟩
            rw [htext, Option.some.injEq] at htext'
            subst htext'
            exact h hover
          · exact fun h hover => h ⟨literal, text, rfl, htext, hover⟩
  | null => simp [storeAddr, StringOverruns]
  | boolean truth => simp [storeAddr, StringOverruns]
  | number literal => simp [storeAddr, StringOverruns]
  | array items => simp [storeAddr, StringOverruns]
  | object fields => simp [storeAddr, StringOverruns]

/-- A struct is decoded unless its loop comes to a string with too many letters. -/
theorem AddrStruct.returns_store_iff {α : Type} (S : AddrStruct α) {s : Stored α}
    {fields : List (Bytes × Value)} :
    Returns (S.store E s (.object fields)) ↔
      ∀ before name value after s', fields = before ++ (name, value) :: after →
        before.foldlM (S.setField E) s = .ok s' → S.isAddr name = true →
        ¬ StringOverruns E value := by
  rw [AddrStruct.store, returns_foldlM_iff]
  constructor
  · intro h before name value after s' hfields hbefore hname
    have hround := h before (name, value) after s' hfields hbefore
    rw [AddrStruct.setField, if_pos hname, returns_bind_iff] at hround
    exact returns_storeAddr_iff.mp hround.1
  · rintro h before ⟨name, value⟩ after s' hfields hbefore
    unfold AddrStruct.setField
    dsimp only
    split
    · next hname =>
        rw [returns_bind_iff]
        exact ⟨returns_storeAddr_iff.mpr (h before name value after s' hfields hbefore hname),
          by simp⟩
    · exact S.other_returns name value s'

/-! ## Total decoding -/

/--
The text is decoded to an address or an error, and to an address exactly if it
is base64 for one; so is the JSON string with the text, and every struct whose
address is given in no other string.
-/
structure DecodesTotally (x : Bytes) : Prop where
  text : Returns (unmarshalText x) ∧ ∀ a, unmarshalText x = .ok a ↔ Denotes x a
  parse : Returns (parseAddrBase64 x) ∧ ∀ a, parseAddrBase64 x = .ok a ↔ Denotes x a
  string : ∀ (E : Encoding) (literal : Bytes) (s : Stored Addr), E.unquote literal = some x →
    Returns (storeAddr E s (.string literal)) ∧
    ∀ s', storeAddr E s (.string literal) = .ok s' ↔ ∃ a, Denotes x a ∧ s' = ⟨a, s.typeError⟩
  object : ∀ (E : Encoding) (α : Type) (S : AddrStruct α) (s : Stored α) fields,
    (∀ field ∈ fields, S.isAddr field.1 = true → ∀ literal text, field.2 = .string literal →
      E.unquote literal = some text → text = x) →
    Returns (S.store E s (.object fields))

theorem storeAddr_string_eq_ok_iff {literal x : Bytes} (h : E.unquote literal = some x)
    {s s' : Stored Addr} :
    storeAddr E s (.string literal) = .ok s' ↔ ∃ a, Denotes x a ∧ s' = ⟨a, s.typeError⟩ := by
  simp only [storeAddr, h, Go.bind_eq_ok, unmarshalText_eq_ok_iff, Go.pure_eq_ok,
    Except.ok.injEq]
  exact exists_congr fun a => and_congr_right fun _ => eq_comm

/-- Decoding is total exactly on the texts that do not have a group of letters too many. -/
theorem decodes_totally_iff (x : Bytes) : DecodesTotally x ↔ ¬ Overruns x := by
  rw [← returns_unmarshalText_iff]
  constructor
  · intro h
    exact h.text.1
  · intro hreturns
    have hno : ¬ Overruns x := returns_unmarshalText_iff.mp hreturns
    refine ⟨⟨hreturns, fun _ => unmarshalText_eq_ok_iff⟩,
      ⟨hreturns, fun _ => unmarshalText_eq_ok_iff⟩, ?_, ?_⟩
    · intro E literal s hliteral
      refine ⟨returns_storeAddr_iff.mpr ?_, fun s' => storeAddr_string_eq_ok_iff hliteral⟩
      rintro ⟨literal', text, hvalue, htext, hover⟩
      cases hvalue
      rw [hliteral, Option.some.injEq] at htext
      subst htext
      exact hno hover
    · intro E α S s fields hfields
      rw [AddrStruct.returns_store_iff]
      rintro before name value after s' rfl - hname ⟨literal, text, rfl, htext, hover⟩
      have hsame := hfields (name, .string literal) (by simp) hname literal text rfl htext
      subst hsame
      exact hno hover

/-- The text of the zero address with one letter more. -/
theorem not_decodes_totally :
    unmarshalText (List.replicate 44 45) = crash "index out of range" ∧
      ¬ DecodesTotally (List.replicate 44 45) := by
  have hcrash : unmarshalText (List.replicate 44 45) = crash "index out of range" := by
    decide +kernel
  exact ⟨hcrash, fun h => h.text.1 _ hcrash⟩

end Inet256.Addr
