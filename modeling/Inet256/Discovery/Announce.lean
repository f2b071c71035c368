import Inet256.Foundation.Json
import Inet256.Foundation.Protobuf

/-!
# Announcements on the wire

The `Announce` message of the central discovery service.  Its decoder takes the
fields in any order, the last of repeated scalar ones, and keeps the fields it
does not know; its encoder writes every message in one way.
-/

namespace Inet256.Discovery

open Inet256.Foundation
open Inet256.Foundation.Json
open Inet256.Foundation.Protobuf

structure Announce where
  endpoints : List String := []
  tai64 : Bytes := []
  ttlSeconds : Int64 := 0
  unknown : List Field := []
  deriving DecidableEq

namespace Announce

def isEndpoint (field : Field) : Prop := field.number = 1 ∧ field.type = .bytes

def isTai64 (field : Field) : Prop := field.number = 2 ∧ field.type = .bytes

def isTtlSeconds (field : Field) : Prop := field.number = 3 ∧ field.type = .varint

instance (field : Field) : Decidable (isEndpoint field) :=
  inferInstanceAs (Decidable (_ ∧ _))

instance (field : Field) : Decidable (isTai64 field) :=
  inferInstanceAs (Decidable (_ ∧ _))

instance (field : Field) : Decidable (isTtlSeconds field) :=
  inferInstanceAs (Decidable (_ ∧ _))

def setField (x : Announce) (field : Field) : Option Announce :=
  if isEndpoint field then do
    let content ← field.content
    let endpoint ← bytesString content
    return { x with endpoints := x.endpoints ++ [endpoint] }
  else if isTai64 field then do
    let content ← field.content
    return { x with tai64 := content }
  else if isTtlSeconds field then do
    let value ← field.value
    return { x with ttlSeconds := value.toInt64 }
  else some { x with unknown := x.unknown ++ [field] }

def unmarshal (data : Bytes) : Go Announce :=
  match (fieldsOf data).bind fun fields => fields.foldlM setField {} with
  | some x => .ok x
  | none => fail "proto: cannot parse invalid wire-format data"

/-- The fields in the order they are written; the default value of a scalar is not. -/
def fields (x : Announce) : List Field :=
  x.endpoints.map (fun endpoint => bytesField 1 (stringBytes endpoint)) ++
    ((if x.tai64 = [] then [] else [bytesField 2 x.tai64]) ++
      ((if x.ttlSeconds = 0 then [] else [varintField 3 x.ttlSeconds.toUInt64]) ++ x.unknown))

def marshal (x : Announce) : Bytes := x.fields.flatMap writeField

/-! ## What was decoded is encoded and decoded again -/

/-- What the decoder can return. -/
structure Decoded (x : Announce) : Prop where
  endpoints : ∀ endpoint ∈ x.endpoints, (stringBytes endpoint).length < 2 ^ 64
  tai64 : x.tai64.length < 2 ^ 64
  unknown : ∀ field ∈ x.unknown,
    field.Valid ∧ ¬ isEndpoint field ∧ ¬ isTai64 field ∧ ¬ isTtlSeconds field

theorem Decoded.setField {x x' : Announce} {field : Field} (hx : Decoded x)
    (hvalid : field.Valid) (h : x.setField field = some x') : Decoded x' := by
  unfold Announce.setField at h
  split at h
  · simp only [Option.bind_eq_bind, Option.bind_eq_some_iff] at h
    obtain ⟨content, hcontent, endpoint, htext, h⟩ := h
    cases h
    refine ⟨?_, hx.tai64, hx.unknown⟩
    have hlength := length_lt_of_content hcontent
    rw [← stringBytes_of_bytesString htext] at hlength
    simpa [or_imp, forall_and] using ⟨hx.endpoints, hlength⟩
  · split at h
    · simp only [Option.bind_eq_bind, Option.bind_eq_some_iff] at h
      obtain ⟨content, hcontent, h⟩ := h
      cases h
      exact ⟨hx.endpoints, length_lt_of_content hcontent, hx.unknown⟩
    · split at h
      · simp only [Option.bind_eq_bind, Option.bind_eq_some_iff] at h
        obtain ⟨value, -, h⟩ := h
        cases h
        exact ⟨hx.endpoints, hx.tai64, hx.unknown⟩
      · next hendpoint htai64 httl =>
          cases h
          refine ⟨hx.endpoints, hx.tai64, ?_⟩
          intro other hother
          rcases List.mem_append.mp hother with hother | hother
          · exact hx.unknown other hother
          · obtain rfl := List.mem_singleton.mp hother
            exact ⟨hvalid, hendpoint, htai64, httl⟩

theorem Decoded.foldlM {fields : List Field} (hvalid : ∀ field ∈ fields, field.Valid)
    {x x' : Announce} (hx : Decoded x) (h : fields.foldlM Announce.setField x = some x') :
    Decoded x' := by
  induction fields generalizing x with
  | nil =>
      cases h
      exact hx
  | cons field fields ih =>
      simp only [List.foldlM_cons, Option.bind_eq_bind, Option.bind_eq_some_iff] at h
      obtain ⟨next, hnext, hrest⟩ := h
      exact ih (fun other hother => hvalid other (by simp [hother]))
        (hx.setField (hvalid field (by simp)) hnext) hrest

theorem unmarshal_eq_ok {data : Bytes} {x : Announce} :
    unmarshal data = .ok x ↔
      ∃ fields, fieldsOf data = some fields ∧ fields.foldlM setField {} = some x := by
  unfold unmarshal
  rw [← Option.bind_eq_some_iff]
  split
  · next other h => simp [h]
  · next h => simp [h, fail]

theorem decoded_of_unmarshal {data : Bytes} {x : Announce} (h : unmarshal data = .ok x) :
    Decoded x := by
  obtain ⟨fields, hfields, hfold⟩ := unmarshal_eq_ok.mp h
  exact Decoded.foldlM (valid_of_readFields hfields) ⟨by simp, by simp, by simp⟩ hfold

theorem Decoded.valid_fields {x : Announce} (hx : Decoded x) :
    ∀ field ∈ x.fields, field.Valid := by
  intro field hfield
  simp only [fields, List.mem_append, List.mem_map] at hfield
  rcases hfield with ⟨endpoint, hendpoint, rfl⟩ | hfield | hfield | hfield
  · exact valid_bytesField (by decide) (by decide) (hx.endpoints endpoint hendpoint)
  · split at hfield
    · cases hfield
    · obtain rfl := List.mem_singleton.mp hfield
      exact valid_bytesField (by decide) (by decide) hx.tai64
  · split at hfield
    · cases hfield
    · obtain rfl := List.mem_singleton.mp hfield
      exact valid_varintField (by decide) (by decide) _
  · exact (hx.unknown field hfield).1

theorem foldlM_endpoints {endpoints : List String}
    (h : ∀ endpoint ∈ endpoints, (stringBytes endpoint).length < 2 ^ 64) (x : Announce) :
    (endpoints.map fun endpoint => bytesField 1 (stringBytes endpoint)).foldlM setField x =
      some { x with endpoints := x.endpoints ++ endpoints } := by
  induction endpoints generalizing x with
  | nil => simp
  | cons endpoint endpoints ih =>
      have hset : x.setField (bytesField 1 (stringBytes endpoint)) =
          some { x with endpoints := x.endpoints ++ [endpoint] } := by
        have hkind : isEndpoint (bytesField 1 (stringBytes endpoint)) := ⟨rfl, rfl⟩
        simp [setField, hkind, content_bytesField 1 (h endpoint (by simp)),
          bytesString_stringBytes]
      have hrest := ih fun other hother => h other (by simp [hother])
      simp [List.foldlM_cons, hset, hrest]

theorem foldlM_unknown {unknown : List Field} (h : ∀ field ∈ unknown,
      ¬ isEndpoint field ∧ ¬ isTai64 field ∧ ¬ isTtlSeconds field) (x : Announce) :
    unknown.foldlM setField x = some { x with unknown := x.unknown ++ unknown } := by
  induction unknown generalizing x with
  | nil => simp
  | cons field unknown ih =>
      obtain ⟨hendpoint, htai64, httl⟩ := h field (by simp)
      have hrest := ih fun other hother => h other (by simp [hother])
      simp [List.foldlM_cons, setField, hendpoint, htai64, httl, hrest]

theorem setField_tai64 (x : Announce) {tai64 : Bytes} (h : tai64.length < 2 ^ 64) :
    x.setField (bytesField 2 tai64) = some { x with tai64 := tai64 } := by
  have hkind : isTai64 (bytesField 2 tai64) := ⟨rfl, rfl⟩
  have hother : ¬ isEndpoint (bytesField 2 tai64) := by simp [isEndpoint, bytesField]
  simp [setField, hkind, hother, content_bytesField 2 h]

theorem setField_ttlSeconds (x : Announce) (ttlSeconds : Int64) :
    x.setField (varintField 3 ttlSeconds.toUInt64) = some { x with ttlSeconds := ttlSeconds } := by
  have hkind : isTtlSeconds (varintField 3 ttlSeconds.toUInt64) := ⟨rfl, rfl⟩
  have hendpoint : ¬ isEndpoint (varintField 3 ttlSeconds.toUInt64) := by
    simp [isEndpoint, varintField]
  have htai64 : ¬ isTai64 (varintField 3 ttlSeconds.toUInt64) := by simp [isTai64, varintField]
  simp [setField, hkind, hendpoint, htai64, value_varintField]

theorem Decoded.foldlM_fields {x : Announce} (hx : Decoded x) :
    x.fields.foldlM Announce.setField {} = some x := by
  have hunknown := foldlM_unknown fun field hfield => (hx.unknown field hfield).2
  rw [fields, List.foldlM_append, foldlM_endpoints hx.endpoints]
  cases x with
  | mk endpoints tai64 ttlSeconds unknown =>
      by_cases htai64 : tai64 = []
      · by_cases httl : ttlSeconds = 0
        · simp_all
        · simp_all [List.foldlM_cons, setField_ttlSeconds]
      · by_cases httl : ttlSeconds = 0
        · simp_all [List.foldlM_cons, setField_tai64 _ hx.tai64]
        · simp_all [List.foldlM_cons, setField_tai64 _ hx.tai64, setField_ttlSeconds]

def codec : ProtoCodec Announce where
  marshal := marshal
  unmarshal := unmarshal
  unmarshal_marshal h := by
    have hx := decoded_of_unmarshal h
    exact unmarshal_eq_ok.mpr ⟨_, fieldsOf_flatMap hx.valid_fields, hx.foldlM_fields⟩

end Announce

end Inet256.Discovery
