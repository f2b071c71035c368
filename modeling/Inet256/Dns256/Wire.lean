import Inet256.Dns256.Message
import Inet256.Foundation.JsonValue

/-!
# Requests on the wire

Requests are sent as JSON.  Elements of paths and keys are coerced to text; a
predicate's empty lists are omitted and its raw values are compacted.
`Predicate.received` is what the server has of a predicate.
-/

namespace Inet256.Dns256

open Inet256.Foundation
open Inet256.Foundation.Json (Encoding Value stringBytes)

variable (E : Encoding)

/-! ## Encoding -/

def PredicateExact.marshal (p : PredicateExact) : Option Value := do
  let value ← E.marshalRaw p.value
  return .object (E.fields [("key", some (E.marshalString p.key)), ("value", some value)])

def Predicate.marshal : Predicate → Option Value
  | .mk all any exactly hasKey => do
      let all ← marshalList all
      let any ← marshalList any
      let exactly ← Encoding.marshalOptional (PredicateExact.marshal E) exactly
      return .object (E.fields [("and", all), ("or", any), ("exact", exactly),
        ("has_key", hasKey.map E.marshalString)])
where
  -- Both lists are tagged `omitempty`.
  marshalList : Option (List Predicate) → Option (Option Value)
  | none => some none
  | some [] => some none
  | some (p :: ps) => do
      let items ← marshalItems (p :: ps)
      return some (.array items)
  marshalItems : List Predicate → Option (List Value)
  | [] => some []
  | p :: ps => do
      let item ← p.marshal
      let items ← marshalItems ps
      return item :: items

def Path.marshal (path : Path) : Value :=
  .array (path.map E.marshalString)

/-- The filter's tag has no effect on a struct. -/
def Query.marshal (q : Query) : Option Value := do
  let filter ← q.filter.marshal E
  return .object (E.fields [("path", some (Path.marshal E q.path)), ("filter", some filter)])

def RequestID.marshal (id : RequestID) : Value := E.marshalBytes id.toList

def Request.marshal (req : Request) : Option Value := do
  let query ← req.query.marshal E
  return .object (E.fields [("id", some (RequestID.marshal E req.id)), ("query", some query)])

/-! ## Decoding -/

def PredicateExact.setField (name : Bytes) (value : Value) (p : PredicateExact) :
    Option PredicateExact :=
  if E.isField "key" name then do
    let key ← E.unmarshalString value
    return { p with key }
  else if E.isField "value" name then return { p with value := Encoding.unmarshalRaw value }
  else return p

def PredicateExact.unmarshal : Value → Option PredicateExact :=
  Encoding.unmarshalStruct (PredicateExact.setField E) ⟨[], []⟩

def Predicate.zero : Predicate := .mk none none none none

mutual

def Predicate.unmarshal : Value → Option Predicate
  | .object fields => Predicate.unmarshalFields fields Predicate.zero
  | .null => some Predicate.zero
  | _ => none

def Predicate.unmarshalFields : List (Bytes × Value) → Predicate → Option Predicate
  | [], p => some p
  | (name, value) :: fields, .mk all any exactly hasKey => do
      let p ←
        if E.isField "and" name then do
          let all ← Predicate.unmarshalList value
          some (.mk all any exactly hasKey)
        else if E.isField "or" name then do
          let any ← Predicate.unmarshalList value
          some (.mk all any exactly hasKey)
        else if E.isField "exact" name then do
          let exactly ← Encoding.unmarshalPointer (PredicateExact.unmarshal E) value
          some (.mk all any exactly hasKey)
        else if E.isField "has_key" name then do
          let hasKey ← Encoding.unmarshalPointer E.unmarshalString value
          some (.mk all any exactly hasKey)
        else some (.mk all any exactly hasKey)
      Predicate.unmarshalFields fields p

def Predicate.unmarshalList : Value → Option (Option (List Predicate))
  | .array items => do
      let ps ← Predicate.unmarshalItems items
      return some ps
  | .null => some none
  | _ => none

def Predicate.unmarshalItems : List Value → Option (List Predicate)
  | [] => some []
  | item :: items => do
      let p ← Predicate.unmarshal item
      let ps ← Predicate.unmarshalItems items
      return p :: ps

end

def Path.unmarshal : Value → Option Path
  | .array items => items.mapM E.unmarshalString
  | .null => some []
  | _ => none

def Query.setField (name : Bytes) (value : Value) (q : Query) : Option Query :=
  if E.isField "path" name then do
    let path ← Path.unmarshal E value
    return { q with path }
  else if E.isField "filter" name then do
    let filter ← Predicate.unmarshal E value
    return { q with filter }
  else return q

def Query.zero : Query := ⟨[], Predicate.zero⟩

def Query.unmarshal : Value → Option Query :=
  Encoding.unmarshalStruct (Query.setField E) Query.zero

def RequestID.unmarshal (value : Value) : Option RequestID := do
  let s ← E.unmarshalBytes value
  return copyTo 16 s

def Request.setField (name : Bytes) (value : Value) (req : Request) : Option Request :=
  if E.isField "id" name then do
    let id ← RequestID.unmarshal E value
    return { req with id }
  else if E.isField "query" name then do
    let query ← Query.unmarshal E value
    return { req with query }
  else return req

def Request.zero : Request := ⟨RequestID.zero, Query.zero⟩

def Request.unmarshal : Value → Option Request :=
  Encoding.unmarshalStruct (Request.setField E) Request.zero

/-! ## What arrives -/

def PredicateExact.received (p : PredicateExact) : PredicateExact :=
  ⟨E.coerce p.key, E.resent p.value⟩

def Predicate.received : Predicate → Predicate
  | .mk all any exactly hasKey =>
      .mk (receivedList all) (receivedList any) (exactly.map (PredicateExact.received E))
        (hasKey.map E.coerce)
where
  receivedList : Option (List Predicate) → Option (List Predicate)
  | none => none
  | some [] => none
  | some (p :: ps) => some (receivedItems (p :: ps))
  receivedItems : List Predicate → List Predicate
  | [] => []
  | p :: ps => p.received :: receivedItems ps

/-- Induction over the predicates in both lists. -/
theorem Predicate.induct {motive : Predicate → Prop}
    (hmk : ∀ all any exactly hasKey, (∀ ps, all = some ps → ∀ p ∈ ps, motive p) →
      (∀ ps, any = some ps → ∀ p ∈ ps, motive p) → motive (.mk all any exactly hasKey))
    (p : Predicate) : motive p := by
  apply @Predicate.rec motive (fun list => ∀ ps, list = some ps → ∀ p ∈ ps, motive p)
    fun ps => ∀ p ∈ ps, motive p
  · intro all any exactly hasKey hall hany
    exact hmk all any exactly hasKey hall hany
  · simp
  · simp
  · simp
  · intro p ps hp hps
    simpa using ⟨hp, hps⟩

variable {E}

theorem PredicateExact.unmarshal_marshal {p : PredicateExact} {value : Value}
    (h : p.marshal E = some value) :
    PredicateExact.unmarshal E value = some (p.received E) := by
  obtain ⟨raw, hraw, hvalue⟩ := Option.bind_eq_some_iff.mp h
  cases hvalue
  have hresent : E.resent p.value = Encoding.unmarshalRaw raw := by
    simp [Encoding.resent, hraw]
  simp [PredicateExact.unmarshal, Encoding.unmarshalStruct, Encoding.fields,
    PredicateExact.setField, PredicateExact.received, hresent]

/-- One field of a predicate, omitted or not, whose variable is still nil. -/
theorem Predicate.unmarshalFields_optional {α : Type} (name : String) (set : Option α → Predicate)
    {read : Value → Option (Option α)} {value : Option Value} {result : Option α}
    (hset : ∀ value fields,
      Predicate.unmarshalFields E ((E.quote (stringBytes name), value) :: fields) (set none) =
        (read value).bind fun result => Predicate.unmarshalFields E fields (set result))
    (h : Encoding.unmarshalOptional read value = some result)
    (rest : List (String × Option Value)) :
    Predicate.unmarshalFields E (E.fields ((name, value) :: rest)) (set none) =
      Predicate.unmarshalFields E (E.fields rest) (set result) := by
  cases value with
  | none =>
      cases h
      rfl
  | some value =>
      rw [Encoding.unmarshalOptional] at h
      rw [Encoding.fields, hset, h, Option.bind_some]

/-- The predicate that arrives, if the items of its lists arrive as they should. -/
theorem Predicate.unmarshalItems_marshalItems {ps : List Predicate}
    (ih : ∀ p ∈ ps, ∀ value, p.marshal E = some value →
      Predicate.unmarshal E value = some (p.received E)) {items : List Value}
    (h : Predicate.marshal.marshalItems E ps = some items) :
    Predicate.unmarshalItems E items = some (Predicate.received.receivedItems E ps) := by
  induction ps generalizing items with
  | nil =>
      cases h
      rfl
  | cons p ps ihps =>
      obtain ⟨item, hitem, h⟩ := Option.bind_eq_some_iff.mp h
      obtain ⟨rest, hrest, h⟩ := Option.bind_eq_some_iff.mp h
      cases h
      have hp := ih p (by simp) item hitem
      have hps := ihps (fun q hq => ih q (by simp [hq])) hrest
      simp [Predicate.unmarshalItems, Predicate.received.receivedItems, hp, hps]

theorem Predicate.unmarshalList_marshalList {list : Option (List Predicate)}
    (ih : ∀ ps, list = some ps → ∀ p ∈ ps, ∀ value, p.marshal E = some value →
      Predicate.unmarshal E value = some (p.received E)) {value : Option Value}
    (h : Predicate.marshal.marshalList E list = some value) :
    Encoding.unmarshalOptional (Predicate.unmarshalList E) value =
      some (Predicate.received.receivedList E list) := by
  rcases list with - | - | ⟨p, ps⟩
  · cases h
    rfl
  · cases h
    rfl
  · obtain ⟨items, hitems, h⟩ := Option.bind_eq_some_iff.mp h
    cases h
    have hread := Predicate.unmarshalItems_marshalItems (ih (p :: ps) rfl) hitems
    simp [Encoding.unmarshalOptional, Predicate.unmarshalList, hread,
      Predicate.received.receivedList]

theorem PredicateExact.unmarshal_marshalOptional {exactly : Option PredicateExact}
    {value : Option Value}
    (h : Encoding.marshalOptional (PredicateExact.marshal E) exactly = some value) :
    Encoding.unmarshalOptional (Encoding.unmarshalPointer (PredicateExact.unmarshal E)) value =
      some (exactly.map (PredicateExact.received E)) := by
  cases exactly with
  | none =>
      cases h
      rfl
  | some p =>
      obtain ⟨object, hobject, rfl⟩ := Option.map_eq_some_iff.mp h
      have hread := PredicateExact.unmarshal_marshal hobject
      obtain ⟨raw, -, hvalue⟩ := Option.bind_eq_some_iff.mp hobject
      cases hvalue
      simp [Encoding.unmarshalOptional, Encoding.unmarshalPointer, hread]

theorem unmarshal_map_marshalString (hasKey : Option GoString) :
    Encoding.unmarshalOptional (Encoding.unmarshalPointer E.unmarshalString)
      (hasKey.map E.marshalString) = some (hasKey.map E.coerce) := by
  cases hasKey with
  | none => rfl
  | some key =>
      have hread := E.unmarshalString_marshalString key
      rw [Encoding.marshalString] at hread
      simp [Encoding.unmarshalOptional, Encoding.unmarshalPointer, Encoding.marshalString, hread]

theorem Predicate.unmarshal_marshal (p : Predicate) {value : Value}
    (h : p.marshal E = some value) : Predicate.unmarshal E value = some (p.received E) := by
  induction p using Predicate.induct generalizing value with
  | hmk all any exactly hasKey hall hany =>
      obtain ⟨allValue, hallValue, h⟩ := Option.bind_eq_some_iff.mp h
      obtain ⟨anyValue, hanyValue, h⟩ := Option.bind_eq_some_iff.mp h
      obtain ⟨exactValue, hexactValue, h⟩ := Option.bind_eq_some_iff.mp h
      cases h
      have hall := Predicate.unmarshalList_marshalList (fun ps hps p hp _ => hall ps hps p hp)
        hallValue
      have hany := Predicate.unmarshalList_marshalList (fun ps hps p hp _ => hany ps hps p hp)
        hanyValue
      have hexact := PredicateExact.unmarshal_marshalOptional hexactValue
      have hkey := unmarshal_map_marshalString (E := E) hasKey
      rw [Predicate.unmarshal, Predicate.zero,
        Predicate.unmarshalFields_optional "and" (fun all => .mk all none none none)
          (by simp [Predicate.unmarshalFields]) hall,
        Predicate.unmarshalFields_optional "or" (fun any => .mk _ any none none)
          (by simp [Predicate.unmarshalFields]) hany,
        Predicate.unmarshalFields_optional "exact" (fun exactly => .mk _ _ exactly none)
          (by simp [Predicate.unmarshalFields]) hexact,
        Predicate.unmarshalFields_optional "has_key" (fun hasKey => .mk _ _ _ hasKey)
          (by simp [Predicate.unmarshalFields]) hkey]
      rfl

theorem Path.unmarshal_marshal (path : Path) :
    Path.unmarshal E (Path.marshal E path) = some (path.map E.coerce) := by
  rw [Path.marshal, Path.unmarshal]
  induction path with
  | nil => rfl
  | cons element path ih =>
      simp only [List.map_cons, List.mapM_cons, ih]
      simp

theorem Query.unmarshal_marshal {q : Query} {value : Value} (h : q.marshal E = some value) :
    Query.unmarshal E value = some ⟨q.path.map E.coerce, q.filter.received E⟩ := by
  obtain ⟨filter, hfilter, hvalue⟩ := Option.bind_eq_some_iff.mp h
  cases hvalue
  have hread := Predicate.unmarshal_marshal q.filter hfilter
  simp [Query.unmarshal, Encoding.unmarshalStruct, Encoding.fields, Query.setField, hread,
    Path.unmarshal_marshal]

theorem RequestID.unmarshal_marshal (id : RequestID) :
    RequestID.unmarshal E (RequestID.marshal E id) = some id := by
  simp [RequestID.unmarshal, RequestID.marshal]

/-- A request arrives with its number, and with the path and the filter as they were sent. -/
theorem Request.unmarshal_marshal {req : Request} {value : Value}
    (h : req.marshal E = some value) :
    Request.unmarshal E value =
      some ⟨req.id, req.query.path.map E.coerce, req.query.filter.received E⟩ := by
  obtain ⟨query, hquery, hvalue⟩ := Option.bind_eq_some_iff.mp h
  cases hvalue
  have hread := Query.unmarshal_marshal hquery
  simp [Request.unmarshal, Encoding.unmarshalStruct, Encoding.fields, Request.setField, hread,
    RequestID.unmarshal_marshal]

end Inet256.Dns256
