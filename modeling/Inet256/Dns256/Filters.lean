import Inet256.Dns256.Wire
import Inet256.Foundation.JsonText

/-!
# What filters mean to the server

A predicate looks at its first field that is not nil.  On the wire an empty list
is no field at all, so that the next one takes its place; a key that is not text
and a value that is not compact are changed.  A predicate none of whose reachable
parts is affected matches the same records before and after.
-/

namespace Inet256.Dns256

open Inet256.Foundation
open Inet256.Foundation.Json (Encoding Value isText stringBytes)

variable (E : Encoding)

/-! ## Parts -/

/-- The predicates that matching a record may come to. -/
inductive Predicate.Reaches : Predicate → Predicate → Prop
  | self (p : Predicate) : Reaches p p
  | all {ps : List Predicate} {any : Option (List Predicate)} {exactly : Option PredicateExact}
      {hasKey : Option GoString} {p q : Predicate} (hp : p ∈ ps) (h : Reaches p q) :
      Reaches (.mk (some ps) any exactly hasKey) q
  | any {ps : List Predicate} {exactly : Option PredicateExact} {hasKey : Option GoString}
      {p q : Predicate} (hp : p ∈ ps) (h : Reaches p q) :
      Reaches (.mk none (some ps) exactly hasKey) q

/-- Empty lists do not count, as on the wire: no key is looked at. -/
def Predicate.unconstrained : Predicate → Bool
  | .mk (some (p :: ps)) _ _ _ => unconstrainedAll (p :: ps)
  | .mk _ (some (p :: ps)) _ _ => unconstrainedAny (p :: ps)
  | .mk _ _ exactly hasKey => exactly.isNone && hasKey.isNone
where
  unconstrainedAll : List Predicate → Bool
  | [] => true
  | p :: ps => p.unconstrained && unconstrainedAll ps
  unconstrainedAny : List Predicate → Bool
  | [] => false
  | p :: ps => p.unconstrained || unconstrainedAny ps

def PredicateExact.portable (p : PredicateExact) : Bool :=
  isText p.key && E.compact p.value == some p.value

/-- The condition on a predicate under which its reachable parts keep their meaning. -/
def Predicate.portable : Predicate → Bool
  | .mk (some []) any exactly hasKey => (Predicate.mk none any exactly hasKey).unconstrained
  | .mk (some (p :: ps)) _ _ _ => portableAll (p :: ps)
  | .mk none (some []) _ _ => false
  | .mk none (some (p :: ps)) _ _ => portableAll (p :: ps)
  | .mk none none (some p) _ => p.portable E
  | .mk none none none (some key) => isText key
  | .mk none none none none => true
where
  portableAll : List Predicate → Bool
  | [] => true
  | p :: ps => p.portable && portableAll ps

/-- A request with the filter arrives, and its filter matches the same records. -/
def Predicate.KeepsMeaning (p : Predicate) : Prop :=
  ∀ id path, ∃ value received, Request.marshal E ⟨id, path, p⟩ = some value ∧
    Request.unmarshal E value = some received ∧
    ∀ r, received.query.matchesRecord r = p.matchesRecord r

variable {E}

theorem PredicateExact.matchesRecord_iff {p : PredicateExact} {r : Record} :
    p.matchesRecord r = true ↔ r.value p.key = p.value := by
  simp [PredicateExact.matchesRecord]

namespace Predicate

theorem matchesAll_eq (ps : List Predicate) (r : Record) :
    matchesRecord.matchesAll ps r = ps.all fun p => p.matchesRecord r := by
  induction ps with
  | nil => rfl
  | cons p ps ih =>
      rw [matchesRecord.matchesAll, ih]
      cases h : p.matchesRecord r <;> simp [h]

theorem matchesAny_eq (ps : List Predicate) (r : Record) :
    matchesRecord.matchesAny ps r = ps.any fun p => p.matchesRecord r := by
  induction ps with
  | nil => rfl
  | cons p ps ih =>
      rw [matchesRecord.matchesAny, ih]
      cases h : p.matchesRecord r <;> simp [h]

theorem receivedItems_eq (ps : List Predicate) :
    received.receivedItems E ps = ps.map (received E) := by
  induction ps with
  | nil => rfl
  | cons p ps ih => rw [received.receivedItems, ih, List.map_cons]

theorem unconstrainedAll_eq (ps : List Predicate) :
    unconstrained.unconstrainedAll ps = ps.all unconstrained := by
  induction ps with
  | nil => rfl
  | cons p ps ih => rw [unconstrained.unconstrainedAll, ih, List.all_cons]

theorem unconstrainedAny_eq (ps : List Predicate) :
    unconstrained.unconstrainedAny ps = ps.any unconstrained := by
  induction ps with
  | nil => rfl
  | cons p ps ih => rw [unconstrained.unconstrainedAny, ih, List.any_cons]

theorem portableAll_eq (ps : List Predicate) :
    portable.portableAll E ps = ps.all (portable E) := by
  induction ps with
  | nil => rfl
  | cons p ps ih => rw [portable.portableAll, ih, List.all_cons]

/-! ## Empty lists -/

/-- A list that is omitted. -/
def Blank (list : Option (List Predicate)) : Prop := list = none ∨ list = some []

/-- Induction through the list that the server looks at, the first that is not omitted. -/
theorem wireInduct {motive : Predicate → Prop}
    (hall : ∀ p ps any exactly hasKey, (∀ q ∈ p :: ps, motive q) →
      motive (.mk (some (p :: ps)) any exactly hasKey))
    (hany : ∀ all p ps exactly hasKey, Blank all → (∀ q ∈ p :: ps, motive q) →
      motive (.mk all (some (p :: ps)) exactly hasKey))
    (hleaf : ∀ all any exactly hasKey, Blank all → Blank any →
      motive (.mk all any exactly hasKey))
    (p : Predicate) : motive p := by
  induction p using Predicate.induct with
  | hmk all any exactly hasKey ihall ihany =>
      by_cases hblank : Blank all
      · by_cases hblankAny : Blank any
        · exact hleaf all any exactly hasKey hblank hblankAny
        · rcases any with - | - | ⟨p, ps⟩
          · exact absurd (Or.inl rfl) hblankAny
          · exact absurd (Or.inr rfl) hblankAny
          · exact hany all p ps exactly hasKey hblank (ihany (p :: ps) rfl)
      · rcases all with - | - | ⟨p, ps⟩
        · exact absurd (Or.inl rfl) hblank
        · exact absurd (Or.inr rfl) hblank
        · exact hall p ps any exactly hasKey (ihall (p :: ps) rfl)

section

variable {all any : Option (List Predicate)} {exactly : Option PredicateExact}
variable {hasKey : Option GoString} {p : Predicate} {ps : List Predicate} {r : Record}

theorem received_all_iff :
    ((mk (some (p :: ps)) any exactly hasKey).received E).matchesRecord r = true ↔
      ∀ q ∈ p :: ps, (q.received E).matchesRecord r = true := by
  simp [received, received.receivedList, receivedItems_eq, matchesRecord, matchesAll_eq]

theorem received_any_iff (hall : Blank all) :
    ((mk all (some (p :: ps)) exactly hasKey).received E).matchesRecord r = true ↔
      ∃ q ∈ p :: ps, (q.received E).matchesRecord r = true := by
  rcases hall with rfl | rfl <;>
    simp [received, received.receivedList, receivedItems_eq, matchesRecord, matchesAny_eq]

theorem unconstrained_all_iff :
    (mk (some (p :: ps)) any exactly hasKey).unconstrained = true ↔
      ∀ q ∈ p :: ps, q.unconstrained = true := by
  simp [unconstrained, unconstrainedAll_eq]

theorem unconstrained_any_iff (hall : Blank all) :
    (mk all (some (p :: ps)) exactly hasKey).unconstrained = true ↔
      ∃ q ∈ p :: ps, q.unconstrained = true := by
  rcases hall with rfl | rfl <;> simp [unconstrained, unconstrainedAny_eq]

theorem unconstrained_leaf_iff (hall : Blank all) (hany : Blank any) :
    (mk all any exactly hasKey).unconstrained = true ↔ exactly = none ∧ hasKey = none := by
  rcases hall with rfl | rfl <;> rcases hany with rfl | rfl <;> simp [unconstrained]

theorem received_leaf (hall : Blank all) (hany : Blank any) :
    (mk all any exactly hasKey).received E =
      mk none none (exactly.map (PredicateExact.received E)) (hasKey.map E.coerce) := by
  rcases hall with rfl | rfl <;> rcases hany with rfl | rfl <;> rfl

end

theorem matches_of_unconstrained {p : Predicate} (h : p.unconstrained = true) (r : Record) :
    (p.received E).matchesRecord r = true := by
  induction p using wireInduct with
  | hall p ps any exactly hasKey ih =>
      rw [unconstrained_all_iff] at h
      rw [received_all_iff]
      exact fun q hq => ih q hq (h q hq)
  | hany all p ps exactly hasKey hall ih =>
      obtain ⟨q, hq, h⟩ := (unconstrained_any_iff hall).mp h
      rw [received_any_iff hall]
      exact ⟨q, hq, ih q hq h⟩
  | hleaf all any exactly hasKey hall hany =>
      obtain ⟨rfl, rfl⟩ := (unconstrained_leaf_iff hall hany).mp h
      rw [received_leaf hall hany]
      rfl

/-- The values that arrive are texts, which the empty record has under no key. -/
theorem unconstrained_of_matches_empty {p : Predicate}
    (h : (p.received E).matchesRecord ∅ = true) : p.unconstrained = true := by
  induction p using wireInduct with
  | hall p ps any exactly hasKey ih =>
      rw [received_all_iff] at h
      rw [unconstrained_all_iff]
      exact fun q hq => ih q hq (h q hq)
  | hany all p ps exactly hasKey hall ih =>
      obtain ⟨q, hq, h⟩ := (received_any_iff hall).mp h
      rw [unconstrained_any_iff hall]
      exact ⟨q, hq, ih q hq h⟩
  | hleaf all any exactly hasKey hall hany =>
      rw [received_leaf hall hany] at h
      rw [unconstrained_leaf_iff hall hany]
      cases exactly with
      | some e =>
          have hvalue := PredicateExact.matchesRecord_iff.mp h
          exact absurd hvalue.symm (E.resent_ne_nil e.value)
      | none =>
          cases hasKey with
          | some key => simp [matchesRecord] at h
          | none => exact ⟨rfl, rfl⟩

end Predicate

/-! ## Keys and values -/

/-- A record with one key tells two tests of values apart, unless they are the same. -/
theorem PredicateExact.received_same_iff {p : PredicateExact}
    (h : (p.marshal E).isSome = true) :
    (∀ r, (p.received E).matchesRecord r = p.matchesRecord r) ↔ p.portable E = true := by
  have hraw : (E.marshalRaw p.value).isSome = true := by
    obtain ⟨value, hvalue⟩ := Option.isSome_iff_exists.mp h
    obtain ⟨raw, hraw, -⟩ := Option.bind_eq_some_iff.mp hvalue
    simp [hraw]
  have hportable : p.portable E = true ↔ E.coerce p.key = p.key ∧ E.resent p.value = p.value := by
    simp [PredicateExact.portable, E.coerce_eq_iff, E.resent_eq_iff hraw]
  rw [hportable]
  constructor
  · intro hsame
    have hown : Record.value ((∅ : Record).insert p.key p.value) p.key = p.value := by
      simp [Record.value]
    have hone : Record.value ((∅ : Record).insert p.key p.value) (E.coerce p.key) =
        E.resent p.value := by
      apply PredicateExact.matchesRecord_iff (p := p.received E).mp
      exact (hsame _).trans (PredicateExact.matchesRecord_iff.mpr hown)
    by_cases hkey : E.coerce p.key = p.key
    · rw [hkey, hown] at hone
      exact ⟨hkey, hone.symm⟩
    · have hother : Record.value ((∅ : Record).insert p.key p.value) (E.coerce p.key) = [] := by
        simp [Record.value, hkey]
      exact absurd (hone.symm.trans hother) (E.resent_ne_nil p.value)
  · rintro ⟨hkey, hvalue⟩ r
    simp [PredicateExact.matchesRecord, PredicateExact.received, hkey, hvalue]

theorem hasKey_same_iff {key : GoString} :
    (∀ r : Record, (r.lookup (E.coerce key)).isSome = (r.lookup key).isSome) ↔
      isText key = true := by
  rw [← E.coerce_eq_iff]
  constructor
  · intro hsame
    have hone := hsame ((∅ : Record).insert key [])
    by_contra hkey
    simp [hkey] at hone
  · intro hkey r
    rw [hkey]

/-- Without its lists a predicate tests at most one key, and some record passes the test. -/
theorem Predicate.exists_match (exactly : Option PredicateExact) (hasKey : Option GoString) :
    ∃ r, (Predicate.mk none none exactly hasKey).matchesRecord r = true := by
  rcases exactly with - | e
  · rcases hasKey with - | key
    · exact ⟨∅, rfl⟩
    · refine ⟨(∅ : Record).insert key [], ?_⟩
      simp [Predicate.matchesRecord]
  · refine ⟨(∅ : Record).insert e.key e.value, ?_⟩
    simp [Predicate.matchesRecord, PredicateExact.matchesRecord, Record.value]

namespace Predicate

/-! ## Predicates that are sent -/

theorem marshal_items {ps : List Predicate}
    (h : (marshal.marshalItems E ps).isSome = true) :
    ∀ p ∈ ps, (p.marshal E).isSome = true := by
  induction ps with
  | nil => simp
  | cons p ps ih =>
      obtain ⟨items, hitems⟩ := Option.isSome_iff_exists.mp h
      obtain ⟨item, hitem, hitems⟩ := Option.bind_eq_some_iff.mp hitems
      obtain ⟨rest, hrest, -⟩ := Option.bind_eq_some_iff.mp hitems
      intro q hq
      rcases List.mem_cons.mp hq with rfl | hq
      · simp [hitem]
      · exact ih (by simp [hrest]) q hq

theorem marshal_list {ps : List Predicate} (h : (marshal.marshalList E (some ps)).isSome = true) :
    ∀ p ∈ ps, (p.marshal E).isSome = true := by
  cases ps with
  | nil => simp
  | cons p ps =>
      obtain ⟨value, hvalue⟩ := Option.isSome_iff_exists.mp h
      obtain ⟨items, hitems, -⟩ := Option.bind_eq_some_iff.mp hvalue
      exact marshal_items (by simp [hitems])

/-- A predicate can be sent only with all its parts. -/
theorem marshal_parts {all any : Option (List Predicate)} {exactly : Option PredicateExact}
    {hasKey : Option GoString} (h : ((mk all any exactly hasKey).marshal E).isSome = true) :
    (∀ ps, all = some ps → ∀ p ∈ ps, (p.marshal E).isSome = true) ∧
      (∀ ps, any = some ps → ∀ p ∈ ps, (p.marshal E).isSome = true) ∧
      ∀ e, exactly = some e → (e.marshal E).isSome = true := by
  obtain ⟨value, hvalue⟩ := Option.isSome_iff_exists.mp h
  obtain ⟨allValue, hall, hvalue⟩ := Option.bind_eq_some_iff.mp hvalue
  obtain ⟨anyValue, hany, hvalue⟩ := Option.bind_eq_some_iff.mp hvalue
  obtain ⟨exactValue, hexact, -⟩ := Option.bind_eq_some_iff.mp hvalue
  refine ⟨?_, ?_, ?_⟩
  · rintro ps rfl
    exact marshal_list (by simp [hall])
  · rintro ps rfl
    exact marshal_list (by simp [hany])
  · rintro e rfl
    obtain ⟨value, hvalue, -⟩ := Option.map_eq_some_iff.mp hexact
    simp [hvalue]

theorem keepsMeaning_iff {p : Predicate} (h : (p.marshal E).isSome = true) :
    p.KeepsMeaning E ↔ ∀ r, (p.received E).matchesRecord r = p.matchesRecord r := by
  obtain ⟨filter, hfilter⟩ := Option.isSome_iff_exists.mp h
  have hmarshal : ∀ id path, ∃ value, Request.marshal E ⟨id, path, p⟩ = some value := by
    intro id path
    simp [Request.marshal, Query.marshal, hfilter]
  constructor
  · intro hkeeps r
    obtain ⟨value, received, hvalue, hreceived, hsame⟩ := hkeeps RequestID.zero []
    rw [Request.unmarshal_marshal hvalue] at hreceived
    cases hreceived
    exact hsame r
  · intro hsame id path
    obtain ⟨value, hvalue⟩ := hmarshal id path
    exact ⟨value, _, hvalue, Request.unmarshal_marshal hvalue, hsame⟩

/-! ## The condition -/

section

variable {all any : Option (List Predicate)} {exactly : Option PredicateExact}
variable {hasKey : Option GoString} {p : Predicate} {ps : List Predicate}

theorem portable_all_iff :
    (mk (some (p :: ps)) any exactly hasKey).portable E = true ↔
      ∀ q ∈ p :: ps, q.portable E = true := by
  simp [portable, portableAll_eq]

theorem portable_any_iff :
    (mk none (some (p :: ps)) exactly hasKey).portable E = true ↔
      ∀ q ∈ p :: ps, q.portable E = true := by
  simp [portable, portableAll_eq]

end

theorem received_of_portable {p : Predicate} (hmarshal : (p.marshal E).isSome = true)
    (h : p.portable E = true) (r : Record) :
    (p.received E).matchesRecord r = p.matchesRecord r := by
  induction p using Predicate.induct with
  | hmk all any exactly hasKey ihall ihany =>
      obtain ⟨hall, hany, hexact⟩ := marshal_parts hmarshal
      rcases all with - | - | ⟨a, as⟩
      · rcases any with - | - | ⟨b, bs⟩
        · rcases exactly with - | e
          · rcases hasKey with - | key
            · rfl
            · exact hasKey_same_iff.mpr h r
          · exact (PredicateExact.received_same_iff (hexact e rfl)).mpr h r
        · cases h
        · rw [portable_any_iff] at h
          have hitems : ∀ q ∈ b :: bs, (q.received E).matchesRecord r = q.matchesRecord r :=
            fun q hq => ihany (b :: bs) rfl q hq (hany (b :: bs) rfl q hq) (h q hq)
          rw [Bool.eq_iff_iff, received_any_iff (Or.inl rfl), matchesRecord, matchesAny_eq,
            List.any_eq_true]
          exact exists_congr fun q => and_congr_right fun hq => by rw [hitems q hq]
      · exact matches_of_unconstrained (p := mk none any exactly hasKey) h r
      · rw [portable_all_iff] at h
        have hitems : ∀ q ∈ a :: as, (q.received E).matchesRecord r = q.matchesRecord r :=
          fun q hq => ihall (a :: as) rfl q hq (hall (a :: as) rfl q hq) (h q hq)
        rw [Bool.eq_iff_iff, received_all_iff, matchesRecord, matchesAll_eq, List.all_eq_true]
        exact forall₂_congr fun q hq => by rw [hitems q hq]

/-- Sending and the condition pass to every part that matching may come to. -/
theorem portable_of_reaches {p q : Predicate} (hreaches : p.Reaches q)
    (hmarshal : (p.marshal E).isSome = true) (h : p.portable E = true) :
    (q.marshal E).isSome = true ∧ q.portable E = true := by
  induction hreaches with
  | self p => exact ⟨hmarshal, h⟩
  | @all ps any exactly hasKey p q hp _ ih =>
      obtain ⟨hall, -, -⟩ := marshal_parts hmarshal
      cases ps with
      | nil => simp at hp
      | cons a as => exact ih (hall (a :: as) rfl p hp) (portable_all_iff.mp h p hp)
  | @any ps exactly hasKey p q hp _ ih =>
      obtain ⟨-, hany, -⟩ := marshal_parts hmarshal
      cases ps with
      | nil => simp at hp
      | cons b bs => exact ih (hany (b :: bs) rfl p hp) (portable_any_iff.mp h p hp)

theorem portable_of_keepsMeaning {p : Predicate} (hmarshal : (p.marshal E).isSome = true)
    (h : ∀ q, p.Reaches q → q.KeepsMeaning E) : p.portable E = true := by
  induction p using Predicate.induct with
  | hmk all any exactly hasKey ihall ihany =>
      obtain ⟨hall, hany, hexact⟩ := marshal_parts hmarshal
      have hself := (keepsMeaning_iff hmarshal).mp (h _ (Reaches.self _))
      rcases all with - | - | ⟨a, as⟩
      · rcases any with - | - | ⟨b, bs⟩
        · rcases exactly with - | e
          · rcases hasKey with - | key
            · rfl
            · exact hasKey_same_iff.mp hself
          · exact (PredicateExact.received_same_iff (hexact e rfl)).mp hself
        · -- The predicate itself matches nothing, what arrives is at most one test.
          obtain ⟨r, hr⟩ := exists_match (exactly.map (PredicateExact.received E))
            (hasKey.map E.coerce)
          cases hr.symm.trans (hself r)
        · rw [portable_any_iff]
          intro q hq
          exact ihany (b :: bs) rfl q hq (hany (b :: bs) rfl q hq)
            fun part hpart => h part (Reaches.any hq hpart)
      · exact unconstrained_of_matches_empty (hself ∅)
      · rw [portable_all_iff]
        intro q hq
        exact ihall (a :: as) rfl q hq (hall (a :: as) rfl q hq)
          fun part hpart => h part (Reaches.all hq hpart)

/-- The parts that matching may come to all keep their meaning, exactly if none of them is an
empty alternative, an empty conjunction before other tests, or a test that is changed. -/
theorem keeps_meaning_iff (E : Encoding) (p : Predicate)
    (hmarshal : (p.marshal E).isSome = true) :
    (∀ q, p.Reaches q → q.KeepsMeaning E) ↔ p.portable E = true := by
  constructor
  · exact portable_of_keepsMeaning hmarshal
  · intro h q hreaches
    obtain ⟨hmarshal, h⟩ := portable_of_reaches hreaches hmarshal h
    exact (keepsMeaning_iff hmarshal).mpr (received_of_portable hmarshal h)

end Predicate

/-! ## Filters for keys -/

theorem marshal_hasKeys (ks : List GoString) :
    (Predicate.marshal.marshalItems E
      (ks.map fun k => .mk none none none (some k))).isSome = true := by
  induction ks with
  | nil => rfl
  | cons k ks ih =>
      obtain ⟨items, hitems⟩ := Option.isSome_iff_exists.mp ih
      simp [Predicate.marshal.marshalItems, Predicate.marshal, Predicate.marshal.marshalList,
        Encoding.marshalOptional, hitems]

theorem marshal_mustHaveKeys (ks : List GoString) :
    ((mustHaveKeys ks).marshal E).isSome = true := by
  cases ks with
  | nil => rfl
  | cons k ks =>
      obtain ⟨items, hitems⟩ := Option.isSome_iff_exists.mp (marshal_hasKeys (E := E) (k :: ks))
      rw [List.map_cons] at hitems
      simp [mustHaveKeys, Predicate.marshal, Predicate.marshal.marshalList,
        Encoding.marshalOptional, hitems]

/-- The filters of the library's own lookups mean the same to the server. -/
theorem mustHaveKeys_keepsMeaning {ks : List GoString} (h : ∀ k ∈ ks, isText k = true) :
    (mustHaveKeys ks).KeepsMeaning E := by
  have hportable : (mustHaveKeys ks).portable E = true := by
    cases ks with
    | nil => rfl
    | cons k ks =>
        apply Predicate.portable_all_iff.mpr
        intro q hq
        rw [← List.map_cons (f := fun k => Predicate.mk none none none (some k))] at hq
        obtain ⟨key, hkey, rfl⟩ := List.mem_map.mp hq
        exact h key hkey
  have hmarshal := marshal_mustHaveKeys (E := E) ks
  have hsame := Predicate.received_of_portable hmarshal hportable
  exact (Predicate.keepsMeaning_iff hmarshal).mpr hsame

/-! ## A sample encoding -/

def sampleSpaces : List UInt8 := [32, 9, 10, 13]

/-- The texts of the literal names, with space around them. -/
def sampleParse (text : Bytes) : Option Value :=
  let start := text.dropWhile (· ∈ sampleSpaces)
  let name := (start.reverse.dropWhile (· ∈ sampleSpaces)).reverse
  if name = stringBytes "null" then some .null
  else if name = stringBytes "true" then some (.boolean true)
  else if name = stringBytes "false" then some (.boolean false)
  else none

def sampleEncoding : Encoding where
  parse := sampleParse
  quote := Json.quoteText
  unquote := Json.unquoteText
  print_ne_nil := by
    intro text value h
    rw [sampleParse] at h
    split at h
    · cases h
      decide +kernel
    · split at h
      · cases h
        decide +kernel
      · split at h
        · cases h
          decide +kernel
        · cases h
  unquote_quote := Json.unquoteText_quoteText

def sampleFilter : Predicate :=
  .mk (some [.mk none none none (some (stringBytes "IP")),
    .mk none none (some ⟨stringBytes "open", stringBytes "true"⟩) none]) none none none

theorem keeps_meaning_sample :
    (sampleFilter.marshal sampleEncoding).isSome = true ∧
      sampleFilter.KeepsMeaning sampleEncoding :=
  have hmarshal : (sampleFilter.marshal sampleEncoding).isSome = true := by decide +kernel
  ⟨hmarshal, (Predicate.keeps_meaning_iff sampleEncoding sampleFilter hmarshal).mpr
    (by decide +kernel) sampleFilter (.self _)⟩

/-- An alternative of nothing matches no record; what arrives matches every one. -/
theorem not_keeps_meaning :
    ¬ ∀ (E : Encoding) (p : Predicate), (p.marshal E).isSome = true → p.KeepsMeaning E := by
  intro h
  have hkeeps := h sampleEncoding (.mk none (some []) none none) rfl
  obtain ⟨value, received, hvalue, hreceived, hsame⟩ := hkeeps RequestID.zero []
  rw [Request.unmarshal_marshal hvalue] at hreceived
  cases hreceived
  cases hsame ∅

end Inet256.Dns256
