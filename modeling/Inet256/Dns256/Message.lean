import Inet256.Foundation.JsonValue
import Inet256.Pki.Codec

/-!
# Names, records and queries

A name is a path with its most significant element first.  Records are JSON
objects whose values are kept undecoded, and a query asks for the records of a
path that a predicate matches.  Elements and keys are strings of the language,
which need not be text.
-/

namespace Inet256.Dns256

open Inet256.Foundation
open Inet256.Foundation.Json (isText stringBytes)

/-! ## Paths -/

abbrev Path := List GoString

def hasPrefix {E : Type} [DecidableEq E] : List E → List E → Bool
  | _, [] => true
  | [], _ :: _ => false
  | x :: xs, p :: ps => if p ≠ x then false else hasPrefix xs ps

def trimPrefix (x pre : Path) : Path :=
  if !hasPrefix x pre then x else x.drop pre.length

def concat (ps : List Path) : Path := ps.foldl (· ++ ·) []

theorem hasPrefix_iff {E : Type} [DecidableEq E] {x p : List E} :
    hasPrefix x p = true ↔ p <+: x := by
  induction p generalizing x with
  | nil => simp [hasPrefix]
  | cons first p ih =>
      cases x with
      | nil => simp [hasPrefix]
      | cons head x =>
          by_cases hsame : first = head
          · simp [hasPrefix, hsame, ih]
          · simp [hasPrefix, hsame]

theorem trimPrefix_append (pre rest : Path) : trimPrefix (pre ++ rest) pre = rest := by
  have hpre : hasPrefix (pre ++ rest) pre = true := hasPrefix_iff.mpr (List.prefix_append pre rest)
  simp [trimPrefix, hpre]

/-- Trimming a path leaves what has to be appended to the prefix, exactly if it is one. -/
theorem append_trimPrefix_iff {x pre : Path} : pre ++ trimPrefix x pre = x ↔ pre <+: x := by
  constructor
  · intro h
    exact ⟨_, h⟩
  · rintro ⟨rest, rfl⟩
    rw [trimPrefix_append]

@[simp] theorem concat_pair (first second : Path) : concat [first, second] = first ++ second := by
  simp [concat]

/-! ## Records and predicates -/

abbrev Record := GoMap GoString Bytes

/-- `encoding/json` at paths, which come back if their elements are text. -/
structure PathCodec where
  marshal : Path → Bytes
  unmarshal : Bytes → Go Path
  unmarshal_marshal : ∀ path, (∀ element ∈ path, isText element = true) →
    unmarshal (marshal path) = .ok path

structure Codecs where
  path : PathCodec
  addr : JsonCodec Addr

/-- A missing key reads as an empty JSON text. -/
def Record.value (r : Record) (key : GoString) : Bytes := (r.lookup key).getD []

def Record.asPath (C : Codecs) (r : Record) (key : String) : Go Path :=
  C.path.unmarshal (r.value (stringBytes key))

def Record.asINET256 (C : Codecs) (r : Record) (key : String) : Go Addr :=
  C.addr.unmarshal (r.value (stringBytes key))

structure RedirectINET256 where
  path : Path
  target : Addr

def RedirectINET256.toRecord (C : Codecs) (r : RedirectINET256) : Record :=
  ((∅ : Record).insert (stringBytes "path") (C.path.marshal r.path)).insert
    (stringBytes "target") (C.addr.marshal r.target)

structure PredicateExact where
  key : GoString
  value : Bytes

def PredicateExact.matchesRecord (p : PredicateExact) (r : Record) : Bool :=
  r.value p.key == p.value

/-- A nil list is absent, an empty one is not. -/
inductive Predicate where
  | mk (all any : Option (List Predicate)) (exactly : Option PredicateExact)
      (hasKey : Option GoString)

def Predicate.matchesRecord : Predicate → Record → Bool
  | .mk (some ps) _ _ _, r => matchesAll ps r
  | .mk none (some ps) _ _, r => matchesAny ps r
  | .mk none none (some p) _, r => p.matchesRecord r
  | .mk none none none (some key), r => (r.lookup key).isSome
  | .mk none none none none, _ => true
where
  matchesAll : List Predicate → Record → Bool
  | [], _ => true
  | p :: ps, r => if !p.matchesRecord r then false else matchesAll ps r
  matchesAny : List Predicate → Record → Bool
  | [], _ => false
  | p :: ps, r => if p.matchesRecord r then true else matchesAny ps r

/-- Without keys the list stays nil. -/
def mustHaveKeys (ks : List GoString) : Predicate :=
  .mk (if ks = [] then none else some (ks.map fun k => .mk none none none (some k)))
    none none none

/-! ## Requests and responses -/

structure Query where
  path : Path
  filter : Predicate

def Query.matchesRecord (q : Query) (r : Record) : Bool := q.filter.matchesRecord r

abbrev RequestID := List.Vector UInt8 16

def RequestID.zero : RequestID := copyTo 16 []

structure Request where
  id : RequestID
  query : Query

structure Claim where
  record : Record
  ttl : UInt32

structure Response where
  requestID : RequestID
  isRedirect : Bool
  claims : List Claim

def Response.zero : Response := ⟨RequestID.zero, false, []⟩

/-! ## A simple server -/

structure BasicHandler where
  redirects : List RedirectINET256
  records : List Record
  ttl : UInt32

/-- The response after the call, and whether it is to be sent. -/
def BasicHandler.handle (bh : BasicHandler) (C : Codecs) (res : Response) (req : Request) :
    Response × Bool :=
  let ttl := if bh.ttl ≤ 0 then 300 else bh.ttl
  match bh.redirects.find? fun red => hasPrefix req.query.path red.path with
  | some red =>
      ({ res with
        isRedirect := true
        claims := res.claims ++ [⟨red.toRecord C, ttl⟩] }, true)
  | none =>
      ({ res with
        claims := res.claims ++
          (bh.records.filter req.query.matchesRecord).map fun rec => ⟨rec, ttl⟩ }, true)

theorem BasicHandler.handle_redirect {bh : BasicHandler} (C : Codecs) {red : RedirectINET256}
    {req : Request} (h : bh.redirects = [red]) (hpre : red.path <+: req.query.path) :
    ∃ ttl, (bh.handle C Response.zero req).1 =
      ⟨RequestID.zero, true, [⟨red.toRecord C, ttl⟩]⟩ := by
  refine ⟨if bh.ttl ≤ 0 then 300 else bh.ttl, ?_⟩
  simp [BasicHandler.handle, h, hasPrefix_iff.mpr hpre, Response.zero]

theorem BasicHandler.handle_records {bh : BasicHandler} (C : Codecs) (h : bh.redirects = [])
    (req : Request) : (bh.handle C Response.zero req).1.isRedirect = false := by
  simp [BasicHandler.handle, h, Response.zero]

theorem asPath_toRecord (C : Codecs) {r : RedirectINET256}
    (htext : ∀ element ∈ r.path, isText element = true) :
    (r.toRecord C).asPath C "path" = .ok r.path := by
  have hkeys : stringBytes "path" ≠ stringBytes "target" := by decide +kernel
  have hvalue : (r.toRecord C).value (stringBytes "path") = C.path.marshal r.path := by
    simp [Record.value, RedirectINET256.toRecord, hkeys]
  rw [Record.asPath, hvalue, C.path.unmarshal_marshal r.path htext]

theorem asINET256_toRecord (C : Codecs) (r : RedirectINET256) :
    (r.toRecord C).asINET256 C "target" = .ok r.target := by
  have hvalue : (r.toRecord C).value (stringBytes "target") = C.addr.marshal r.target := by
    simp [Record.value, RedirectINET256.toRecord]
  rw [Record.asINET256, hvalue, C.addr.unmarshal_marshal]

end Inet256.Dns256
