import Inet256.Dns256.Resolver

/-!
# Hop limits

Three further methods of the resolver ask for records with certain keys and
decode them.  The number of lookups is bounded by the limit that reaches
`Resolve`, and one of the methods does not pass its options on.
-/

namespace Inet256.Dns256

open Inet256.Foundation
open Inet256.Foundation.Json (stringBytes)

variable {L I : Type}

/-! ## The methods -/

/-- Decoding of the values of a record by other packages; `I` is the type of IP addresses. -/
structure ValueParsers (I : Type) where
  string : Bytes → Go GoString
  uint16 : Bytes → Go UInt16
  parseAddr : GoString → Go I

def Record.asUint16 (P : ValueParsers I) (r : Record) (key : String) : Go UInt16 :=
  P.uint16 (r.value (stringBytes key))

def Record.asString (P : ValueParsers I) (r : Record) (key : String) : Go GoString :=
  P.string (r.value (stringBytes key))

def Record.asIP (P : ValueParsers I) (r : Record) (key : String) : Go I := do
  let s ← r.asString P key
  P.parseAddr s

structure Answers (α L : Type) where
  result : Go (List α)
  lookups : List (Lookup L)

/-- Records that do not decode are left out. -/
def decodeClaims {α : Type} (parse : Record → Go α) : List Claim → Go (List α)
  | [] => .ok []
  | c :: claims =>
      match parse c.record with
      | .error (.error _) => decodeClaims parse claims
      | .error (.panic text) => crash text
      | .ok value => do
          let values ← decodeClaims parse claims
          return value :: values

def Resolved.decode {α : Type} (resolved : Resolved L) (parse : Record → Go α) : Answers α L where
  result := do
    let claims ← resolved.result
    decodeClaims parse claims
  lookups := resolved.lookups

namespace Resolver

/-- The options are not passed on. -/
def resolveINET256 (r : Resolver L) (world : World L) (x : Path) (_opts : List ResolveOpt) :
    Answers Addr L :=
  let q : Query := ⟨x, mustHaveKeys [stringBytes "INET256"]⟩
  (r.resolve world q []).decode fun record => record.asINET256 r.codecs "INET256"

def resolveIP (r : Resolver L) (P : ValueParsers I) (world : World L) (x : Path)
    (opts : List ResolveOpt) : Answers I L :=
  let q : Query := ⟨x, mustHaveKeys [stringBytes "IP"]⟩
  (r.resolve world q opts).decode fun record => record.asIP P "IP"

def resolveIPPort (r : Resolver L) (P : ValueParsers I) (world : World L) (x : Path)
    (opts : List ResolveOpt) : Answers (I × UInt16) L :=
  let q : Query := ⟨x, mustHaveKeys [stringBytes "IP", stringBytes "port"]⟩
  (r.resolve world q opts).decode fun record => do
    let ip ← record.asIP P "IP"
    let port ← record.asUint16 P "port"
    return (ip, port)

/-! ## Lookups and hops -/

theorem length_lookups_loop_le (r : Resolver L) (world : World L) (q : Query) (hops : Nat)
    (sources : List (Authority L)) (log : List (Lookup L)) :
    (r.loop world q hops sources log).lookups.length ≤ log.length + hops := by
  induction hops generalizing sources log with
  | zero => cases sources <;> simp [loop]
  | succ hops ih =>
      cases sources with
      | nil => simp [loop]
      | cons target sources =>
          have hasked : (log ++ [(⟨target, request q target⟩ : Lookup L)]).length =
              log.length + 1 := by simp
          rcases loop_round hops target sources log with ⟨result, hround⟩ |
            ⟨_, sources', _, hround⟩
          · rw [hround, hasked]
            omega
          · have hrest := ih sources' (log ++ [⟨target, request q target⟩])
            rw [hasked] at hrest
            rw [hround]
            omega

theorem maxHops_resolveConfig (opts : List ResolveOpt) (n : Int) :
    (resolveConfig (opts ++ [withMaxHops n])).maxHops = n := by
  simp [resolveConfig, withMaxHops]

theorem length_lookups_resolve_le (r : Resolver L) (world : World L) (q : Query)
    (opts : List ResolveOpt) :
    (r.resolve world q opts).lookups.length ≤ (resolveConfig opts).maxHops.toNat := by
  have h := length_lookups_loop_le r world q (resolveConfig opts).maxHops.toNat r.roots.reverse []
  rwa [List.length_nil, Nat.zero_add] at h

theorem length_lookups_withMaxHops_le (r : Resolver L) (world : World L) (q : Query)
    (opts : List ResolveOpt) (n : Nat) :
    (r.resolve world q (opts ++ [withMaxHops n])).lookups.length ≤ n := by
  have h := length_lookups_resolve_le r world q (opts ++ [withMaxHops n])
  rwa [maxHops_resolveConfig, Int.toNat_natCast] at h

/-- Roots that redirect nowhere are asked one after the other. -/
def manyRoots (lookup : L) (n : Nat) : Resolver L where
  codecs := sampleCodecs
  roots := List.replicate n ⟨[], lookup, 0⟩
  makeLookup := fun _ => fail "no lookup"
  showLookup := fun _ => "0x0"

theorem length_lookups_manyRoots (lookup : L) (q : Query) :
    ((manyRoots lookup 32).resolve silent q []).lookups.length = 32 := by
  rw [resolve, lookups_loop_silent]
  simp [manyRoots, resolveConfig]

/--
The lookups of `Resolve`, `ResolveIP` and `ResolveIPPort` never exceed the limit.  Those of
`ResolveINET256` keep within it for all resolvers and servers exactly if it is no smaller than
the default.
-/
theorem max_hops_honoured_iff (P : ValueParsers I) (lookup : L) (n : Nat) :
    (∀ (r : Resolver L) (world : World L) (q : Query) (opts : List ResolveOpt),
      (r.resolve world q (opts ++ [withMaxHops n])).lookups.length ≤ n) ∧
    (∀ (r : Resolver L) (world : World L) (x : Path) (opts : List ResolveOpt),
      (r.resolveIP P world x (opts ++ [withMaxHops n])).lookups.length ≤ n ∧
      (r.resolveIPPort P world x (opts ++ [withMaxHops n])).lookups.length ≤ n) ∧
    ((∀ (r : Resolver L) (world : World L) (x : Path) (opts : List ResolveOpt),
      (r.resolveINET256 world x (opts ++ [withMaxHops n])).lookups.length ≤ n) ↔ 32 ≤ n) := by
  refine ⟨fun r world q opts => length_lookups_withMaxHops_le r world q opts n,
    fun r world x opts => ⟨?_, ?_⟩, ?_, ?_⟩
  · exact length_lookups_withMaxHops_le r world _ opts n
  · exact length_lookups_withMaxHops_le r world _ opts n
  · intro h
    have hroots := h (manyRoots lookup 32) silent [] []
    rw [← length_lookups_manyRoots lookup ⟨[], mustHaveKeys [stringBytes "INET256"]⟩]
    exact hroots
  · intro hn r world x opts
    have hdefault := length_lookups_resolve_le r world ⟨x, mustHaveKeys [stringBytes "INET256"]⟩ []
    have hlimit : (resolveConfig []).maxHops.toNat = 32 := rfl
    rw [hlimit] at hdefault
    exact hdefault.trans hn

/-- With no hop allowed, one method still asks a root. -/
theorem no_hops_one_lookup :
    (sampleResolver.resolve silent ⟨[stringBytes "com"], mustHaveKeys [stringBytes "INET256"]⟩
        [withMaxHops 0]).lookups.length = 0 ∧
      (sampleResolver.resolveINET256 silent [stringBytes "com"]
        [withMaxHops 0]).lookups.length = 1 := by
  refine ⟨rfl, ?_⟩
  have hlookups : (sampleResolver.resolveINET256 silent [stringBytes "com"]
        [withMaxHops 0]).lookups =
      (sampleResolver.resolve silent ⟨[stringBytes "com"],
        mustHaveKeys [stringBytes "INET256"]⟩ []).lookups :=
    rfl
  rw [hlookups, resolve, lookups_loop_silent]
  rfl

end Resolver

end Inet256.Dns256
