import Inet256.Crypto.Primitives

/-!
# Product signatures

A product scheme signs with every one of a list of component keys.  Schemes
and keys are interface values in the source, so a component may itself be a
product; the three types below are the corresponding trees.  Every loop is
translated with the offsets the source computes.
-/

namespace Inet256.Crypto

open Inet256.Foundation

variable {P : Primitives}

inductive Scheme (P : Primitives) where
  | base (algo : P.Algo)
  | product (schemes : List (Scheme P))

inductive PublicKey (P : Primitives) where
  | base (key : P.Pub)
  | product (keys : List (PublicKey P))

inductive PrivateKey (P : Primitives) where
  | base (key : P.Priv)
  | product (keys : List (PrivateKey P))

/-! ## Equality of schemes and keys -/

/-- `reflect.DeepEqual` on schemes. -/
def Scheme.deepEqual : Scheme P → Scheme P → Bool
  | .base first, .base second => first == second
  | .product firsts, .product seconds => deepEquals firsts seconds
  | .base _, .product _ => false
  | .product _, .base _ => false
where
  deepEquals : List (Scheme P) → List (Scheme P) → Bool
  | [], [] => true
  | first :: firsts, second :: seconds =>
      first.deepEqual second && deepEquals firsts seconds
  | [], _ :: _ => false
  | _ :: _, [] => false

theorem Scheme.deepEquals_iff {firsts : List (Scheme P)}
    (hall : ∀ first ∈ firsts, ∀ second, first.deepEqual second = true ↔ first = second)
    (seconds : List (Scheme P)) :
    Scheme.deepEqual.deepEquals firsts seconds = true ↔ firsts = seconds := by
  induction firsts generalizing seconds with
  | nil => cases seconds <;> simp [Scheme.deepEqual.deepEquals]
  | cons first firsts ih =>
      obtain ⟨hfirst, hfirsts⟩ := List.forall_mem_cons.mp hall
      cases seconds with
      | nil => simp [Scheme.deepEqual.deepEquals]
      | cons second seconds =>
          simp [Scheme.deepEqual.deepEquals, hfirst second, ih hfirsts seconds]

theorem Scheme.deepEqual_iff : ∀ first second : Scheme P,
    first.deepEqual second = true ↔ first = second
  | .base first, .base second => by simp [Scheme.deepEqual]
  | .product firsts, .product seconds => by
      have hall : ∀ first ∈ firsts, ∀ second, first.deepEqual second = true ↔ first = second :=
        fun first _ second => Scheme.deepEqual_iff first second
      simp [Scheme.deepEqual, Scheme.deepEquals_iff hall seconds]
  | .base _, .product _ => by simp [Scheme.deepEqual]
  | .product _, .base _ => by simp [Scheme.deepEqual]

instance : DecidableEq (Scheme P) := fun first second =>
  decidable_of_iff _ (Scheme.deepEqual_iff first second)

/-! ## Sizes -/

def Scheme.size (baseSize : P.Algo → Nat) : Scheme P → Nat
  | .base algo => baseSize algo
  | .product schemes => sizes schemes
where
  sizes : List (Scheme P) → Nat
  | [] => 0
  | scheme :: schemes => scheme.size baseSize + sizes schemes

def Scheme.signatureSize : Scheme P → Nat := Scheme.size P.signatureSize

def Scheme.publicKeySize : Scheme P → Nat := Scheme.size P.publicKeySize

def Scheme.privateKeySize : Scheme P → Nat := Scheme.size P.privateKeySize

/-! ## Texts -/

/-- The verb `%v`, which prints a product as a slice. -/
def Scheme.text : Scheme P → String
  | .base algo => P.algoText algo
  | .product schemes => "[" ++ " ".intercalate (texts schemes) ++ "]"
where
  texts : List (Scheme P) → List String
  | [] => []
  | scheme :: schemes => scheme.text :: texts schemes

/-- The verb `%T`. -/
def Scheme.type : Scheme P → String
  | .base algo => P.algoType algo
  | .product _ => "crypto.ProductSignScheme"

/-! ## Keys -/

/-- `ProductVerifier.Scheme` returns a product of no schemes. -/
def PublicKey.scheme : PublicKey P → Scheme P
  | .base key => .base (P.pubAlgo key)
  | .product _ => .product []

/--
`ProductSigner.Scheme` collects the component schemes and then returns the
product of no schemes.
-/
def PrivateKey.scheme : PrivateKey P → Scheme P
  | .base key => .base (P.privAlgo key)
  | .product _ => .product []

def PrivateKey.public : PrivateKey P → PublicKey P
  | .base key => .base (P.toPublic key)
  | .product keys => .product (publics keys)
where
  publics : List (PrivateKey P) → List (PublicKey P)
  | [] => []
  | key :: keys => key.public :: publics keys

def PublicKey.equal : PublicKey P → PublicKey P → Bool
  | .base first, .base second => first == second
  | .product firsts, .product seconds => equals firsts seconds
  | .base _, .product _ => false
  | .product _, .base _ => false
where
  equals : List (PublicKey P) → List (PublicKey P) → Bool
  | [], [] => true
  | first :: firsts, second :: seconds =>
      first.equal second && equals firsts seconds
  | [], _ :: _ => false
  | _ :: _, [] => false

theorem PublicKey.equals_iff {firsts : List (PublicKey P)}
    (hall : ∀ first ∈ firsts, ∀ second, first.equal second = true ↔ first = second)
    (seconds : List (PublicKey P)) :
    PublicKey.equal.equals firsts seconds = true ↔ firsts = seconds := by
  induction firsts generalizing seconds with
  | nil => cases seconds <;> simp [PublicKey.equal.equals]
  | cons first firsts ih =>
      obtain ⟨hfirst, hfirsts⟩ := List.forall_mem_cons.mp hall
      cases seconds with
      | nil => simp [PublicKey.equal.equals]
      | cons second seconds =>
          simp [PublicKey.equal.equals, hfirst second, ih hfirsts seconds]

theorem PublicKey.equal_iff : ∀ first second : PublicKey P,
    first.equal second = true ↔ first = second
  | .base first, .base second => by simp [PublicKey.equal]
  | .product firsts, .product seconds => by
      have hall : ∀ first ∈ firsts, ∀ second, first.equal second = true ↔ first = second :=
        fun first _ second => PublicKey.equal_iff first second
      simp [PublicKey.equal, PublicKey.equals_iff hall seconds]
  | .base _, .product _ => by simp [PublicKey.equal]
  | .product _, .base _ => by simp [PublicKey.equal]

instance : DecidableEq (PublicKey P) := fun first second =>
  decidable_of_iff _ (PublicKey.equal_iff first second)

def PublicKey.marshalBinary : PublicKey P → Go Bytes
  | .base key => P.marshalPub key
  | .product keys => marshalBinaries keys
where
  marshalBinaries : List (PublicKey P) → Go Bytes
  | [] => .ok []
  | key :: keys => do
      let data ← key.marshalBinary
      let rest ← marshalBinaries keys
      return data ++ rest

def PrivateKey.marshalBinary : PrivateKey P → Go Bytes
  | .base key => P.marshalPriv key
  | .product keys => marshalBinaries keys
where
  marshalBinaries : List (PrivateKey P) → Go Bytes
  | [] => .ok []
  | key :: keys => do
      let data ← key.marshalBinary
      let rest ← marshalBinaries keys
      return data ++ rest

/-! ## Signing and verifying -/

def Scheme.signWith (opts : Option SignatureOpts) : Scheme P → PrivateKey P → Bytes → Go Bytes
  | .base algo, .base key, message =>
      if P.privAlgo key = algo then
        match opts with
        | none => .ok (P.sign key message)
        | some opts => P.signOpts opts key message
      else crash "sign: wrong key type"
  | .base _, .product _, _ => crash "sign: wrong key type"
  | .product _, .base _, _ => crash "interface conversion"
  | .product schemes, .product keys, message => signAll schemes keys message
where
  signAll : List (Scheme P) → List (PrivateKey P) → Bytes → Go Bytes
  | [], _, _ => .ok []
  | _ :: _, [], _ => crash "index out of range"
  | scheme :: schemes, key :: keys, message => do
      let signature ← scheme.signWith opts key message
      let rest ← signAll schemes keys message
      return signature ++ rest

/-- `Sign` with nil options. -/
def Scheme.sign : Scheme P → PrivateKey P → Bytes → Go Bytes := Scheme.signWith none

/--
`Verify` of a product checks the total length and then every component's
segment.  The source declares `offset` before the loop and never advances it,
so every segment starts at the front of the signature.
-/
def Scheme.verifyWith (opts : Option SignatureOpts) :
    Scheme P → PublicKey P → Bytes → Bytes → Go Bool
  | .base algo, .base key, message, signature =>
      if P.pubAlgo key = algo then
        match opts with
        | none => .ok (P.verify key message signature)
        | some opts => P.verifyOpts opts key message signature
      else crash "verify: wrong key type"
  | .base _, .product _, _, _ => crash "verify: wrong key type"
  | .product schemes, key, message, signature =>
      if signature.length ≠ Scheme.size.sizes P.signatureSize schemes then
        .ok false
      else
        match key with
        | .base _ => crash "interface conversion"
        | .product keys => verifyAll schemes keys message signature 0
where
  verifyAll : List (Scheme P) → List (PublicKey P) → Bytes → Bytes → Nat → Go Bool
  | [], _, _, _, _ => .ok true
  | _ :: _, [], _, _, _ => crash "index out of range"
  | scheme :: schemes, key :: keys, message, signature, offset => do
      let segment ← slice signature offset (offset + scheme.signatureSize)
      let accepted ← scheme.verifyWith opts key message segment
      if accepted then verifyAll schemes keys message signature offset
      else return false

/-- `Verify` with nil options. -/
def Scheme.verify : Scheme P → PublicKey P → Bytes → Bytes → Go Bool := Scheme.verifyWith none

/-! ## Unmarshalling keys -/

def Scheme.unmarshalBinaryPublicKey : Scheme P → Bytes → Go (PublicKey P)
  | .base algo, data => do
      let key ← P.unmarshalPub algo data
      return .base key
  | .product schemes, data =>
      let want := Scheme.size.sizes P.publicKeySize schemes
      if data.length ≠ want then
        fail s!"wrong size for public key. HAVE:{data.length} WANT:{want}"
      else do
        let keys ← unmarshalAll schemes data 0
        return .product keys
where
  unmarshalAll : List (Scheme P) → Bytes → Nat → Go (List (PublicKey P))
  | [], _, _ => .ok []
  | scheme :: schemes, data, offset => do
      let part ← slice data offset (offset + scheme.publicKeySize)
      let key ← scheme.unmarshalBinaryPublicKey part
      let keys ← unmarshalAll schemes data (offset + scheme.publicKeySize)
      return key :: keys

/--
The private-key loop cuts segments of `PublicKeySize` bytes and never advances
`offset`.
-/
def Scheme.unmarshalBinaryPrivateKey : Scheme P → Bytes → Go (PrivateKey P)
  | .base algo, data => do
      let key ← P.unmarshalPriv algo data
      return .base key
  | .product schemes, data =>
      let want := Scheme.size.sizes P.privateKeySize schemes
      if data.length ≠ want then
        fail s!"wrong size for private key. HAVE:{data.length} WANT:{want}"
      else do
        let keys ← unmarshalAll schemes data 0
        return .product keys
where
  unmarshalAll : List (Scheme P) → Bytes → Nat → Go (List (PrivateKey P))
  | [], _, _ => .ok []
  | scheme :: schemes, data, offset => do
      let part ← slice data offset (offset + scheme.publicKeySize)
      let key ← scheme.unmarshalBinaryPrivateKey part
      let keys ← unmarshalAll schemes data offset
      return key :: keys

end Inet256.Crypto
