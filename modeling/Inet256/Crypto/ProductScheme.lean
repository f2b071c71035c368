import Inet256.Crypto.SignProduct
import Inet256.Foundation.Segments

/-!
# What becomes of the components of a product

Signatures and keys of a product are the concatenations of those of its
components.  Public keys are cut up again at running offsets.  Verifying and
reading private keys cut every segment from the front, and private keys in the
sizes of public ones, so that what is true of the components carries over only
for certain sizes.  The sizes are the only thing it depends on: for all others
there are components for which it fails.
-/

namespace Inet256.Crypto

open Inet256.Foundation

variable {P : Primitives}

/-- A component's scheme with a pair of keys. -/
structure Component (P : Primitives) where
  scheme : Scheme P
  priv : PrivateKey P
  pub : PublicKey P

namespace Component

def productScheme (cs : List (Component P)) : Scheme P := .product (cs.map scheme)

def productSigner (cs : List (Component P)) : PrivateKey P := .product (cs.map priv)

def productVerifier (cs : List (Component P)) : PublicKey P := .product (cs.map pub)

theorem size_le_sizes (baseSize : P.Algo → Nat) {cs : List (Component P)} {c : Component P}
    (hc : c ∈ cs) : c.scheme.size baseSize ≤ Scheme.size.sizes baseSize (cs.map scheme) := by
  induction cs with
  | nil => exact absurd hc List.not_mem_nil
  | cons head cs ih =>
      rw [List.map_cons, Scheme.size.sizes]
      rcases List.mem_cons.mp hc with rfl | htail
      · exact Nat.le_add_right _ _
      · exact Nat.le_add_left_of_le (ih htail)

/-- Segments of the components' sizes make up the size of the product. -/
theorem length_flatten {baseSize : P.Algo → Nat} {cs : List (Component P)}
    {segments : List Bytes}
    (h : List.Forall₂ (fun c segment => segment.length = c.scheme.size baseSize) cs segments) :
    segments.flatten.length = Scheme.size.sizes baseSize (cs.map scheme) := by
  induction h with
  | nil => rfl
  | cons hhead _ ih =>
      rw [List.flatten_cons, List.length_append, ih, hhead, List.map_cons, Scheme.size.sizes]

theorem map_length_eq {size : Component P → Nat} {cs : List (Component P)}
    {segments : List Bytes}
    (h : List.Forall₂ (fun c segment => segment.length = size c) cs segments) :
    segments.map List.length = cs.map size := by
  induction h with
  | nil => rfl
  | cons hhead _ ih => rw [List.map_cons, List.map_cons, ih, hhead]

/-- Segments of which at most one is not empty are all found at the front. -/
theorem forall₂_take_flatten {size : Component P → Nat} {cs : List (Component P)}
    {segments : List Bytes}
    (h : List.Forall₂ (fun c segment => segment.length = size c) cs segments)
    (hone : AtMostOneNonzero (cs.map size)) :
    List.Forall₂ (fun c segment => segments.flatten.take (size c) = segment) cs segments := by
  rw [← map_length_eq h] at hone
  refine (forall₂_of_forall_mem h (take_flatten_of_mem hone)).imp ?_
  rintro c segment ⟨hlength, htake⟩
  rwa [hlength] at htake

/-! ## Signatures -/

variable (opts : Option SignatureOpts)

/-- `Verify` accepts what `Sign` returns, which has the declared size. -/
structure Correct (c : Component P) : Prop where
  verifies : ∀ message signature, ∃ accepted,
    c.scheme.verifyWith opts c.pub message signature = .ok accepted
  accepts : ∀ message, ∃ signature, c.scheme.signWith opts c.priv message = .ok signature ∧
    signature.length = c.scheme.signatureSize ∧
    c.scheme.verifyWith opts c.pub message signature = .ok true

def Accepts (message : Bytes) (c : Component P) (signature : Bytes) : Prop :=
  c.scheme.verifyWith opts c.pub message signature = .ok true

/--
The product accepts its own signatures, and of a concatenation it accepts what
every component accepts of its segment.
-/
structure Complete (cs : List (Component P)) : Prop where
  accepts : ∀ message, ∃ signature,
    (productScheme cs).signWith opts (productSigner cs) message = .ok signature ∧
    (productScheme cs).verifyWith opts (productVerifier cs) message signature = .ok true
  conjunction : ∀ message segments,
    List.Forall₂ (fun c segment => segment.length = c.scheme.signatureSize) cs segments →
    ∃ accepted,
      (productScheme cs).verifyWith opts (productVerifier cs) message segments.flatten =
        .ok accepted ∧
      (accepted = true ↔ List.Forall₂ (Accepts opts message) cs segments)

variable {opts}

theorem signAll_eq {cs : List (Component P)} (h : ∀ c ∈ cs, c.Correct opts) (message : Bytes) :
    ∃ segments, Scheme.signWith.signAll opts (cs.map scheme) (cs.map priv) message =
        .ok segments.flatten ∧
      List.Forall₂ (fun c segment => segment.length = c.scheme.signatureSize) cs segments ∧
      List.Forall₂ (Accepts opts message) cs segments := by
  let all (cs : List (Component P)) :=
    Scheme.signWith.signAll opts (cs.map scheme) (cs.map priv) message
  have hcons : ∀ (c : Component P) cs signature rest,
      c.scheme.signWith opts c.priv message = .ok signature → all cs = .ok rest →
      all (c :: cs) = .ok (signature ++ rest) := by
    intro c cs signature rest hsign hrest
    simp only [all, List.map_cons, Scheme.signWith.signAll, hsign, Go.ok_bind] at hrest ⊢
    rw [hrest]
    rfl
  obtain ⟨segments, hall, hsegments⟩ :=
    exists_segments all rfl hcons fun c hc => (h c hc).accepts message
  exact ⟨segments, hall, hsegments.imp fun _ _ hc => hc.1, hsegments.imp fun _ _ hc => hc.2⟩

/-- Every component is given the front of the signature. -/
theorem verifyAll_eq {cs : List (Component P)} (h : ∀ c ∈ cs, c.Correct opts) (message : Bytes)
    {signature : Bytes} (hsize : ∀ c ∈ cs, c.scheme.signatureSize ≤ signature.length) :
    ∃ accepted, Scheme.verifyWith.verifyAll opts (cs.map scheme) (cs.map pub) message signature 0 =
        .ok accepted ∧
      (accepted = true ↔
        ∀ c ∈ cs, c.Accepts opts message (signature.take c.scheme.signatureSize)) := by
  induction cs with
  | nil => exact ⟨true, rfl, by simp⟩
  | cons c cs ih =>
      have hslice : slice signature 0 (0 + c.scheme.signatureSize) =
          .ok (signature.take c.scheme.signatureSize) := by
        rw [Nat.zero_add, slice_zero (hsize c (by simp))]
      obtain ⟨first, hfirst⟩ := (h c (by simp)).verifies message
        (signature.take c.scheme.signatureSize)
      obtain ⟨rest, hrest, hiff⟩ := ih (fun other hother => h other (by simp [hother]))
        fun other hother => hsize other (by simp [hother])
      simp only [List.map_cons, Scheme.verifyWith.verifyAll, hslice, hfirst, Go.ok_bind]
      cases first with
      | false => exact ⟨false, rfl, by simp [Accepts, hfirst]⟩
      | true => exact ⟨rest, hrest, by simp [hiff, Accepts, hfirst]⟩

/-- What `Verify` of a product decides, for segments of any sizes. -/
theorem verifyWith_flatten {cs : List (Component P)} (h : ∀ c ∈ cs, c.Correct opts)
    (message : Bytes) {segments : List Bytes}
    (hlengths : List.Forall₂ (fun c segment => segment.length = c.scheme.signatureSize) cs
      segments) :
    ∃ accepted,
      (productScheme cs).verifyWith opts (productVerifier cs) message segments.flatten =
        .ok accepted ∧
      (accepted = true ↔ ∀ c ∈ cs,
        c.Accepts opts message (segments.flatten.take c.scheme.signatureSize)) := by
  have hlength := length_flatten hlengths
  have hsize : ∀ c ∈ cs, c.scheme.signatureSize ≤ segments.flatten.length := by
    intro c hc
    rw [hlength]
    exact size_le_sizes P.signatureSize hc
  obtain ⟨accepted, hverify, hiff⟩ := verifyAll_eq h message hsize
  refine ⟨accepted, ?_, hiff⟩
  simp only [productScheme, productVerifier, Scheme.verifyWith, hlength, ne_eq,
    not_true_eq_false, if_false]
  exact hverify

theorem complete_of_atMostOneNonzero {cs : List (Component P)} (h : ∀ c ∈ cs, c.Correct opts)
    (hone : AtMostOneNonzero (cs.map fun c => c.scheme.signatureSize)) : Complete opts cs := by
  have hconjunction : ∀ message segments,
      List.Forall₂ (fun c segment => segment.length = c.scheme.signatureSize) cs segments →
      ∃ accepted,
        (productScheme cs).verifyWith opts (productVerifier cs) message segments.flatten =
          .ok accepted ∧
        (accepted = true ↔ List.Forall₂ (Accepts opts message) cs segments) := by
    intro message segments hlengths
    obtain ⟨accepted, hverify, hiff⟩ := verifyWith_flatten h message hlengths
    refine ⟨accepted, hverify, hiff.trans ?_⟩
    exact (forall₂_iff_forall_mem (forall₂_take_flatten hlengths hone) fun _ _ hc => hc).symm
  refine ⟨fun message => ?_, hconjunction⟩
  obtain ⟨segments, hsign, hlengths, hall⟩ := signAll_eq h message
  obtain ⟨accepted, hverify, hiff⟩ := hconjunction message segments hlengths
  rw [hiff.mpr hall] at hverify
  exact ⟨segments.flatten, hsign, hverify⟩

/-! ## Keys -/

/-- The component's own codecs round-trip at the declared sizes. -/
structure RoundTrips (c : Component P) : Prop where
  pub : ∃ data, c.pub.marshalBinary = .ok data ∧ data.length = c.scheme.publicKeySize ∧
    c.scheme.unmarshalBinaryPublicKey data = .ok c.pub
  priv : ∃ data, c.priv.marshalBinary = .ok data ∧ data.length = c.scheme.privateKeySize ∧
    c.scheme.unmarshalBinaryPrivateKey data = .ok c.priv

def PublicSurvives (cs : List (Component P)) : Prop :=
  ∃ data, (productVerifier cs).marshalBinary = .ok data ∧
    (productScheme cs).unmarshalBinaryPublicKey data = .ok (productVerifier cs)

def PrivateSurvives (cs : List (Component P)) : Prop :=
  ∃ data, (productSigner cs).marshalBinary = .ok data ∧
    (productScheme cs).unmarshalBinaryPrivateKey data = .ok (productSigner cs)

theorem marshalBinaries_pub {cs : List (Component P)} (h : ∀ c ∈ cs, c.RoundTrips) :
    ∃ segments, PublicKey.marshalBinary.marshalBinaries (cs.map pub) = .ok segments.flatten ∧
      List.Forall₂ (fun c segment => segment.length = c.scheme.publicKeySize) cs segments ∧
      List.Forall₂ (fun c segment => c.scheme.unmarshalBinaryPublicKey segment = .ok c.pub) cs
        segments := by
  let all (cs : List (Component P)) := PublicKey.marshalBinary.marshalBinaries (cs.map pub)
  have hcons : ∀ (c : Component P) cs data rest, c.pub.marshalBinary = .ok data →
      all cs = .ok rest → all (c :: cs) = .ok (data ++ rest) := by
    intro c cs data rest hdata hrest
    simp only [all, List.map_cons, PublicKey.marshalBinary.marshalBinaries, hdata,
      Go.ok_bind] at hrest ⊢
    rw [hrest]
    rfl
  obtain ⟨segments, hall, hsegments⟩ := exists_segments all rfl hcons fun c hc => (h c hc).pub
  exact ⟨segments, hall, hsegments.imp fun _ _ hc => hc.1, hsegments.imp fun _ _ hc => hc.2⟩

theorem marshalBinaries_priv {cs : List (Component P)} (h : ∀ c ∈ cs, c.RoundTrips) :
    ∃ segments, PrivateKey.marshalBinary.marshalBinaries (cs.map priv) = .ok segments.flatten ∧
      List.Forall₂ (fun c segment => segment.length = c.scheme.privateKeySize) cs segments ∧
      List.Forall₂ (fun c segment => c.scheme.unmarshalBinaryPrivateKey segment = .ok c.priv) cs
        segments := by
  let all (cs : List (Component P)) := PrivateKey.marshalBinary.marshalBinaries (cs.map priv)
  have hcons : ∀ (c : Component P) cs data rest, c.priv.marshalBinary = .ok data →
      all cs = .ok rest → all (c :: cs) = .ok (data ++ rest) := by
    intro c cs data rest hdata hrest
    simp only [all, List.map_cons, PrivateKey.marshalBinary.marshalBinaries, hdata,
      Go.ok_bind] at hrest ⊢
    rw [hrest]
    rfl
  obtain ⟨segments, hall, hsegments⟩ := exists_segments all rfl hcons fun c hc => (h c hc).priv
  exact ⟨segments, hall, hsegments.imp fun _ _ hc => hc.1, hsegments.imp fun _ _ hc => hc.2⟩

/-- At running offsets every segment is read by its own component. -/
theorem unmarshalAll_pub {cs : List (Component P)} {segments : List Bytes}
    (hlengths : List.Forall₂ (fun c segment => segment.length = c.scheme.publicKeySize) cs
      segments)
    (hread : List.Forall₂ (fun c segment => c.scheme.unmarshalBinaryPublicKey segment = .ok c.pub)
      cs segments) (front : Bytes) :
    Scheme.unmarshalBinaryPublicKey.unmarshalAll (cs.map scheme) (front ++ segments.flatten)
      front.length = .ok (cs.map pub) := by
  induction hlengths generalizing front with
  | nil => rfl
  | @cons c segment cs segments hlength _ ih =>
      obtain ⟨hhead, htail⟩ := List.forall₂_cons.mp hread
      have hslice := slice_append front segment segments.flatten rfl
        (show front.length + segment.length = front.length + c.scheme.publicKeySize by rw [hlength])
      have hnext := ih htail (front ++ segment)
      rw [List.append_assoc, List.length_append, hlength] at hnext
      simp only [List.map_cons, List.flatten_cons, Scheme.unmarshalBinaryPublicKey.unmarshalAll,
        hslice, hhead, hnext, Go.ok_bind, Go.pure_eq_ok]

/-- Every private key is read from the front, in the size of a public key. -/
theorem unmarshalAll_priv_iff {cs : List (Component P)} {data : Bytes} :
    Scheme.unmarshalBinaryPrivateKey.unmarshalAll (cs.map scheme) data 0 = .ok (cs.map priv) ↔
      ∀ c ∈ cs, c.scheme.publicKeySize ≤ data.length ∧
        c.scheme.unmarshalBinaryPrivateKey (data.take c.scheme.publicKeySize) = .ok c.priv := by
  induction cs with
  | nil => simp [Scheme.unmarshalBinaryPrivateKey.unmarshalAll]
  | cons c cs ih =>
      rw [List.forall_mem_cons, ← ih, List.map_cons, List.map_cons,
        Scheme.unmarshalBinaryPrivateKey.unmarshalAll, Nat.zero_add]
      by_cases hsize : c.scheme.publicKeySize ≤ data.length
      · rw [slice_zero hsize, Go.ok_bind]
        simp only [Go.bind_eq_ok, Go.pure_eq_ok, Except.ok.injEq, List.cons.injEq]
        constructor
        · rintro ⟨key, hkey, keys, hkeys, rfl, rfl⟩
          exact ⟨⟨hsize, hkey⟩, hkeys⟩
        · rintro ⟨⟨-, hkey⟩, hkeys⟩
          exact ⟨c.priv, hkey, cs.map priv, hkeys, rfl, rfl⟩
      · rw [slice_of_length_lt 0 (Nat.not_le.mp hsize)]
        constructor
        · intro hcrash
          cases hcrash
        · rintro ⟨⟨hfits, -⟩, -⟩
          exact absurd hfits hsize

theorem publicSurvives {cs : List (Component P)} (h : ∀ c ∈ cs, c.RoundTrips) :
    PublicSurvives cs := by
  obtain ⟨segments, hmarshal, hlengths, hread⟩ := marshalBinaries_pub h
  refine ⟨segments.flatten, hmarshal, ?_⟩
  have hall := unmarshalAll_pub hlengths hread []
  rw [List.nil_append, List.length_nil] at hall
  rw [productScheme, Scheme.unmarshalBinaryPublicKey]
  simp only [length_flatten hlengths, ne_eq, not_true_eq_false, if_false, hall, Go.ok_bind,
    Go.pure_eq_ok, productVerifier]

/-- What reading a product's private key comes to, for keys of any sizes. -/
theorem privateSurvives_iff {cs : List (Component P)} {segments : List Bytes}
    (hmarshal : PrivateKey.marshalBinary.marshalBinaries (cs.map priv) = .ok segments.flatten)
    (hlengths : List.Forall₂ (fun c segment => segment.length = c.scheme.privateKeySize) cs
      segments) :
    PrivateSurvives cs ↔ ∀ c ∈ cs, c.scheme.publicKeySize ≤ segments.flatten.length ∧
      c.scheme.unmarshalBinaryPrivateKey (segments.flatten.take c.scheme.publicKeySize) =
        .ok c.priv := by
  rw [← unmarshalAll_priv_iff]
  have hunmarshal : (productScheme cs).unmarshalBinaryPrivateKey segments.flatten =
      .ok (productSigner cs) ↔ Scheme.unmarshalBinaryPrivateKey.unmarshalAll (cs.map scheme)
        segments.flatten 0 = .ok (cs.map priv) := by
    rw [productScheme, Scheme.unmarshalBinaryPrivateKey]
    simp only [length_flatten hlengths, ne_eq, not_true_eq_false, if_false, Go.bind_eq_ok,
      Go.pure_eq_ok, productSigner, Except.ok.injEq, PrivateKey.product.injEq]
    constructor
    · rintro ⟨keys, hkeys, rfl⟩
      exact hkeys
    · intro hkeys
      exact ⟨_, hkeys, rfl⟩
  rw [← hunmarshal]
  constructor
  · rintro ⟨data, hdata, hread⟩
    rw [productSigner, PrivateKey.marshalBinary, hmarshal] at hdata
    cases hdata
    exact hread
  · intro hread
    exact ⟨segments.flatten, hmarshal, hread⟩

def keySizes (c : Component P) : Nat × Nat := (c.scheme.publicKeySize, c.scheme.privateKeySize)

/-- Private keys are as long as public ones, and at most one of them is not empty. -/
def SizesSurvive (sizes : List (Nat × Nat)) : Prop :=
  (∀ size ∈ sizes, size.1 = size.2) ∧ AtMostOneNonzero (sizes.map Prod.snd)

theorem privateSurvives_of_sizes {cs : List (Component P)} (h : ∀ c ∈ cs, c.RoundTrips)
    (hsizes : SizesSurvive (cs.map keySizes)) : PrivateSurvives cs := by
  obtain ⟨segments, hmarshal, hlengths, hread⟩ := marshalBinaries_priv h
  have hone : AtMostOneNonzero (cs.map fun c => c.scheme.privateKeySize) := by
    have hsnd := hsizes.2
    rwa [List.map_map] at hsnd
  have htake := forall₂_take_flatten hlengths hone
  have hall := (forall₂_iff_forall_mem htake fun _ _ hc => hc).mp hread
  rw [privateSurvives_iff hmarshal hlengths]
  intro c hc
  have hsame : c.scheme.publicKeySize = c.scheme.privateKeySize :=
    hsizes.1 c.keySizes (List.mem_map_of_mem hc)
  rw [hsame]
  refine ⟨?_, hall c hc⟩
  rw [length_flatten hlengths]
  exact size_le_sizes P.privateKeySize hc

/-! ## Components that depend on nothing but their sizes -/

/-- The one key of an algorithm, with the byte that all its data consists of. -/
structure ConstantKey where
  marked : Bool
  signatureSize : Nat
  publicKeySize : Nat
  privateKeySize : Nat
  deriving DecidableEq

def ConstantKey.data (key : ConstantKey) (n : Nat) : Bytes :=
  List.replicate n (if key.marked then 1 else 0)

def constantPrimitives : Primitives where
  shake256 _ n := copyTo n []
  cshake256 _ _ _ n := List.replicate n 0
  Algo := ConstantKey
  Pub := ConstantKey
  Priv := ConstantKey
  ed25519 := ⟨false, 64, 32, 64⟩
  dilithium2 := ⟨true, 2420, 1312, 2528⟩
  pubAlgo := id
  privAlgo := id
  toPublic := id
  sign key _ := key.data key.signatureSize
  verify key _ signature := signature == key.data key.signatureSize
  signOpts _ key _ := .ok (key.data key.signatureSize)
  verifyOpts _ key _ signature := .ok (signature == key.data key.signatureSize)
  signatureSize := ConstantKey.signatureSize
  publicKeySize := ConstantKey.publicKeySize
  privateKeySize := ConstantKey.privateKeySize
  algoText key := if key.marked then "marked" else "plain"
  algoType _ := "constant"
  marshalPub key := .ok (key.data key.publicKeySize)
  unmarshalPub key data :=
    if data = key.data key.publicKeySize then .ok key else fail "wrong public key"
  marshalPriv key := .ok (key.data key.privateKeySize)
  unmarshalPriv key data :=
    if data = key.data key.privateKeySize then .ok key else fail "wrong private key"

def constant (key : ConstantKey) : Component constantPrimitives where
  scheme := .base key
  priv := .base key
  pub := .base key

theorem constant_accepts (opts : Option SignatureOpts) (key : ConstantKey)
    (message signature : Bytes) :
    (constant key).Accepts opts message signature ↔ signature = key.data key.signatureSize := by
  cases opts <;> simp [Accepts, constant, Scheme.verifyWith, constantPrimitives]

theorem constant_correct (opts : Option SignatureOpts) (key : ConstantKey) :
    (constant key).Correct opts where
  verifies message signature := by
    cases opts <;> simp [constant, Scheme.verifyWith, constantPrimitives]
  accepts message := by
    refine ⟨key.data key.signatureSize, ?_, ?_, (constant_accepts opts key message _).mpr rfl⟩
    · cases opts <;> simp [constant, Scheme.signWith, constantPrimitives]
    · exact List.length_replicate

theorem constant_roundTrips (key : ConstantKey) : (constant key).RoundTrips where
  pub := ⟨key.data key.publicKeySize, rfl, List.length_replicate, by
    simp [constant, Scheme.unmarshalBinaryPublicKey, constantPrimitives]⟩
  priv := ⟨key.data key.privateKeySize, rfl, List.length_replicate, by
    simp [constant, Scheme.unmarshalBinaryPrivateKey, constantPrimitives]⟩

/-- A constant that is marked is not found in front of one that is not. -/
theorem take_flatten_ne {before rest : List ConstantKey} {first second : ConstantKey}
    {size : ConstantKey → Nat} (hbefore : ∀ key ∈ before, size key = 0)
    (hfirst : size first ≠ 0) (hunmarked : first.marked = false)
    (hsecond : size second ≠ 0) (hmarked : second.marked = true) :
    ((before ++ first :: rest).map fun key => key.data (size key)).flatten.take (size second) ≠
      second.data (size second) := by
  have hempty : (before.map fun key => key.data (size key)).flatten = [] := by
    rw [List.flatten_eq_nil_iff]
    intro segment hsegment
    obtain ⟨key, hkey, rfl⟩ := List.mem_map.mp hsegment
    rw [ConstantKey.data, hbefore key hkey, List.replicate_zero]
  obtain ⟨m, hm⟩ := Nat.exists_eq_succ_of_ne_zero hfirst
  obtain ⟨n, hn⟩ := Nat.exists_eq_succ_of_ne_zero hsecond
  rw [List.map_append, List.flatten_append, hempty, List.nil_append, List.map_cons,
    List.flatten_cons, hm, hn]
  simp [ConstantKey.data, hunmarked, hmarked, List.replicate_succ]

theorem not_complete_constant {before rest : List ConstantKey} (first second : ConstantKey)
    (hbefore : ∀ key ∈ before, key.signatureSize = 0) (hfirst : first.signatureSize ≠ 0)
    (hunmarked : first.marked = false) (hmem : second ∈ rest)
    (hsecond : second.signatureSize ≠ 0) (hmarked : second.marked = true)
    (opts : Option SignatureOpts) :
    ¬ Complete opts ((before ++ first :: rest).map constant) := by
  intro hcomplete
  have hcorrect : ∀ c ∈ (before ++ first :: rest).map constant, c.Correct opts := by
    exact List.forall_mem_map.mpr fun key _ => constant_correct opts key
  have hlengths : List.Forall₂ (fun (c : Component constantPrimitives) (segment : Bytes) =>
      segment.length = c.scheme.signatureSize) ((before ++ first :: rest).map constant)
      ((before ++ first :: rest).map fun key => key.data key.signatureSize) :=
    forall₂_map_map _ fun key _ => List.length_replicate
  have haccepts : List.Forall₂ (Accepts opts []) ((before ++ first :: rest).map constant)
      ((before ++ first :: rest).map fun key => key.data key.signatureSize) :=
    forall₂_map_map _ fun key _ => (constant_accepts opts key [] _).mpr rfl
  -- a product that accepts the segments makes every component accept the front of them
  obtain ⟨accepted, hverify, hconjunction⟩ := hcomplete.conjunction [] _ hlengths
  obtain ⟨accepted', hverify', hfronts⟩ := verifyWith_flatten hcorrect [] hlengths
  rw [hverify] at hverify'
  cases hverify'
  have hfront := hfronts.mp (hconjunction.mpr haccepts) (constant second)
    (List.mem_map_of_mem (by simp [hmem]))
  exact take_flatten_ne hbefore hfirst hunmarked hsecond hmarked
    ((constant_accepts opts second [] _).mp hfront)

/-- Completeness depends on the sizes of the signatures, and needs all but one to be zero. -/
theorem product_complete_iff (sizes : List Nat) :
    (∀ (P : Primitives) (opts : Option SignatureOpts) (cs : List (Component P)),
      (cs.map fun c => c.scheme.signatureSize) = sizes → (∀ c ∈ cs, c.Correct opts) →
      Complete opts cs) ↔ AtMostOneNonzero sizes := by
  constructor
  · intro hcomplete
    by_contra hnot
    rw [← List.map_id sizes] at hnot
    obtain ⟨before, first, rest, second, rfl, hbefore, hfirst, hmem, hsecond⟩ :=
      exists_two_nonzero hnot
    let unmarked (n : Nat) : ConstantKey := ⟨false, n, 0, 0⟩
    let marked (n : Nat) : ConstantKey := ⟨true, n, 0, 0⟩
    have hzero : ∀ key ∈ before.map unmarked, key.signatureSize = 0 := by
      intro key hkey
      obtain ⟨n, hn, rfl⟩ := List.mem_map.mp hkey
      exact hbefore n hn
    have hfails := not_complete_constant (unmarked first) (marked second) hzero hfirst rfl
      (List.mem_map_of_mem hmem) hsecond rfl none
    apply hfails
    apply hcomplete
    · simp only [List.map_append, List.map_cons, List.map_map]
      exact congrArg₂ (· ++ first :: ·) (List.map_id before) (List.map_id rest)
    · exact List.forall_mem_map.mpr fun key _ => constant_correct none key
  · rintro hone P opts cs rfl hcorrect
    exact complete_of_atMostOneNonzero hcorrect hone

/-- Two correct components with signatures of one byte: the second is given that of the first. -/
theorem product_not_complete :
    let cs := [constant ⟨false, 1, 0, 0⟩, constant ⟨true, 1, 0, 0⟩]
    (∀ c ∈ cs, c.Correct none) ∧
      (productScheme cs).signWith none (productSigner cs) [] = .ok [0, 1] ∧
      (productScheme cs).verifyWith none (productVerifier cs) [] [0, 1] = .ok false ∧
      ¬ Complete none cs := by
  intro cs
  refine ⟨?_, rfl, rfl, ?_⟩
  · intro c hc
    rcases List.mem_pair.mp hc with rfl | rfl
    · exact constant_correct none _
    · exact constant_correct none _
  · intro hcomplete
    obtain ⟨signature, hsign, hverify⟩ := hcomplete.accepts []
    have hsigned : signature = [0, 1] := by
      cases hsign
      rfl
    subst hsigned
    cases hverify

theorem front_of_privateSurvives {keys : List ConstantKey}
    (h : PrivateSurvives (keys.map constant)) : ∀ key ∈ keys,
      key.publicKeySize = key.privateKeySize ∧
      (keys.map fun k => k.data k.privateKeySize).flatten.take key.privateKeySize =
        key.data key.privateKeySize := by
  have hmarshal : ∀ keys : List ConstantKey,
      PrivateKey.marshalBinary.marshalBinaries ((keys.map constant).map priv) =
        .ok (keys.map fun k => k.data k.privateKeySize).flatten := by
    intro keys
    induction keys with
    | nil => rfl
    | cons key keys ih =>
        simp only [List.map_cons, PrivateKey.marshalBinary.marshalBinaries, ih]
        rfl
  have hlengths : List.Forall₂ (fun (c : Component constantPrimitives) (segment : Bytes) =>
      segment.length = c.scheme.privateKeySize) (keys.map constant)
      (keys.map fun k => k.data k.privateKeySize) :=
    forall₂_map_map _ fun key _ => List.length_replicate
  intro key hkey
  obtain ⟨hfits, hread⟩ := (privateSurvives_iff (hmarshal keys) hlengths).mp h (constant key)
    (List.mem_map_of_mem hkey)
  have hpub : (constant key).scheme.publicKeySize = key.publicKeySize := rfl
  rw [hpub] at hfits hread
  have hfront : (keys.map fun k => k.data k.privateKeySize).flatten.take key.publicKeySize =
      key.data key.privateKeySize := by
    by_contra hne
    have hfails : constantPrimitives.unmarshalPriv key
        ((keys.map fun k => k.data k.privateKeySize).flatten.take key.publicKeySize) =
        fail "wrong private key" := if_neg hne
    simp only [constant, Scheme.unmarshalBinaryPrivateKey, hfails] at hread
    cases hread
  have hlength := congrArg List.length hfront
  rw [List.length_take, Nat.min_eq_left hfits, ConstantKey.data, List.length_replicate] at hlength
  refine ⟨hlength, ?_⟩
  rwa [hlength] at hfront

/-- Public keys survive; private keys do so depending on the sizes of both. -/
theorem product_keys_survive_iff (sizes : List (Nat × Nat)) :
    (∀ (P : Primitives) (cs : List (Component P)), (∀ c ∈ cs, c.RoundTrips) →
      PublicSurvives cs) ∧
    ((∀ (P : Primitives) (cs : List (Component P)), cs.map keySizes = sizes →
      (∀ c ∈ cs, c.RoundTrips) → PublicSurvives cs ∧ PrivateSurvives cs) ↔
      SizesSurvive sizes) := by
  refine ⟨fun P cs h => publicSurvives h, ?_, ?_⟩
  · intro hsurvive
    have hconstant : ∀ keys : List ConstantKey,
        keys.map (fun key => (key.publicKeySize, key.privateKeySize)) = sizes →
        PrivateSurvives (keys.map constant) := by
      intro keys hsizes
      refine (hsurvive constantPrimitives (keys.map constant) ?_ ?_).2
      · rw [List.map_map]
        exact hsizes
      · exact List.forall_mem_map.mpr fun key _ => constant_roundTrips key
    let unmarked (size : Nat × Nat) : ConstantKey := ⟨false, 0, size.1, size.2⟩
    let marked (size : Nat × Nat) : ConstantKey := ⟨true, 0, size.1, size.2⟩
    constructor
    · intro size hsize
      have hsame := hconstant (sizes.map unmarked) (by rw [List.map_map]; exact List.map_id sizes)
      exact (front_of_privateSurvives hsame _ (List.mem_map_of_mem hsize)).1
    · by_contra hnot
      obtain ⟨before, first, rest, second, rfl, hbefore, hfirst, hmem, hsecond⟩ :=
        exists_two_nonzero hnot
      have hzero : ∀ key ∈ before.map unmarked, key.privateKeySize = 0 := by
        intro key hkey
        obtain ⟨size, hsize, rfl⟩ := List.mem_map.mp hkey
        exact hbefore size hsize
      have hsame := hconstant (before.map unmarked ++ unmarked first :: rest.map marked) (by
        simp only [List.map_append, List.map_cons, List.map_map]
        exact congrArg₂ (· ++ first :: ·) (List.map_id before) (List.map_id rest))
      have hfront := (front_of_privateSurvives hsame (marked second)
        (by simp [List.mem_map_of_mem hmem])).2
      exact take_flatten_ne hzero hfirst rfl hsecond rfl hfront
  · rintro hsizes P cs rfl h
    exact ⟨publicSurvives h, privateSurvives_of_sizes h hsizes⟩

/-- One component, whose private key is twice as long as its public key. -/
theorem product_keys_not_survive :
    let cs := [constant ⟨false, 64, 32, 64⟩]
    (∀ c ∈ cs, c.RoundTrips) ∧ PublicSurvives cs ∧ ¬ PrivateSurvives cs := by
  intro cs
  have hround : ∀ c ∈ cs, c.RoundTrips := by
    intro c hc
    rw [List.mem_singleton.mp hc]
    exact constant_roundTrips _
  refine ⟨hround, publicSurvives hround, fun hsurvives => ?_⟩
  let key : ConstantKey := ⟨false, 64, 32, 64⟩
  have hkeys : PrivateSurvives ([key].map constant) := hsurvives
  have hsame : (32 : Nat) = 64 :=
    (front_of_privateSurvives hkeys key (List.mem_singleton_self key)).1
  contradiction

end Component

end Inet256.Crypto
