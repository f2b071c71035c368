import Inet256.Crypto.SignProduct
import Mathlib.Data.List.AList

/-!
# Public key infrastructure

A `PKI` names a set of signature schemes.  Keys are serialised behind a
length-prefixed tag naming their scheme, and an address is the hash of a
serialised public key.
-/

namespace Inet256

open Inet256.Foundation
open Inet256.Crypto

variable {P : Primitives}

abbrev ID := List.Vector UInt8 32

abbrev Addr := ID

/-- The size of the largest message that a node sends or receives. -/
def mtu : Nat := 2 ^ 16 - 1

/-- Reads up to 32 bytes, leaving the rest of the address zero. -/
def idFromBytes (x : Bytes) : ID := copyTo 32 x

def ascii (text : String) : Bytes :=
  text.toList.map fun char => UInt8.ofNat char.toNat

abbrev Tag := Bytes

structure PKI (P : Primitives) where
  default : Tag
  schemes : AList fun _ : Tag => Scheme P

def signAlgoEd25519 : Tag := ascii "ed25519"

def signAlgoDilithium2 : Tag := ascii "dilithium2"

def signAlgoProduct (tags : List Tag) : Tag :=
  ascii "(" ++ (ascii " ").intercalate (ascii "product" :: tags) ++ ascii ")"

def privateSuffix : Tag := ascii ".private"

def defaultPKI (P : Primitives) : PKI P where
  default := signAlgoEd25519
  schemes :=
    ⟨[⟨signAlgoEd25519, .base P.ed25519⟩,
      ⟨signAlgoDilithium2, .base P.dilithium2⟩,
      ⟨signAlgoProduct [signAlgoEd25519, signAlgoDilithium2],
        .product [.base P.ed25519, .base P.dilithium2]⟩], by
      change [signAlgoEd25519, signAlgoDilithium2,
        signAlgoProduct [signAlgoEd25519, signAlgoDilithium2]].Nodup
      decide⟩

/-! ## Tags -/

def PKI.findTag (pki : PKI P) (target : Scheme P) : Go Tag :=
  match (pki.schemes.entries.filter fun entry =>
      entry.2.deepEqual target).map Sigma.fst with
  | [] => fail s!"no scheme found for {target.text} :: {target.type}"
  | [tag] => .ok tag
  | _ :: _ :: _ => fail s!"multiple schemes found for {target.text} :: {target.type}"

def writeTag (out : Bytes) (tag : Tag) : Bytes :=
  out ++ leBytes 2 tag.length ++ tag

def readTag (data : Bytes) : Go (Tag × Bytes) :=
  if data.length < 2 then fail "too short to be INET256 key"
  else
    let tagLen := leValue (data.take 2)
    let data := data.drop 2
    if data.length < tagLen then
      fail s!"too short to contain type tag of len {tagLen}"
    else .ok (data.take tagLen, data.drop tagLen)

theorem readTag_writeTag {tag : Tag} (h : tag.length < 2 ^ 16) (rest : Bytes) :
    readTag (writeTag [] tag ++ rest) = .ok (tag, rest) := by
  have hlength : leValue (leBytes 2 tag.length) = tag.length :=
    leValue_leBytes (by simpa using h)
  have hword : (leBytes 2 tag.length).length = 2 := leBytes_length 2 _
  have htake : (leBytes 2 tag.length ++ (tag ++ rest)).take 2 =
      leBytes 2 tag.length := by
    rw [List.take_append_of_le_length hword.ge, List.take_of_length_le hword.le]
  have hdrop : (leBytes 2 tag.length ++ (tag ++ rest)).drop 2 = tag ++ rest := by
    rw [List.drop_append_of_le_length hword.ge, List.drop_of_length_le hword.le,
      List.nil_append]
  simp only [writeTag, List.nil_append, List.append_assoc]
  have hshort : ¬ (leBytes 2 tag.length ++ (tag ++ rest)).length < 2 := by
    rw [List.length_append, hword]
    omega
  rw [readTag, if_neg hshort]
  simp [htake, hdrop, hlength]

theorem PKI.lookup_of_findTag {pki : PKI P} {target : Scheme P} {tag : Tag}
    (h : pki.findTag target = .ok tag) :
    pki.schemes.lookup tag = some target := by
  unfold PKI.findTag at h
  split at h
  · cases h
  · next found hfound =>
      cases h
      obtain ⟨entry, hentry, rfl⟩ : ∃ entry ∈ pki.schemes.entries.filter
          (fun entry => entry.2.deepEqual target), entry.1 = tag := by
        apply List.mem_map.mp
        rw [hfound]
        exact List.mem_singleton_self tag
      obtain ⟨hmem, hequal⟩ := List.mem_filter.mp hentry
      obtain ⟨key, scheme⟩ := entry
      obtain rfl := (Scheme.deepEqual_iff scheme target).mp hequal
      exact AList.mem_lookup_iff.mpr hmem
  · cases h

/-! ## Keys on the wire -/

def PKI.marshalPublicKey (pki : PKI P) (out : Bytes) (key : PublicKey P) :
    Go Bytes := do
  let tag ← pki.findTag key.scheme
  let data ← key.marshalBinary
  return writeTag out tag ++ data

def PKI.parsePublicKey (pki : PKI P) (data : Bytes) : Go (PublicKey P) := do
  let (tag, data) ← readTag data
  match pki.schemes.lookup tag with
  | none => fail s!"unknown algorithm {showBytes tag}"
  | some scheme => scheme.unmarshalBinaryPublicKey data

def PKI.marshalPrivateKey (pki : PKI P) (out : Bytes) (key : PrivateKey P) :
    Go Bytes := do
  let tag ← pki.findTag key.scheme
  let data ← key.marshalBinary
  return writeTag out (tag ++ privateSuffix) ++ data

def PKI.parsePrivateKey (pki : PKI P) (data : Bytes) : Go (PrivateKey P) := do
  let (tag, data) ← readTag data
  if privateSuffix.isSuffixOf tag then
    -- the map is read without checking that the tag is present
    match pki.schemes.lookup (tag.take (tag.length - privateSuffix.length)) with
    | none => crash "nil pointer dereference"
    | some scheme => scheme.unmarshalBinaryPrivateKey data
  else fail s!"not a private key. type={showBytes tag}"

/-- An error result that the caller turns into a panic. -/
def mustReturn {α : Type} : Go α → Go α
  | .error (.error text) => crash text
  | .error (.panic text) => crash text
  | .ok value => .ok value

@[simp] theorem mustReturn_eq_ok {α : Type} {call : Go α} {value : α} :
    mustReturn call = .ok value ↔ call = .ok value := by
  cases call with
  | ok result => simp [mustReturn]
  | error fault => cases fault <;> simp [mustReturn, crash]

def PKI.newID (pki : PKI P) (key : PublicKey P) : Go ID := do
  let data ← mustReturn (pki.marshalPublicKey [] key)
  return sum256 P none data

def newID (key : PublicKey P) : Go ID := (defaultPKI P).newID key

def parsePublicKey (data : Bytes) : Go (PublicKey P) :=
  (defaultPKI P).parsePublicKey data

def marshalPublicKey (out : Bytes) (key : PublicKey P) : Go Bytes :=
  mustReturn ((defaultPKI P).marshalPublicKey out key)

def parsePrivateKey (data : Bytes) : Go (PrivateKey P) :=
  (defaultPKI P).parsePrivateKey data

def marshalPrivateKey (out : Bytes) (key : PrivateKey P) : Go Bytes :=
  mustReturn ((defaultPKI P).marshalPrivateKey out key)

/--
The documented behaviour of the base schemes' key codecs: a public key that
was marshalled is unmarshalled again by its own scheme.
-/
structure LawfulKeys (P : Primitives) : Prop where
  unmarshal_marshal : ∀ key data, P.marshalPub key = .ok data →
    P.unmarshalPub (P.pubAlgo key) data = .ok key

theorem PKI.parsePublicKey_of_marshal {pki : PKI P} {key : PublicKey P}
    {data : Bytes}
    (htag : ∀ tag, pki.findTag key.scheme = .ok tag → tag.length < 2 ^ 16)
    (hcodec : ∀ body, key.marshalBinary = .ok body →
      key.scheme.unmarshalBinaryPublicKey body = .ok key)
    (h : pki.marshalPublicKey [] key = .ok data) :
    pki.parsePublicKey data = .ok key := by
  obtain ⟨tag, hfind, h⟩ := Go.bind_eq_ok.mp h
  obtain ⟨body, hbody, h⟩ := Go.bind_eq_ok.mp h
  cases h
  unfold PKI.parsePublicKey
  rw [readTag_writeTag (htag tag hfind)]
  simp only [Go.ok_bind, PKI.lookup_of_findTag hfind]
  exact hcodec body hbody

/-! ## The default PKI -/

theorem defaultPKI_lookup_cases {tag : Tag} {scheme : Scheme P}
    (h : (defaultPKI P).schemes.lookup tag = some scheme) :
    (tag = signAlgoEd25519 ∧ scheme = .base P.ed25519) ∨
    (tag = signAlgoDilithium2 ∧ scheme = .base P.dilithium2) ∨
    (tag = signAlgoProduct [signAlgoEd25519, signAlgoDilithium2] ∧
      scheme = .product [.base P.ed25519, .base P.dilithium2]) := by
  have hmem := AList.mem_lookup_iff.mp h
  simpa [defaultPKI] using hmem

/-- A product key has no tag: its `Scheme` is not the registered product. -/
theorem defaultPKI_findTag_ne_product {keys : List (PublicKey P)} {tag : Tag} :
    (defaultPKI P).findTag (PublicKey.product keys).scheme ≠ .ok tag := by
  intro h
  have hlookup := PKI.lookup_of_findTag h
  rcases defaultPKI_lookup_cases hlookup with ⟨-, h⟩ | ⟨-, h⟩ | ⟨-, h⟩ <;>
    simp [PublicKey.scheme] at h

theorem newID_product (keys : List (PublicKey P)) :
    ∃ text, newID (.product keys : PublicKey P) = crash text := by
  unfold newID PKI.newID PKI.marshalPublicKey
  cases h : (defaultPKI P).findTag (PublicKey.product keys).scheme with
  | ok tag => exact absurd h defaultPKI_findTag_ne_product
  | error fault =>
      cases fault with
      | error text => exact ⟨text, rfl⟩
      | panic text => exact ⟨text, rfl⟩

theorem defaultPKI_tag_length {target : Scheme P} {tag : Tag}
    (h : (defaultPKI P).findTag target = .ok tag) : tag.length < 2 ^ 16 := by
  rcases defaultPKI_lookup_cases (PKI.lookup_of_findTag h) with
    ⟨rfl, -⟩ | ⟨rfl, -⟩ | ⟨rfl, -⟩ <;> decide

theorem parsePublicKey_marshalPublicKey (laws : LawfulKeys P) {key : PublicKey P}
    {data : Bytes} (h : marshalPublicKey [] key = .ok data) :
    parsePublicKey data = .ok key := by
  have hmarshal := mustReturn_eq_ok.mp h
  cases key with
  | base key =>
      refine PKI.parsePublicKey_of_marshal (fun tag => defaultPKI_tag_length)
        (fun body hbody => ?_) hmarshal
      simp only [PublicKey.scheme, Scheme.unmarshalBinaryPublicKey,
        laws.unmarshal_marshal key body hbody, Go.ok_bind, Go.pure_eq_ok]
  | product keys =>
      obtain ⟨tag, hfind, -⟩ := Go.bind_eq_ok.mp hmarshal
      exact absurd hfind defaultPKI_findTag_ne_product

/-! ## Private keys -/

/-- The same for private keys, which are of the algorithm of their public key. -/
structure LawfulPrivateKeys (P : Primitives) : Prop where
  algo : ∀ key, P.pubAlgo (P.toPublic key) = P.privAlgo key
  marshal : ∀ key, ∃ data, P.marshalPriv key = .ok data
  unmarshal_marshal : ∀ key data, P.marshalPriv key = .ok data →
    P.unmarshalPriv (P.privAlgo key) data = .ok key

theorem PKI.parsePrivateKey_writeTag {pki : PKI P} {tag : Tag} {scheme : Scheme P}
    (htag : (tag ++ privateSuffix).length < 2 ^ 16) (hscheme : pki.schemes.lookup tag = some scheme)
    (data : Bytes) :
    pki.parsePrivateKey (writeTag [] (tag ++ privateSuffix) ++ data) =
      scheme.unmarshalBinaryPrivateKey data := by
  have hsuffix : privateSuffix.isSuffixOf (tag ++ privateSuffix) = true := by
    simp [List.isSuffixOf_iff_suffix]
  have htake : (tag ++ privateSuffix).take
      ((tag ++ privateSuffix).length - privateSuffix.length) = tag := by
    simp
  have hlookup : pki.schemes.lookup ((tag ++ privateSuffix).take
      ((tag ++ privateSuffix).length - privateSuffix.length)) = some scheme := by
    rw [htake, hscheme]
  unfold PKI.parsePrivateKey
  simp only [readTag_writeTag htag, Go.ok_bind, hsuffix, if_true, hlookup]

/-- A private key that has an address is parsed from what it is marshalled to. -/
theorem parsePrivateKey_of_newID (laws : LawfulPrivateKeys P) {key : PrivateKey P} {id : ID}
    (h : newID key.public = .ok id) :
    ∃ data, marshalPrivateKey [] key = .ok data ∧ parsePrivateKey data = .ok key := by
  cases key with
  | product keys =>
      obtain ⟨text, hcrash⟩ := newID_product (PrivateKey.public.publics keys)
      rw [PrivateKey.public, hcrash] at h
      cases h
  | base key =>
      obtain ⟨data, hdata, -⟩ := Go.bind_eq_ok.mp h
      obtain ⟨tag, hfind, -⟩ := Go.bind_eq_ok.mp (mustReturn_eq_ok.mp hdata)
      simp only [PrivateKey.public, PublicKey.scheme, laws.algo] at hfind
      obtain ⟨body, hbody⟩ := laws.marshal key
      have hlookup := PKI.lookup_of_findTag hfind
      have htag : (tag ++ privateSuffix).length < 2 ^ 16 := by
        rcases defaultPKI_lookup_cases hlookup with ⟨rfl, -⟩ | ⟨rfl, -⟩ | ⟨rfl, -⟩ <;> decide
      refine ⟨writeTag [] (tag ++ privateSuffix) ++ body, ?_, ?_⟩
      · simp only [marshalPrivateKey, mustReturn_eq_ok, PKI.marshalPrivateKey, PrivateKey.scheme,
          hfind, PrivateKey.marshalBinary, hbody, Go.ok_bind, Go.pure_eq_ok]
      · rw [parsePrivateKey, PKI.parsePrivateKey_writeTag htag hlookup]
        simp [Scheme.unmarshalBinaryPrivateKey, laws.unmarshal_marshal key body hbody]

end Inet256
