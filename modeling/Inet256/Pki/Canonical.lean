import Inet256.Pki.Signature

/-!
# Keys have one serialisation

The frame around a serialised key is the tag of its scheme.  When no scheme is
registered twice the tag is a function of the key, and when every scheme's own
codec is a bijection the whole serialisation is one: a registered key has
exactly one byte string that denotes it.
-/

namespace Inet256

open Inet256.Foundation
open Inet256.Crypto

variable {P : Primitives}

/-! ## Tags -/

theorem writeTag_append (out : Bytes) (tag : Tag) :
    writeTag out tag = out ++ writeTag [] tag := by
  simp [writeTag]

/-- Reading a tag takes the written tag off the front. -/
theorem eq_writeTag_of_readTag {data rest : Bytes} {tag : Tag}
    (h : readTag data = .ok (tag, rest)) : data = writeTag [] tag ++ rest := by
  unfold readTag at h
  split at h
  · cases h
  · next hlong =>
      dsimp only at h
      split at h
      · cases h
      · next htag =>
          cases h
          have hword : (data.take 2).length = 2 := by
            rw [List.length_take]
            omega
          have hlength : ((data.drop 2).take (leValue (data.take 2))).length =
              leValue (data.take 2) := by
            rw [List.length_take]
            omega
          have hbytes : leBytes 2 (leValue (data.take 2)) = data.take 2 := by
            have hwrite := leBytes_leValue (data.take 2)
            rwa [hword] at hwrite
          simp only [writeTag, List.nil_append, hlength, hbytes, List.append_assoc]
          rw [List.take_append_drop, List.take_append_drop]

/-- No scheme is registered under two tags. -/
def PKI.SchemesDistinct (pki : PKI P) : Prop :=
  ∀ first second scheme, pki.schemes.lookup first = some scheme →
    pki.schemes.lookup second = some scheme → first = second

/-- The two-byte length holds every tag together with the private suffix. -/
def PKI.ShortTags (pki : PKI P) : Prop :=
  ∀ tag scheme, pki.schemes.lookup tag = some scheme →
    (tag ++ privateSuffix).length < 2 ^ 16

theorem PKI.ShortTags.tag_lt {pki : PKI P} (hshort : pki.ShortTags) {tag : Tag}
    {scheme : Scheme P} (h : pki.schemes.lookup tag = some scheme) : tag.length < 2 ^ 16 := by
  have hlength := hshort tag scheme h
  rw [List.length_append] at hlength
  omega

theorem PKI.findTag_of_lookup {pki : PKI P} (hdistinct : pki.SchemesDistinct) {tag : Tag}
    {scheme : Scheme P} (h : pki.schemes.lookup tag = some scheme) :
    pki.findTag scheme = .ok tag := by
  -- the entries that match are exactly the one under the tag
  have hmatching : pki.schemes.entries.filter (fun entry => entry.2.deepEqual scheme) =
      [⟨tag, scheme⟩] := by
    have hnodup : pki.schemes.entries.Nodup := List.NodupKeys.nodup pki.schemes.nodupKeys
    apply List.perm_singleton.mp
    apply (List.perm_ext_iff_of_nodup (hnodup.filter _) (List.nodup_singleton _)).mpr
    rintro ⟨other, found⟩
    rw [List.mem_filter, List.mem_singleton, Scheme.deepEqual_iff]
    constructor
    · rintro ⟨hmem, hequal⟩
      dsimp only at hequal
      subst hequal
      rw [hdistinct other tag found (AList.mem_lookup_iff.mpr hmem) h]
    · intro hentry
      cases hentry
      exact ⟨AList.mem_lookup_iff.mp h, rfl⟩
  rw [PKI.findTag, hmatching]
  rfl

/-! ## Public keys -/

/--
The scheme's own codec is a bijection between its keys, those whose `Scheme()`
it is, and the byte strings it accepts as one of them.
-/
structure Crypto.Scheme.BijectivePublic (scheme : Scheme P) : Prop where
  marshal : ∀ key : PublicKey P, key.scheme = scheme → ∃ data, key.marshalBinary = .ok data ∧
    scheme.unmarshalBinaryPublicKey data = .ok key
  unmarshal : ∀ data key, scheme.unmarshalBinaryPublicKey data = .ok key →
    key.scheme = scheme → key.marshalBinary = .ok data

/-- The string parses to the key, and its tag names the key's `Scheme()`. -/
def PKI.DenotesPublic (pki : PKI P) (data : Bytes) (key : PublicKey P) : Prop :=
  pki.parsePublicKey data = .ok key ∧
    ∃ tag rest, readTag data = .ok (tag, rest) ∧ pki.schemes.lookup tag = some key.scheme

theorem PKI.marshalPublicKey_denotes {pki : PKI P} (hdistinct : pki.SchemesDistinct)
    (hshort : pki.ShortTags) {key : PublicKey P} {tag : Tag}
    (htag : pki.schemes.lookup tag = some key.scheme) (hcodec : key.scheme.BijectivePublic)
    (out : Bytes) :
    ∃ data, pki.marshalPublicKey out key = .ok (out ++ data) ∧ pki.DenotesPublic data key := by
  have hfind := PKI.findTag_of_lookup hdistinct htag
  obtain ⟨body, hbody, hkey⟩ := hcodec.marshal key rfl
  have hread := readTag_writeTag (hshort.tag_lt htag) body
  refine ⟨writeTag [] tag ++ body, ?_, ?_, tag, body, hread, htag⟩
  · simp only [PKI.marshalPublicKey, hfind, hbody, Go.ok_bind, Go.pure_eq_ok]
    rw [writeTag_append, List.append_assoc]
  · simp only [PKI.parsePublicKey, hread, Go.ok_bind, htag, hkey]

theorem PKI.marshalPublicKey_of_denotes {pki : PKI P} (hdistinct : pki.SchemesDistinct)
    {key : PublicKey P} {data : Bytes} (h : pki.DenotesPublic data key)
    (hcodec : key.scheme.BijectivePublic) : pki.marshalPublicKey [] key = .ok data := by
  obtain ⟨hparse, tag, rest, hread, htag⟩ := h
  simp only [PKI.parsePublicKey, hread, Go.ok_bind, htag] at hparse
  have hbody := hcodec.unmarshal rest key hparse rfl
  simp only [PKI.marshalPublicKey, PKI.findTag_of_lookup hdistinct htag, hbody, Go.ok_bind,
    Go.pure_eq_ok]
  rw [eq_writeTag_of_readTag hread]

/-! ## Private keys -/

structure Crypto.Scheme.BijectivePrivate (scheme : Scheme P) : Prop where
  marshal : ∀ key : PrivateKey P, key.scheme = scheme → ∃ data, key.marshalBinary = .ok data ∧
    scheme.unmarshalBinaryPrivateKey data = .ok key
  unmarshal : ∀ data key, scheme.unmarshalBinaryPrivateKey data = .ok key →
    key.scheme = scheme → key.marshalBinary = .ok data

def PKI.DenotesPrivate (pki : PKI P) (data : Bytes) (key : PrivateKey P) : Prop :=
  pki.parsePrivateKey data = .ok key ∧
    ∃ tag rest, readTag data = .ok (tag ++ privateSuffix, rest) ∧
      pki.schemes.lookup tag = some key.scheme

theorem PKI.marshalPrivateKey_denotes {pki : PKI P} (hdistinct : pki.SchemesDistinct)
    (hshort : pki.ShortTags) {key : PrivateKey P} {tag : Tag}
    (htag : pki.schemes.lookup tag = some key.scheme) (hcodec : key.scheme.BijectivePrivate)
    (out : Bytes) :
    ∃ data, pki.marshalPrivateKey out key = .ok (out ++ data) ∧ pki.DenotesPrivate data key := by
  have hfind := PKI.findTag_of_lookup hdistinct htag
  obtain ⟨body, hbody, hkey⟩ := hcodec.marshal key rfl
  have hlength := hshort tag _ htag
  refine ⟨writeTag [] (tag ++ privateSuffix) ++ body, ?_, ?_, tag, body,
    readTag_writeTag hlength body, htag⟩
  · simp only [PKI.marshalPrivateKey, hfind, hbody, Go.ok_bind, Go.pure_eq_ok]
    rw [writeTag_append, List.append_assoc]
  · rw [PKI.parsePrivateKey_writeTag hlength htag, hkey]

theorem PKI.marshalPrivateKey_of_denotes {pki : PKI P} (hdistinct : pki.SchemesDistinct)
    (hshort : pki.ShortTags) {key : PrivateKey P} {data : Bytes}
    (h : pki.DenotesPrivate data key) (hcodec : key.scheme.BijectivePrivate) :
    pki.marshalPrivateKey [] key = .ok data := by
  obtain ⟨hparse, tag, rest, hread, htag⟩ := h
  have hdata := eq_writeTag_of_readTag hread
  rw [hdata, PKI.parsePrivateKey_writeTag (hshort tag _ htag) htag] at hparse
  have hbody := hcodec.unmarshal rest key hparse rfl
  simp only [PKI.marshalPrivateKey, PKI.findTag_of_lookup hdistinct htag, hbody, Go.ok_bind,
    Go.pure_eq_ok]
  rw [hdata]

/-! ## The codec is canonical -/

/--
Marshalling appends the one string that denotes the key, that string is what a
key with it marshals to, and the address is its hash.
-/
structure PKI.CanonicalPublic (pki : PKI P) (key : PublicKey P) : Prop where
  marshal : ∀ out, ∃ data, pki.marshalPublicKey out key = .ok (out ++ data) ∧
    pki.DenotesPublic data key
  parse : ∀ data, pki.DenotesPublic data key → pki.marshalPublicKey [] key = .ok data
  unique : ∀ first second, pki.DenotesPublic first key → pki.DenotesPublic second key →
    first = second
  newID : ∀ data, pki.DenotesPublic data key → pki.newID key = .ok (sum256 P none data)

structure PKI.CanonicalPrivate (pki : PKI P) (key : PrivateKey P) : Prop where
  marshal : ∀ out, ∃ data, pki.marshalPrivateKey out key = .ok (out ++ data) ∧
    pki.DenotesPrivate data key
  parse : ∀ data, pki.DenotesPrivate data key → pki.marshalPrivateKey [] key = .ok data
  unique : ∀ first second, pki.DenotesPrivate first key → pki.DenotesPrivate second key →
    first = second

theorem PKI.keyCodec_canonical (pki : PKI P) (hdistinct : pki.SchemesDistinct)
    (hshort : pki.ShortTags)
    (hcodecs : ∀ tag scheme, pki.schemes.lookup tag = some scheme →
      scheme.BijectivePublic ∧ scheme.BijectivePrivate) :
    (∀ (tag : Tag) (key : PublicKey P), pki.schemes.lookup tag = some key.scheme →
      pki.CanonicalPublic key) ∧
    (∀ (tag : Tag) (key : PrivateKey P), pki.schemes.lookup tag = some key.scheme →
      pki.CanonicalPrivate key) := by
  constructor
  · intro tag key htag
    have hcodec := (hcodecs tag _ htag).1
    have hparse : ∀ data, pki.DenotesPublic data key →
        pki.marshalPublicKey [] key = .ok data :=
      fun data hdata => PKI.marshalPublicKey_of_denotes hdistinct hdata hcodec
    constructor
    · exact PKI.marshalPublicKey_denotes hdistinct hshort htag hcodec
    · exact hparse
    · intro first second hfirst hsecond
      have hequal := (hparse first hfirst).symm.trans (hparse second hsecond)
      exact Except.ok.inj hequal
    · intro data hdata
      simp only [PKI.newID, hparse data hdata, mustReturn, Go.ok_bind, Go.pure_eq_ok]
  · intro tag key htag
    have hcodec := (hcodecs tag _ htag).2
    have hparse : ∀ data, pki.DenotesPrivate data key →
        pki.marshalPrivateKey [] key = .ok data :=
      fun data hdata => PKI.marshalPrivateKey_of_denotes hdistinct hshort hdata hcodec
    constructor
    · exact PKI.marshalPrivateKey_denotes hdistinct hshort htag hcodec
    · exact hparse
    · intro first second hfirst hsecond
      have hequal := (hparse first hfirst).symm.trans (hparse second hsecond)
      exact Except.ok.inj hequal

/-! ## The default PKI

`Scheme()` of a product key is the product of no schemes.  A PKI that does not
register it meets the assumption as soon as the base algorithms do.
-/

structure BijectiveKeys (P : Primitives) : Prop where
  marshalPub : ∀ key, ∃ data, P.marshalPub key = .ok data ∧
    P.unmarshalPub (P.pubAlgo key) data = .ok key
  unmarshalPub : ∀ data key, P.unmarshalPub (P.pubAlgo key) data = .ok key →
    P.marshalPub key = .ok data
  marshalPriv : ∀ key, ∃ data, P.marshalPriv key = .ok data ∧
    P.unmarshalPriv (P.privAlgo key) data = .ok key
  unmarshalPriv : ∀ data key, P.unmarshalPriv (P.privAlgo key) data = .ok key →
    P.marshalPriv key = .ok data

theorem BijectiveKeys.publicKeys (laws : BijectiveKeys P) {scheme : Scheme P}
    (hscheme : scheme ≠ .product []) : scheme.BijectivePublic := by
  constructor
  · intro key hkey
    cases key with
    | product keys => exact absurd hkey.symm hscheme
    | base key =>
        subst hkey
        obtain ⟨data, hdata, hread⟩ := laws.marshalPub key
        refine ⟨data, hdata, ?_⟩
        simp only [PublicKey.scheme, Scheme.unmarshalBinaryPublicKey, hread, Go.ok_bind,
          Go.pure_eq_ok]
  · intro data key hread hkey
    cases key with
    | product keys => exact absurd hkey.symm hscheme
    | base key =>
        subst hkey
        obtain ⟨found, hfound, hequal⟩ := Go.bind_eq_ok.mp hread
        cases hequal
        exact laws.unmarshalPub data key hfound

theorem BijectiveKeys.privateKeys (laws : BijectiveKeys P) {scheme : Scheme P}
    (hscheme : scheme ≠ .product []) : scheme.BijectivePrivate := by
  constructor
  · intro key hkey
    cases key with
    | product keys => exact absurd hkey.symm hscheme
    | base key =>
        subst hkey
        obtain ⟨data, hdata, hread⟩ := laws.marshalPriv key
        refine ⟨data, hdata, ?_⟩
        simp only [PrivateKey.scheme, Scheme.unmarshalBinaryPrivateKey, hread, Go.ok_bind,
          Go.pure_eq_ok]
  · intro data key hread hkey
    cases key with
    | product keys => exact absurd hkey.symm hscheme
    | base key =>
        subst hkey
        obtain ⟨found, hfound, hequal⟩ := Go.bind_eq_ok.mp hread
        cases hequal
        exact laws.unmarshalPriv data key hfound

theorem defaultPKI_bijective (laws : BijectiveKeys P) {tag : Tag} {scheme : Scheme P}
    (h : (defaultPKI P).schemes.lookup tag = some scheme) :
    scheme.BijectivePublic ∧ scheme.BijectivePrivate := by
  have hscheme : scheme ≠ .product [] := by
    rcases defaultPKI_lookup_cases h with ⟨-, rfl⟩ | ⟨-, rfl⟩ | ⟨-, rfl⟩ <;> simp
  exact ⟨laws.publicKeys hscheme, laws.privateKeys hscheme⟩

theorem defaultPKI_lookup_ed25519 :
    (defaultPKI P).schemes.lookup signAlgoEd25519 = some (.base P.ed25519) :=
  AList.mem_lookup_iff.mpr (by simp [defaultPKI])

theorem defaultPKI_lookup_dilithium2 :
    (defaultPKI P).schemes.lookup signAlgoDilithium2 = some (.base P.dilithium2) :=
  AList.mem_lookup_iff.mpr (by simp [defaultPKI])

theorem defaultPKI_schemesDistinct (hne : P.ed25519 ≠ P.dilithium2) :
    (defaultPKI P).SchemesDistinct := by
  intro first second scheme hfirst hsecond
  have hsecond := defaultPKI_lookup_cases hsecond
  rcases defaultPKI_lookup_cases hfirst with ⟨rfl, rfl⟩ | ⟨rfl, rfl⟩ | ⟨rfl, rfl⟩
  · simp only [Scheme.base.injEq, hne, and_false, and_true, reduceCtorEq, or_false] at hsecond
    exact hsecond.symm
  · simp only [Scheme.base.injEq, hne.symm, and_false, and_true, reduceCtorEq, or_false,
      false_or] at hsecond
    exact hsecond.symm
  · simp only [and_false, and_true, reduceCtorEq, false_or] at hsecond
    exact hsecond.symm

theorem defaultPKI_shortTags : (defaultPKI P).ShortTags := by
  intro tag scheme h
  rcases defaultPKI_lookup_cases h with ⟨rfl, -⟩ | ⟨rfl, -⟩ | ⟨rfl, -⟩ <;> decide

theorem samplePrimitives_bijectiveKeys : BijectiveKeys samplePrimitives where
  marshalPub key := ⟨[key.2], rfl, rfl⟩
  unmarshalPub data key h := by
    match data, h with
    | [byte], h =>
        rw [← Except.ok.inj h]
        rfl
  marshalPriv key := ⟨[key.2], rfl, rfl⟩
  unmarshalPriv data key h := by
    match data, h with
    | [byte], h =>
        rw [← Except.ok.inj h]
        rfl

theorem keyCodec_canonical_sample :
    (defaultPKI samplePrimitives).CanonicalPublic (.base (sampleVerifier true 7)) ∧
    (defaultPKI samplePrimitives).CanonicalPrivate (.base (sampleSigner 7)) := by
  have hcanonical := PKI.keyCodec_canonical (defaultPKI samplePrimitives)
    (defaultPKI_schemesDistinct (by decide)) defaultPKI_shortTags
    (fun _ _ h => defaultPKI_bijective samplePrimitives_bijectiveKeys h)
  exact ⟨hcanonical.1 signAlgoDilithium2 _ defaultPKI_lookup_dilithium2,
    hcanonical.2 signAlgoEd25519 _ defaultPKI_lookup_ed25519⟩

end Inet256
