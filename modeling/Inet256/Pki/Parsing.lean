import Inet256.Pki.Signature

/-!
# Parsing keys from any bytes

Public keys are parsed from any bytes to a key or an error.  A private key's tag
is looked up without a test whether it is there, and its scheme, if it is a
product, cuts the data in the sizes of public keys.
-/

namespace Inet256

open Inet256.Foundation
open Inet256.Crypto

variable {P : Primitives}

/-- The base schemes' own decoders return on any bytes. -/
structure TotalKeys (P : Primitives) : Prop where
  pub : ∀ algo data, Returns (P.unmarshalPub algo data)
  priv : ∀ algo data, Returns (P.unmarshalPriv algo data)

/-! ## Schemes -/

theorem Crypto.Scheme.returns_unmarshalPublics {schemes : List (Scheme P)}
    (hall : ∀ scheme ∈ schemes, ∀ data, Returns (scheme.unmarshalBinaryPublicKey data))
    {data : Bytes} {offset : Nat}
    (hroom : offset + Scheme.size.sizes P.publicKeySize schemes ≤ data.length) :
    Returns (Scheme.unmarshalBinaryPublicKey.unmarshalAll schemes data offset) := by
  induction schemes generalizing offset with
  | nil => simp [Scheme.unmarshalBinaryPublicKey.unmarshalAll]
  | cons scheme schemes ih =>
      obtain ⟨hscheme, hschemes⟩ := List.forall_mem_cons.mp hall
      have hroom' : offset + (scheme.publicKeySize +
          Scheme.size.sizes P.publicKeySize schemes) ≤ data.length := hroom
      have hslice : slice data offset (offset + scheme.publicKeySize) = .ok _ :=
        slice_eq_ok (Nat.le_add_right offset scheme.publicKeySize) (by omega)
      simp only [Scheme.unmarshalBinaryPublicKey.unmarshalAll, hslice, Go.ok_bind,
        returns_bind_iff]
      exact ⟨hscheme _, fun _ _ => ⟨ih hschemes (by omega), by simp⟩⟩

theorem Crypto.Scheme.returns_unmarshalPublic (total : TotalKeys P) :
    ∀ (scheme : Scheme P) (data : Bytes), Returns (scheme.unmarshalBinaryPublicKey data)
  | .base algo, data => by
      rw [Scheme.unmarshalBinaryPublicKey, returns_bind_iff]
      exact ⟨total.pub algo data, by simp⟩
  | .product schemes, data => by
      have hall : ∀ scheme ∈ schemes, ∀ data, Returns (scheme.unmarshalBinaryPublicKey data) :=
        fun scheme _ data => Crypto.Scheme.returns_unmarshalPublic total scheme data
      rw [Scheme.unmarshalBinaryPublicKey]
      split
      · exact returns_fail _
      · next hsize =>
          rw [returns_bind_iff]
          have hroom : 0 + Scheme.size.sizes P.publicKeySize schemes ≤ data.length := by
            rw [Nat.zero_add, not_not.mp hsize]
          exact ⟨Crypto.Scheme.returns_unmarshalPublics hall hroom, by simp⟩

/-- The segments that a product cuts for its components' private keys, until one is refused. -/
def Crypto.Scheme.SegmentsFit : Scheme P → Bytes → Prop
  | .base _, _ => True
  | .product schemes, data =>
      data.length = Scheme.size.sizes P.privateKeySize schemes → allFit schemes data
where
  allFit : List (Scheme P) → Bytes → Prop
  | [], _ => True
  | scheme :: schemes, data =>
      scheme.publicKeySize ≤ data.length ∧
      scheme.SegmentsFit (data.take scheme.publicKeySize) ∧
      ∀ key, scheme.unmarshalBinaryPrivateKey (data.take scheme.publicKeySize) = .ok key →
        allFit schemes data

theorem Crypto.Scheme.returns_unmarshalPrivates_iff {schemes : List (Scheme P)}
    (hall : ∀ scheme ∈ schemes, ∀ data,
      Returns (scheme.unmarshalBinaryPrivateKey data) ↔ scheme.SegmentsFit data)
    (data : Bytes) :
    Returns (Scheme.unmarshalBinaryPrivateKey.unmarshalAll schemes data 0) ↔
      Scheme.SegmentsFit.allFit schemes data := by
  induction schemes with
  | nil => simp [Scheme.unmarshalBinaryPrivateKey.unmarshalAll, Scheme.SegmentsFit.allFit]
  | cons scheme schemes ih =>
      obtain ⟨hscheme, hschemes⟩ := List.forall_mem_cons.mp hall
      rw [Scheme.unmarshalBinaryPrivateKey.unmarshalAll, Scheme.SegmentsFit.allFit, Nat.zero_add]
      by_cases hfits : scheme.publicKeySize ≤ data.length
      · rw [slice_zero hfits, Go.ok_bind, returns_bind_iff, hscheme]
        simp only [hfits, true_and, returns_bind_iff, Go.pure_eq_ok, returns_ok, implies_true,
          and_true, ih hschemes]
      · have hcrash : ¬ Returns (slice data 0 scheme.publicKeySize) := by
          rw [slice_of_length_lt 0 (Nat.not_le.mp hfits)]
          exact not_returns_crash _
        simp only [returns_bind_iff, hcrash, hfits, false_and]

theorem Crypto.Scheme.returns_unmarshalPrivate_iff (total : TotalKeys P) :
    ∀ (scheme : Scheme P) (data : Bytes),
      Returns (scheme.unmarshalBinaryPrivateKey data) ↔ scheme.SegmentsFit data
  | .base algo, data => by
      rw [Scheme.unmarshalBinaryPrivateKey, returns_bind_iff, Scheme.SegmentsFit]
      simp [total.priv algo data]
  | .product schemes, data => by
      have hall : ∀ scheme ∈ schemes, ∀ data,
          Returns (scheme.unmarshalBinaryPrivateKey data) ↔ scheme.SegmentsFit data :=
        fun scheme _ data => Crypto.Scheme.returns_unmarshalPrivate_iff total scheme data
      rw [Scheme.unmarshalBinaryPrivateKey, Scheme.SegmentsFit]
      split
      · next hsize => simp [hsize]
      · next hsize =>
          rw [returns_bind_iff, Crypto.Scheme.returns_unmarshalPrivates_iff hall data]
          simp [not_not.mp hsize]

/-! ## Tags -/

theorem isSuffixOf_privateSuffix_iff {tag : Tag} :
    privateSuffix.isSuffixOf tag = true ↔ ∃ stem, tag = stem ++ privateSuffix := by
  rw [List.isSuffixOf_iff_suffix]
  exact ⟨fun ⟨stem, h⟩ => ⟨stem, h.symm⟩, fun ⟨stem, h⟩ => ⟨stem, h.symm⟩⟩

theorem returns_readTag (data : Bytes) : Returns (readTag data) := by
  unfold readTag
  dsimp only
  split
  · exact returns_fail _
  · split
    · exact returns_fail _
    · exact returns_ok _

/-- A private key's scheme is called whether it is there or not. -/
theorem PKI.parsePrivateKey_of_readTag {pki : PKI P} {data rest : Bytes} {stem : Tag}
    (h : readTag data = .ok (stem ++ privateSuffix, rest)) :
    pki.parsePrivateKey data =
      match pki.schemes.lookup stem with
      | none => crash "nil pointer dereference"
      | some scheme => scheme.unmarshalBinaryPrivateKey rest := by
  have hsuffix : privateSuffix.isSuffixOf (stem ++ privateSuffix) = true :=
    isSuffixOf_privateSuffix_iff.mpr ⟨stem, rfl⟩
  have hstem : (stem ++ privateSuffix).take
      ((stem ++ privateSuffix).length - privateSuffix.length) = stem := by
    simp
  unfold PKI.parsePrivateKey
  rw [h, Go.ok_bind]
  dsimp only
  cases hlookup : pki.schemes.lookup stem with
  | none => rw [if_pos hsuffix, hstem, hlookup]
  | some scheme => rw [if_pos hsuffix, hstem, hlookup]

theorem PKI.parsePrivateKey_of_not_private (pki : PKI P) {data : Bytes}
    (h : ∀ stem rest, readTag data ≠ .ok (stem ++ privateSuffix, rest)) :
    ∃ text, pki.parsePrivateKey data = fail text := by
  unfold PKI.parsePrivateKey
  cases hread : readTag data with
  | error fault =>
      cases fault with
      | error text => exact ⟨text, rfl⟩
      | panic text => exact absurd hread (returns_readTag data text)
  | ok read =>
      obtain ⟨tag, rest⟩ := read
      have hnot : ¬ privateSuffix.isSuffixOf tag = true := by
        intro hsuffix
        obtain ⟨stem, rfl⟩ := isSuffixOf_privateSuffix_iff.mp hsuffix
        exact h stem rest hread
      rw [Go.ok_bind]
      dsimp only
      rw [if_neg hnot]
      exact ⟨_, rfl⟩

/-! ## Keys -/

/-- Both parsers return, and succeed only on a tag that is registered. -/
structure PKI.ParsesKeys (pki : PKI P) (data : Bytes) : Prop where
  publicReturns : Returns (pki.parsePublicKey data)
  privateReturns : Returns (pki.parsePrivateKey data)
  publicRegistered : ∀ key, pki.parsePublicKey data = .ok key →
    ∃ tag rest scheme, readTag data = .ok (tag, rest) ∧ pki.schemes.lookup tag = some scheme
  privateRegistered : ∀ key, pki.parsePrivateKey data = .ok key →
    ∃ tag rest scheme, readTag data = .ok (tag ++ privateSuffix, rest) ∧
      pki.schemes.lookup tag = some scheme

/-- The tag of a private key is registered, with a scheme that stays inside the data. -/
def PKI.PrivateTagRegistered (pki : PKI P) (data : Bytes) : Prop :=
  ∀ tag rest, readTag data = .ok (tag ++ privateSuffix, rest) →
    ∃ scheme, pki.schemes.lookup tag = some scheme ∧ scheme.SegmentsFit rest

theorem PKI.returns_parsePublicKey (total : TotalKeys P) (pki : PKI P) (data : Bytes) :
    Returns (pki.parsePublicKey data) := by
  rw [PKI.parsePublicKey, returns_bind_iff]
  refine ⟨returns_readTag data, ?_⟩
  rintro ⟨tag, rest⟩ -
  dsimp only
  split
  · exact returns_fail _
  · next scheme _ => exact scheme.returns_unmarshalPublic total rest

theorem PKI.registered_of_parsePublicKey {pki : PKI P} {data : Bytes} {key : PublicKey P}
    (h : pki.parsePublicKey data = .ok key) :
    ∃ tag rest scheme, readTag data = .ok (tag, rest) ∧
      pki.schemes.lookup tag = some scheme := by
  obtain ⟨⟨tag, rest⟩, hread, h⟩ := Go.bind_eq_ok.mp h
  dsimp only at h
  split at h
  · cases h
  · next scheme hscheme => exact ⟨tag, rest, scheme, hread, hscheme⟩

theorem PKI.registered_of_parsePrivateKey {pki : PKI P} {data : Bytes} {key : PrivateKey P}
    (h : pki.parsePrivateKey data = .ok key) :
    ∃ tag rest scheme, readTag data = .ok (tag ++ privateSuffix, rest) ∧
      pki.schemes.lookup tag = some scheme := by
  by_cases hprivate : ∃ stem rest, readTag data = .ok (stem ++ privateSuffix, rest)
  · obtain ⟨stem, rest, hread⟩ := hprivate
    rw [PKI.parsePrivateKey_of_readTag hread] at h
    split at h
    · cases h
    · next scheme hscheme => exact ⟨stem, rest, scheme, hread, hscheme⟩
  · push Not at hprivate
    obtain ⟨text, hfail⟩ := pki.parsePrivateKey_of_not_private hprivate
    rw [hfail] at h
    cases h

theorem PKI.returns_parsePrivateKey_iff (total : TotalKeys P) (pki : PKI P) (data : Bytes) :
    Returns (pki.parsePrivateKey data) ↔ pki.PrivateTagRegistered data := by
  by_cases hprivate : ∃ stem rest, readTag data = .ok (stem ++ privateSuffix, rest)
  · obtain ⟨stem, rest, hread⟩ := hprivate
    have hcondition : pki.PrivateTagRegistered data ↔
        ∃ scheme, pki.schemes.lookup stem = some scheme ∧ scheme.SegmentsFit rest := by
      constructor
      · intro h
        exact h stem rest hread
      · intro h tag rest' hread'
        rw [hread, Except.ok.injEq, Prod.mk.injEq, List.append_left_inj] at hread'
        rwa [← hread'.1, ← hread'.2]
    rw [hcondition, PKI.parsePrivateKey_of_readTag hread]
    cases hscheme : pki.schemes.lookup stem with
    | none => simp
    | some scheme => simp [scheme.returns_unmarshalPrivate_iff total rest]
  · push Not at hprivate
    obtain ⟨text, hfail⟩ := pki.parsePrivateKey_of_not_private hprivate
    rw [hfail]
    refine iff_of_true (returns_fail text) ?_
    intro tag rest hread
    exact absurd hread (hprivate tag rest)

/-- Parsing is total exactly on the data whose private tag, if it has one, is registered. -/
theorem PKI.parses_keys_iff (total : TotalKeys P) (pki : PKI P) (data : Bytes) :
    pki.ParsesKeys data ↔ pki.PrivateTagRegistered data := by
  rw [← PKI.returns_parsePrivateKey_iff total]
  constructor
  · intro h
    exact h.privateReturns
  · intro h
    exact ⟨pki.returns_parsePublicKey total data, h,
      fun _ => PKI.registered_of_parsePublicKey, fun _ => PKI.registered_of_parsePrivateKey⟩

theorem samplePrimitives_totalKeys : TotalKeys samplePrimitives where
  pub algo data := by
    intro text h
    simp only [samplePrimitives] at h
    split at h <;> cases h
  priv algo data := by
    intro text h
    simp only [samplePrimitives] at h
    split at h <;> cases h

/-- A marshalled key of a registered scheme. -/
theorem parses_keys_sample :
    (defaultPKI samplePrimitives).ParsesKeys
      (writeTag [] (signAlgoEd25519 ++ privateSuffix) ++ [7]) := by
  refine (PKI.parses_keys_iff samplePrimitives_totalKeys _ _).mpr ?_
  intro tag rest hread
  have htag : (signAlgoEd25519 ++ privateSuffix).length < 2 ^ 16 := by decide
  rw [readTag_writeTag htag, Except.ok.injEq, Prod.mk.injEq, List.append_left_inj] at hread
  rw [← hread.1, ← hread.2]
  exact ⟨.base samplePrimitives.ed25519, rfl, trivial⟩

/-- A tag that is nothing but the suffix. -/
theorem not_parses_keys :
    (defaultPKI samplePrimitives).parsePrivateKey (writeTag [] privateSuffix) =
        crash "nil pointer dereference" ∧
      ¬ (defaultPKI samplePrimitives).ParsesKeys (writeTag [] privateSuffix) := by
  have hcrash : (defaultPKI samplePrimitives).parsePrivateKey (writeTag [] privateSuffix) =
      crash "nil pointer dereference" := rfl
  refine ⟨hcrash, fun h => ?_⟩
  exact h.privateReturns _ hcrash

end Inet256
