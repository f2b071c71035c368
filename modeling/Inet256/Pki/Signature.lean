import Inet256.Pki.Codec

/-!
# Signatures under a context

`Sign` and `Verify` hash the message under the signature context and hand 512
bytes of output to the scheme the key names.  Both go through the shared
extensible output function and both dispatch on the key's own `Scheme`, so the
properties of this file are decided by those two calls.
-/

namespace Inet256

open Inet256.Foundation
open Inet256.Crypto

variable {P : Primitives}

abbrev SigCtx := ME256

def sigCtxString (P : Primitives) (text : Bytes) : SigCtx := sum256 P none text

def sigInput (P : Primitives) (sigCtx : SigCtx) (msg : Bytes) : Bytes :=
  xof P (some sigCtx) msg 512

def sign (sigCtx : Option SigCtx) (key : PrivateKey P) (msg out : Bytes) :
    Go Bytes :=
  match sigCtx with
  | none => crash "sigCtx cannot be nil"
  | some sigCtx => do
      let signature ← key.scheme.sign key (sigInput P sigCtx msg)
      return out ++ signature

def verify (sigCtx : Option SigCtx) (key : PublicKey P) (msg signature : Bytes) :
    Go Bool :=
  match sigCtx with
  | none => crash "sigCtx cannot be nil"
  | some sigCtx => key.scheme.verify key (sigInput P sigCtx msg) signature

@[simp] theorem sigInput_eq (sigCtx : SigCtx) (msg : Bytes) :
    sigInput P sigCtx msg = P.cshake256 [] sigCtx.toList [] 512 := rfl

theorem sign_base (sigCtx : SigCtx) (key : P.Priv) (msg out : Bytes) :
    sign (some sigCtx) (.base key) msg out =
      .ok (out ++ P.sign key (sigInput P sigCtx msg)) := by
  simp [sign, PrivateKey.scheme, Scheme.sign, Scheme.signWith]

theorem verify_base (sigCtx : SigCtx) (key : P.Pub) (msg signature : Bytes) :
    verify (some sigCtx) (.base key) msg signature =
      .ok (P.verify key (sigInput P sigCtx msg) signature) := by
  simp [verify, PublicKey.scheme, Scheme.verify, Scheme.verifyWith]

/-! ## Binding to the context and the message -/

/--
The symbolic reading of the primitives: the output of CSHAKE256 determines its
customisation string and the bytes it absorbed, and a base scheme accepts
exactly the input that was signed with the matching private key.
-/
structure IdealSignatures (P : Primitives) : Prop where
  cshake_injective : ∀ {custom custom' absorbed absorbed' : Bytes},
    P.cshake256 [] custom absorbed 512 = P.cshake256 [] custom' absorbed' 512 →
      custom = custom' ∧ absorbed = absorbed'
  accepts_iff : ∀ key input input',
    P.verify (P.toPublic key) input' (P.sign key input) = true ↔ input' = input

def verifySigned (key : PrivateKey P) (signCtx verifyCtx : SigCtx)
    (signed checked : Bytes) : Go Bool := do
  let signature ← sign (some signCtx) key signed []
  verify (some verifyCtx) key.public checked signature

/-- A signature verifies exactly for the context and message it was made for. -/
def SignatureBinds (key : P.Priv) (signCtx verifyCtx : SigCtx)
    (signed checked : Bytes) : Prop :=
  verifySigned (.base key : PrivateKey P) signCtx verifyCtx signed checked = .ok true ↔
    signCtx = verifyCtx ∧ signed = checked

theorem verifySigned_base_iff (ideal : IdealSignatures P) (key : P.Priv)
    (signCtx verifyCtx : SigCtx) (signed checked : Bytes) :
    verifySigned (.base key : PrivateKey P) signCtx verifyCtx signed checked = .ok true ↔
      signCtx = verifyCtx := by
  unfold verifySigned
  rw [sign_base, Go.ok_bind, List.nil_append, PrivateKey.public, verify_base,
    Except.ok.injEq, ideal.accepts_iff, sigInput_eq, sigInput_eq]
  constructor
  · intro h
    exact (List.Vector.eq _ _ (ideal.cshake_injective h).1).symm
  · rintro rfl
    rfl

/--
The message is never absorbed, so the contexts alone decide verification: the
binding property holds exactly where the contexts differ or the messages agree.
-/
theorem signatureBinds_iff (ideal : IdealSignatures P) (key : P.Priv)
    (signCtx verifyCtx : SigCtx) (signed checked : Bytes) :
    SignatureBinds key signCtx verifyCtx signed checked ↔
      signCtx ≠ verifyCtx ∨ signed = checked := by
  unfold SignatureBinds
  rw [verifySigned_base_iff ideal]
  constructor
  · intro h
    by_cases hctx : signCtx = verifyCtx
    · exact Or.inr (h.mp hctx).2
    · exact Or.inl hctx
  · rintro (hctx | rfl)
    · exact ⟨fun h => absurd h hctx, fun h => absurd h.1 hctx⟩
    · exact ⟨fun h => ⟨h, rfl⟩, fun h => h.1⟩

/-! ### A concrete instance -/

/--
Symbolic primitives with one-byte keys: hashing copies, CSHAKE256 frames its
two inputs, and a signature is the key's byte in front of the signed input.
-/
def samplePrimitives : Primitives where
  shake256 input n := copyTo n input
  cshake256 _ custom absorbed _ :=
    List.replicate custom.length 0 ++ 1 :: (custom ++ absorbed)
  Algo := Bool
  Pub := Bool × UInt8
  Priv := Bool × UInt8
  ed25519 := false
  dilithium2 := true
  pubAlgo := Prod.fst
  privAlgo := Prod.fst
  toPublic := id
  sign key input := key.2 :: input
  verify key input signature := signature == key.2 :: input
  signOpts _ _ _ := crash "context not supported"
  verifyOpts _ _ _ _ := crash "context not supported"
  signatureSize _ := 66
  publicKeySize _ := 1
  privateKeySize _ := 1
  algoText algo := if algo then "dilithium2" else "ed25519"
  algoType _ := "sample"
  marshalPub key := .ok [key.2]
  unmarshalPub algo data :=
    match data with
    | [byte] => .ok (algo, byte)
    | _ => fail "wrong size for public key"
  marshalPriv key := .ok [key.2]
  unmarshalPriv algo data :=
    match data with
    | [byte] => .ok (algo, byte)
    | _ => fail "wrong size for private key"

private theorem replicate_cons_inj {m n : Nat} {xs ys : Bytes}
    (h : List.replicate m (0 : UInt8) ++ 1 :: xs =
      List.replicate n 0 ++ 1 :: ys) : m = n ∧ xs = ys := by
  induction m generalizing n with
  | zero =>
      cases n with
      | zero => simpa using h
      | succ n => simp [List.replicate_succ] at h
  | succ m ih =>
      cases n with
      | zero => simp [List.replicate_succ] at h
      | succ n =>
          simp only [List.replicate_succ, List.cons_append, List.cons.injEq,
            true_and] at h
          obtain ⟨rfl, hrest⟩ := ih h
          exact ⟨rfl, hrest⟩

theorem samplePrimitives_ideal : IdealSignatures samplePrimitives where
  cshake_injective := by
    intro custom custom' absorbed absorbed' h
    obtain ⟨hlength, hrest⟩ := replicate_cons_inj h
    exact List.append_inj hrest hlength
  accepts_iff := by
    intro key input input'
    change (key.2 :: input == key.2 :: input') = true ↔ input' = input
    rw [beq_iff_eq, List.cons.injEq]
    exact ⟨fun h => h.2.symm, fun h => ⟨rfl, h.symm⟩⟩

theorem samplePrimitives_lawfulKeys : LawfulKeys samplePrimitives where
  unmarshal_marshal := by
    intro key data h
    cases h
    rfl

theorem samplePrimitives_lawfulPrivateKeys : LawfulPrivateKeys samplePrimitives where
  algo _ := rfl
  marshal key := ⟨[key.2], rfl⟩
  unmarshal_marshal := by
    intro key data h
    cases h
    rfl

def sampleSigner (byte : UInt8) : samplePrimitives.Priv := (false, byte)

def sampleVerifier (algo : Bool) (byte : UInt8) : samplePrimitives.Pub :=
  (algo, byte)

theorem signatureBinds_sample :
    SignatureBinds (sampleSigner 7) (copyTo 32 [1]) (copyTo 32 [2]) [1] [2] :=
  (signatureBinds_iff samplePrimitives_ideal (sampleSigner 7) (copyTo 32 [1])
    (copyTo 32 [2]) [1] [2]).mpr (Or.inl (by decide))

/-- One context, two messages: the signature of the first verifies for the second. -/
theorem not_signatureBinds_sample :
    ¬ SignatureBinds (sampleSigner 7) (copyTo 32 [1]) (copyTo 32 [1]) [1] [2] := by
  intro h
  have hverified := (verifySigned_base_iff samplePrimitives_ideal (sampleSigner 7)
    (copyTo 32 [1]) (copyTo 32 [1]) [1] [2]).mpr rfl
  have hmessages := (h.mp hverified).2
  contradiction

/-! ## Products of keys -/

/--
The signature splits into one segment per component, each of the component's
signature size and each accepted by the component's own scheme.
-/
def ComponentsAccept (input : Bytes) (keys : List (PublicKey P))
    (signature : Bytes) : Prop :=
  ∃ segments : List Bytes, signature = segments.flatten ∧
    List.Forall₂ (fun (key : PublicKey P) segment =>
      segment.length = key.scheme.signatureSize ∧
        key.scheme.verify key input segment = .ok true) keys segments

theorem verify_product (sigCtx : SigCtx) (keys : List (PublicKey P))
    (msg signature : Bytes) :
    verify (some sigCtx) (.product keys : PublicKey P) msg signature =
      .ok (decide (signature = [])) := by
  cases signature with
  | nil =>
      simp [verify, PublicKey.scheme, Scheme.verify, Scheme.verifyWith, Scheme.size.sizes,
        Scheme.verifyWith.verifyAll]
  | cons byte signature =>
      simp [verify, PublicKey.scheme, Scheme.verify, Scheme.verifyWith, Scheme.size.sizes]

private theorem flatten_eq_nil_of_forall₂ {input : Bytes}
    {keys : List (PublicKey P)} {segments : List Bytes}
    (hflat : segments.flatten = [])
    (h : List.Forall₂ (fun (key : PublicKey P) segment =>
      segment.length = key.scheme.signatureSize ∧
        key.scheme.verify key input segment = .ok true) keys segments) :
    ∀ key ∈ keys, key.scheme.signatureSize = 0 ∧
      key.scheme.verify key input [] = .ok true := by
  induction h with
  | nil => simp
  | cons hhead _ ih =>
      rw [List.flatten_cons, List.append_eq_nil_iff] at hflat
      obtain ⟨rfl, hrest⟩ := hflat
      intro key hkey
      rcases List.mem_cons.mp hkey with rfl | hkey
      · exact ⟨hhead.1.symm, hhead.2⟩
      · exact ih hrest key hkey

private theorem forall₂_replicate_nil {input : Bytes} :
    ∀ {keys : List (PublicKey P)},
      (∀ key ∈ keys, key.scheme.signatureSize = 0 ∧
        key.scheme.verify key input [] = .ok true) →
      List.Forall₂ (fun (key : PublicKey P) segment =>
        segment.length = key.scheme.signatureSize ∧
          key.scheme.verify key input segment = .ok true)
        keys (List.replicate keys.length [])
  | [], _ => .nil
  | key :: keys, h => by
      obtain ⟨hsize, haccept⟩ := h key (by simp)
      refine .cons ⟨hsize.symm, haccept⟩ ?_
      exact forall₂_replicate_nil fun other hother => h other (by simp [hother])

theorem componentsAccept_nil_iff (input : Bytes) (keys : List (PublicKey P)) :
    ComponentsAccept input keys [] ↔
      ∀ key ∈ keys, key.scheme.signatureSize = 0 ∧
        key.scheme.verify key input [] = .ok true := by
  constructor
  · rintro ⟨segments, hflat, h⟩
    exact flatten_eq_nil_of_forall₂ hflat.symm h
  · intro h
    exact ⟨List.replicate keys.length [], by simp, forall₂_replicate_nil h⟩

/--
A product key accepts the empty signature and nothing else.  Soundness
therefore holds exactly where the signature is not empty, or where every
component has signatures of size zero and accepts the empty one.
-/
theorem product_verify_sound_iff (sigCtx : SigCtx) (keys : List (PublicKey P))
    (msg signature : Bytes) :
    (verify (some sigCtx) (.product keys : PublicKey P) msg signature = .ok true →
        ComponentsAccept (sigInput P sigCtx msg) keys signature) ↔
      signature ≠ [] ∨
        ∀ key ∈ keys, key.scheme.signatureSize = 0 ∧
          key.scheme.verify key (sigInput P sigCtx msg) [] = .ok true := by
  rw [verify_product, Except.ok.injEq, decide_eq_true_iff]
  by_cases hempty : signature = []
  · subst hempty
    rw [componentsAccept_nil_iff]
    simp
  · simp [hempty]

theorem product_verify_unsound :
    let keys := [PublicKey.base (sampleVerifier false 7),
      PublicKey.base (sampleVerifier true 9)]
    verify (some (copyTo 32 [1])) (.product keys) [1] [] = .ok true ∧
      ¬ ComponentsAccept (sigInput samplePrimitives (copyTo 32 [1]) [1]) keys [] := by
  intro keys
  refine ⟨by rw [verify_product]; rfl, ?_⟩
  rw [componentsAccept_nil_iff]
  intro h
  have hsize := (h (.base (sampleVerifier false 7)) (by simp [keys])).1
  change 66 = 0 at hsize
  contradiction

end Inet256
