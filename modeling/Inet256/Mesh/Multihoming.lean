import Inet256.Mesh.LinkMonitor
import Inet256.Pki.Signature

/-!
# One-hop messages and their senders

A multihoming swarm receives on two channels.  On both of them the key of the
sender is looked up and grouped into the address the message is attributed to.
The swarm is translated for any grouping function; the one a node is built with
turns the keys it cannot convert into the zero address.
-/

namespace Inet256.Multihoming

open Inet256.Foundation
open Inet256.Crypto

/-! ## The swarm -/

structure Swarm (K A τ : Type) where
  lm : LinkMonitor K A τ
  peerStore : GoMap K (Peers.Info A)
  localKey : K

structure Message (K : Type) where
  src : K
  dst : K
  payload : Bytes
  deriving DecidableEq

/-- A message on one of the channels, and what looking up the key of its sender returns. -/
inductive Arrival (Pub A τ : Type) where
  | heartbeat (src : A) (key : Except String Pub) (now : τ)
  | data (src : A) (key : Except String Pub) (payload : Bytes) (now : τ)

def Arrival.key {Pub A τ : Type} : Arrival Pub A τ → Except String Pub
  | .heartbeat _ key _ => key
  | .data _ key _ _ => key

def Arrival.src {Pub A τ : Type} : Arrival Pub A τ → A
  | .heartbeat src _ _ => src
  | .data src _ _ _ => src

/-- The key that was marked, and the message that was delivered. -/
structure Attribution (K : Type) where
  marked : Option K
  delivered : Option (Message K)
  deriving DecidableEq

def Attribution.none {K : Type} : Attribution K := ⟨Option.none, Option.none⟩

namespace Swarm

variable {K A τ Pub : Type} [DecidableEq K]

/-- One round of `linkMonitor.recvLoop`. -/
def recvLoop (cfg : Config K A τ) (groupBy : Pub → Go K) (s : Swarm K A τ) (src : A)
    (key : Except String Pub) (now : τ) : Go (Swarm K A τ × Attribution K) :=
  match key with
  | .error _ => .ok (s, .none)
  | .ok pub =>
      match groupBy pub with
      | .error (.error _) => .ok (s, .none)
      | .error (.panic text) => crash text
      | .ok k => .ok ({ s with lm := s.lm.mark cfg k src now }, ⟨some k, Option.none⟩)

/-- One round of `Swarm.Receive`. -/
def receive (cfg : Config K A τ) (groupBy : Pub → Go K) (s : Swarm K A τ) (src : A)
    (key : Except String Pub) (payload : Bytes) (now : τ) :
    Go (Swarm K A τ × Attribution K) :=
  match key with
  | .error _ => .ok (s, .none)
  | .ok pub =>
      match groupBy pub with
      | .error (.error _) => .ok (s, .none)
      | .error (.panic text) => crash text
      | .ok k =>
          match s.peerStore.lookup k with
          | Option.none => .ok (s, .none)
          | some _ =>
              .ok ({ s with lm := s.lm.mark cfg k src now },
                ⟨some k, some ⟨k, s.localKey, payload⟩⟩)

def arrive (cfg : Config K A τ) (groupBy : Pub → Go K) (s : Swarm K A τ) :
    Arrival Pub A τ → Go (Swarm K A τ × Attribution K)
  | .heartbeat src key now => s.recvLoop cfg groupBy src key now
  | .data src key payload now => s.receive cfg groupBy src key payload now

/-- The channels a key's group is let through on. -/
def Admits (s : Swarm K A τ) (arrival : Arrival Pub A τ) (k : K) : Prop :=
  match arrival with
  | .heartbeat _ _ _ => True
  | .data _ _ _ _ => ∃ info, s.peerStore.lookup k = some info

/-- An arrival leaves no trace, or the one group of its key is marked and delivered. -/
theorem arrive_cases {cfg : Config K A τ} {groupBy : Pub → Go K} {s s' : Swarm K A τ}
    {arrival : Arrival Pub A τ} {out : Attribution K}
    (h : s.arrive cfg groupBy arrival = .ok (s', out)) :
    (s' = s ∧ out = .none) ∨
      ∃ pub k now, arrival.key = .ok pub ∧ groupBy pub = .ok k ∧ s.Admits arrival k ∧
        s' = { s with lm := s.lm.mark cfg k arrival.src now } ∧ out.marked = some k ∧
        ∀ m, out.delivered = some m → m.src = k := by
  cases arrival with
  | heartbeat src key now =>
      simp only [arrive, recvLoop] at h
      split at h
      · cases h
        exact Or.inl ⟨rfl, rfl⟩
      · next pub =>
          split at h
          · cases h
            exact Or.inl ⟨rfl, rfl⟩
          · cases h
          · next k hk =>
              cases h
              exact Or.inr ⟨pub, k, now, rfl, hk, trivial, rfl, rfl, by simp⟩
  | data src key payload now =>
      simp only [arrive, receive] at h
      split at h
      · cases h
        exact Or.inl ⟨rfl, rfl⟩
      · next pub =>
          split at h
          · cases h
            exact Or.inl ⟨rfl, rfl⟩
          · cases h
          · next k hk =>
              split at h
              · cases h
                exact Or.inl ⟨rfl, rfl⟩
              · next info hinfo =>
                  cases h
                  refine Or.inr ⟨pub, k, now, rfl, hk, ⟨info, hinfo⟩, rfl, rfl, ?_⟩
                  rintro m ⟨⟩
                  rfl

/-- What is admitted is marked. -/
theorem arrive_of_admits {cfg : Config K A τ} {groupBy : Pub → Go K} {s : Swarm K A τ}
    {arrival : Arrival Pub A τ} {pub : Pub} {k : K} (hkey : arrival.key = .ok pub)
    (hgroup : groupBy pub = .ok k) (hadmits : s.Admits arrival k) :
    ∃ s' out, s.arrive cfg groupBy arrival = .ok (s', out) ∧ out.marked = some k := by
  cases arrival with
  | heartbeat src key now =>
      simp only [Arrival.key] at hkey
      subst hkey
      simp only [arrive, recvLoop, hgroup]
      exact ⟨_, _, rfl, rfl⟩
  | data src key payload now =>
      simp only [Arrival.key] at hkey
      subst hkey
      obtain ⟨info, hinfo⟩ := hadmits
      simp only [arrive, receive, hgroup, hinfo]
      exact ⟨_, _, rfl, rfl⟩

end Swarm

/-! ## Keys of a node -/

structure X509PublicKey (Algo : Type) where
  algorithm : Algo
  data : Bytes
  deriving DecidableEq

/-- The algorithm of Ed25519 keys, and bytes taken for such a key without a check. -/
structure KeyConversion (P : Primitives) (Algo : Type) where
  algoEd25519 : Algo
  /-- The verb `%v`. -/
  algoText : Algo → String
  ed25519PublicKey : Bytes → P.Pub

variable {P : Primitives} {Algo A τ : Type} [DecidableEq Algo]

def publicKeyFromX509 (conv : KeyConversion P Algo) (x : X509PublicKey Algo) :
    Go (PublicKey P) :=
  if x.algorithm = conv.algoEd25519 then .ok (.base (conv.ed25519PublicKey x.data))
  else fail s!"cannot create INET256 public key from x509 algo={conv.algoText x.algorithm}"

def zeroID : ID := copyTo 32 []

/-- The `GroupBy` of `NewNode`: after a failed conversion it returns the zero ID and no error. -/
def groupBy (conv : KeyConversion P Algo) (pub : X509PublicKey Algo) : Go ID :=
  match publicKeyFromX509 conv pub with
  | .error _ => .ok zeroID
  | .ok pub2 => newID pub2

/-- The key converts, to one with this address. -/
def ConvertsTo (conv : KeyConversion P Algo) (x : X509PublicKey Algo) (k : ID) : Prop :=
  ∃ key, publicKeyFromX509 conv x = .ok key ∧ newID key = .ok k

/--
Whatever is marked or delivered is attributed to the address of the sender's key, and nothing is
if the key does not convert.
-/
structure FailsClosed (conv : KeyConversion P Algo) (arrival : Arrival (X509PublicKey Algo) A τ)
    (out : Attribution ID) : Prop where
  marked : ∀ k, out.marked = some k → ∃ x, arrival.key = .ok x ∧ ConvertsTo conv x k
  delivered : ∀ m, out.delivered = some m → ∃ x, arrival.key = .ok x ∧ ConvertsTo conv x m.src
  unconverted : ∀ x fault, arrival.key = .ok x → publicKeyFromX509 conv x = .error fault →
    out = .none

/-- The key of the sender is an Ed25519 key, or the zero address is not let through. -/
def Convertible (conv : KeyConversion P Algo) (s : Swarm ID A τ)
    (arrival : Arrival (X509PublicKey Algo) A τ) : Prop :=
  ∀ x, arrival.key = .ok x → x.algorithm = conv.algoEd25519 ∨ ¬ s.Admits arrival zeroID

theorem groupBy_of_converts {conv : KeyConversion P Algo} {x : X509PublicKey Algo}
    (h : x.algorithm = conv.algoEd25519) {k : ID} (hk : groupBy conv x = .ok k) :
    ConvertsTo conv x k := by
  have hkey : publicKeyFromX509 conv x = .ok (.base (conv.ed25519PublicKey x.data)) := by
    rw [publicKeyFromX509, if_pos h]
  rw [groupBy, hkey] at hk
  exact ⟨_, hkey, hk⟩

theorem groupBy_of_not_converts {conv : KeyConversion P Algo} {x : X509PublicKey Algo}
    (h : x.algorithm ≠ conv.algoEd25519) :
    (∃ fault, publicKeyFromX509 conv x = .error fault) ∧ groupBy conv x = .ok zeroID := by
  have hkey : publicKeyFromX509 conv x =
      fail s!"cannot create INET256 public key from x509 algo={conv.algoText x.algorithm}" := by
    rw [publicKeyFromX509, if_neg h]
  refine ⟨⟨_, hkey⟩, ?_⟩
  rw [groupBy, hkey]
  rfl

theorem failsClosed_none {conv : KeyConversion P Algo}
    (arrival : Arrival (X509PublicKey Algo) A τ) : FailsClosed conv arrival .none where
  marked := by simp [Attribution.none]
  delivered := by simp [Attribution.none]
  unconverted := fun _ _ _ _ => rfl

/-- A message of a convertible sender is attributed to that sender. -/
theorem failsClosed_of_convertible {cfg : Config ID A τ} {conv : KeyConversion P Algo}
    {s s' : Swarm ID A τ} {arrival : Arrival (X509PublicKey Algo) A τ} {out : Attribution ID}
    (h : s.arrive cfg (groupBy conv) arrival = .ok (s', out))
    (hconvertible : Convertible conv s arrival) : FailsClosed conv arrival out := by
  rcases Swarm.arrive_cases h with ⟨-, rfl⟩ | ⟨x, k, now, hkey, hgroup, hadmits, -, hmarked, hsrc⟩
  · exact failsClosed_none arrival
  · have halgo : x.algorithm = conv.algoEd25519 := by
      by_contra hother
      have hzero := (groupBy_of_not_converts hother).2
      rw [hgroup] at hzero
      cases hzero
      exact (hconvertible x hkey).elim hother fun hclosed => hclosed hadmits
    have hconverts := groupBy_of_converts halgo hgroup
    constructor
    · intro k' hk'
      rw [hmarked] at hk'
      cases hk'
      exact ⟨x, hkey, hconverts⟩
    · intro m hm
      rw [hsrc m hm]
      exact ⟨x, hkey, hconverts⟩
    · intro x' fault hkey' hfault
      rw [hkey] at hkey'
      cases hkey'
      obtain ⟨key, hsome, -⟩ := hconverts
      rw [hsome] at hfault
      cases hfault

/-- For every store and every message: what is attributed is right exactly if this holds. -/
theorem attribution_fails_closed_iff (cfg : Config ID A τ) (conv : KeyConversion P Algo)
    (s : Swarm ID A τ) (arrival : Arrival (X509PublicKey Algo) A τ) :
    (∀ s' out, s.arrive cfg (groupBy conv) arrival = .ok (s', out) →
      FailsClosed conv arrival out) ↔ Convertible conv s arrival := by
  constructor
  · intro h x hkey
    by_contra hneither
    obtain ⟨hother, hadmits⟩ := not_or.mp hneither
    obtain ⟨⟨fault, hfault⟩, hzero⟩ := groupBy_of_not_converts hother
    obtain ⟨s', out, harrive, hmarked⟩ :=
      Swarm.arrive_of_admits hkey hzero (not_not.mp hadmits)
    rw [(h s' out harrive).unconverted x fault hkey hfault] at hmarked
    cases hmarked
  · intro hconvertible s' out h
    exact failsClosed_of_convertible h hconvertible

/-! ### A key of another algorithm -/

def sampleConversion : KeyConversion samplePrimitives Bool where
  algoEd25519 := true
  algoText algo := if algo then "Ed25519" else "unknown"
  ed25519PublicKey data := (false, data.headD 0)

/-- A heartbeat of a sender whose key is not an Ed25519 key is recorded for the zero address. -/
theorem unconverted_key_marked :
    ¬ ∀ (s : Swarm ID Bytes Nat) (arrival : Arrival (X509PublicKey Bool) Bytes Nat) s' out,
      s.arrive LinkMonitor.sampleConfig (groupBy sampleConversion) arrival = .ok (s', out) →
        FailsClosed sampleConversion arrival out := by
  intro h
  have hclosed := h ⟨.new, ∅, zeroID⟩ (.heartbeat [97] (.ok ⟨false, []⟩) 10) _
    ⟨some zeroID, none⟩ rfl
  have hnone := hclosed.unconverted ⟨false, []⟩ _ rfl rfl
  cases hnone

end Inet256.Multihoming
