import Inet256.Discovery.Central

/-!
# What a lookup returns

The client checks the signature of the announcement it is given, under the key
it is given with it.  The server gives out its own encoding of an announcement,
and the signature of the bytes it decoded.
-/

namespace Inet256.Discovery

open Inet256.Foundation
open Inet256.Foundation.Protobuf
open Inet256.Crypto

variable {P : Primitives} {T : Type}

/-! ## The client -/

structure Client (P : Primitives) where
  proto : ProtoCodec Announce
  /-- What the server answers. -/
  client : LookupReq → Rpc LookupRes

def Client.lookup (c : Client P) (target : Addr) : Go (List String) :=
  match c.client ⟨target.toList⟩ with
  | .error (.status .notFound _) => .ok []
  | .error (.status _ text) => fail text
  -- a server that panics ends the connection
  | .error (.panic text) => fail text
  | .ok res => do
      let pubKey : PublicKey P ← parsePublicKey res.publicKey
      let valid ← verify (some (purposeAnnounce P)) pubKey res.announce res.sig
      if !valid then
        fail "find: invalid signature for announce"
      else
        let x ← c.proto.unmarshal res.announce
        return x.endpoints

/-- The response is signed by the key and announces the endpoints. -/
def Client.Signed (c : Client P) (res : LookupRes) (key : PublicKey P) (endpoints : List String) :
    Prop :=
  parsePublicKey res.publicKey = .ok key ∧
    verify (some (purposeAnnounce P)) key res.announce res.sig = .ok true ∧
    ∃ x, c.proto.unmarshal res.announce = .ok x ∧ x.endpoints = endpoints

theorem Client.lookup_eq_ok {c : Client P} {target : Addr} {endpoints : List String}
    (hsome : endpoints ≠ []) :
    c.lookup target = .ok endpoints ↔
      ∃ res key, c.client ⟨target.toList⟩ = .ok res ∧ c.Signed res key endpoints := by
  unfold Client.lookup
  cases hanswer : c.client ⟨target.toList⟩ with
  | error fault =>
      cases fault with
      | status code text => cases code <;> simp [fail, hsome.symm]
      | panic text => simp [fail]
  | ok res =>
      simp only [Go.bind_eq_ok, Except.ok.injEq, Client.Signed]
      constructor
      · rintro ⟨key, hkey, valid, hvalid, h⟩
        cases valid with
        | false => simp [fail] at h
        | true =>
            obtain ⟨x, hx, h⟩ := Go.bind_eq_ok.mp h
            cases h
            exact ⟨res, key, rfl, hkey, hvalid, x, hx, rfl⟩
      · rintro ⟨_, key, rfl, hkey, hvalid, x, hx, rfl⟩
        exact ⟨key, hkey, true, hvalid, by simp [hx]⟩

/--
Endpoints that are returned for a target are announced in the response, signed by a key whose
address the target is.
-/
def Client.Authenticates (c : Client P) (target : Addr) : Prop :=
  ∀ endpoints, c.lookup target = .ok endpoints → endpoints ≠ [] →
    ∃ res key, c.client ⟨target.toList⟩ = .ok res ∧ newID key = .ok target ∧
      c.Signed res key endpoints

/-- The response announces endpoints under the key of somebody else, who signed them. -/
def Client.Foreign (c : Client P) (target : Addr) (res : LookupRes) : Prop :=
  ∃ key endpoints, endpoints ≠ [] ∧ c.Signed res key endpoints ∧ newID key ≠ .ok target

theorem lookup_authenticates_iff (c : Client P) (target : Addr) :
    c.Authenticates target ↔
      ∀ res, c.client ⟨target.toList⟩ = .ok res → ¬ c.Foreign target res := by
  constructor
  · rintro h res hres ⟨key, endpoints, hsome, hsigned, hid⟩
    have hfound := (Client.lookup_eq_ok hsome).mpr ⟨res, key, hres, hsigned⟩
    obtain ⟨_, other, hres', hother, hsigned', -⟩ := h endpoints hfound hsome
    rw [hres] at hres'
    cases hres'
    -- both keys are parsed from the same bytes
    have hsame := hsigned.1.symm.trans hsigned'
    cases hsame
    exact hid hother
  · intro h endpoints hfound hsome
    obtain ⟨res, key, hres, hsigned⟩ := (Client.lookup_eq_ok hsome).mp hfound
    refine ⟨res, key, hres, ?_, hsigned⟩
    by_contra hid
    exact h res hres ⟨key, endpoints, hsome, hsigned, hid⟩

/-- The server answers every lookup with the announcement of the peer with the key 7. -/
def sampleImpostor : Client samplePrimitives where
  proto := Announce.codec
  client _ :=
    let req := sampleRequest 7 (sampleAnnounce 10).marshal
    .ok ⟨req.publicKey, req.announce, req.sig⟩

theorem lookup_accepts_foreign :
    let target : Addr := copyTo 32 [1]
    sampleImpostor.lookup target = .ok ["quic|203.0.113.1:7"] ∧
      ¬ sampleImpostor.Authenticates target := by
  intro target
  have hfound : sampleImpostor.lookup target = .ok ["quic|203.0.113.1:7"] := by decide +kernel
  refine ⟨hfound, fun h => ?_⟩
  obtain ⟨res, key, hres, hid, hkey, -⟩ := h _ hfound (by simp)
  cases hres
  have hown : parsePublicKey (sampleRequest 7 (sampleAnnounce 10).marshal).publicKey =
      .ok (.base (sampleVerifier false 7)) := by
    decide +kernel
  rw [hown] at hkey
  cases hkey
  have hother : newID (.base (sampleVerifier false 7)) ≠ .ok target := by decide +kernel
  exact hother hid

/-! ## The bytes that were signed -/

variable {cfg : Config P T} {addr : Addr} {s s₁ s₂ : Server}

/-- The request is not an `Announce` that is accepted for the address. -/
def spares (cfg : Config P T) (addr : Addr) (s : Server) : Request → Prop
  | .announce req => acceptedAt cfg addr (.announce req, .announced (s.announce cfg req).2) = none
  | .lookup _ => True

theorem lookup_of_spares {request : Request} {reply : Reply} (hspares : spares cfg addr s request)
    (h : s.serve cfg request = some (s₁, reply)) : s₁.m.lookup addr = s.m.lookup addr := by
  cases served_of_serve h with
  | rejected req fault => rfl
  | @accepted req other entry hread hnewer hanswer =>
      have hother : other ≠ addr := by simpa [spares, acceptedAt, hanswer, hread] using hspares
      exact Finmap.lookup_insert_of_ne _ hother.symm
  | lookedUp req => rfl

theorem lookup_of_runs {trace : List (Request × Reply)}
    (run : Runs (Server.serve cfg) (spares cfg addr) s trace s₁) :
    s₁.m.lookup addr = s.m.lookup addr :=
  run.invariant (motive := fun state => state.m.lookup addr = s.m.lookup addr) rfl
    fun _ _ _ _ ih hspares hstep => (lookup_of_spares hspares hstep).trans ih

/-- An accepted request is what its entry was made from. -/
theorem entry_of_announce {req : AnnounceReq} {key : PublicKey P}
    (haccept : s.announce cfg req = (s₁, .ok ())) (hkey : parsePublicKey req.publicKey = .ok key)
    (haddr : newID key = .ok addr) :
    ∃ entry, s₁.m.lookup addr = some entry ∧ Vouched cfg req addr entry := by
  rcases s.announce_cases cfg req with ⟨fault, h⟩ | ⟨other, entry, hread, -, h⟩
  · rw [h] at haccept
    cases haccept
  · rw [h] at haccept
    cases haccept
    have hvouched := vouched_of_readAnnounce hread
    have ⟨owner, _, howner, hother, _, _, _, _, _, hbytes, _⟩ := hvouched
    rw [hbytes, hkey] at howner
    cases howner
    rw [haddr] at hother
    cases hother
    exact ⟨entry, Finmap.lookup_insert _, hvouched⟩

/--
The announcement is encoded again for every lookup, so that the bytes that were signed are returned
exactly where they are the encoding of their message.
-/
theorem lookup_as_announced_iff {req : AnnounceReq} {key : PublicKey P}
    (haccept : s.announce cfg req = (s₁, .ok ()))
    (hkey : parsePublicKey req.publicKey = .ok key) (haddr : newID key = .ok addr)
    {trace : List (Request × Reply)}
    (run : Runs (Server.serve cfg) (spares cfg addr) s₁ trace s₂)
    {target : Bytes} (hlength : 32 ≤ target.length) (htarget : idFromBytes target = addr) :
    s₂.lookup cfg ⟨target⟩ = .ok ⟨req.publicKey, req.announce, req.sig⟩ ↔
      cfg.proto.Canonical req.announce := by
  obtain ⟨entry, hentry, hvouched⟩ := entry_of_announce haccept hkey haddr
  obtain ⟨-, -, -, -, -, hannounce, -, -, -, hbytes, hsig⟩ := hvouched
  rw [← lookup_of_runs run] at hentry
  subst htarget
  rw [← cfg.proto.marshal_eq_iff hannounce, Server.lookup, if_neg (Nat.not_lt.mpr hlength)]
  simp [hentry, hbytes, hsig]

def sampleAddr (byte : UInt8) : Addr :=
  (newID (.base (sampleVerifier false byte) : PublicKey samplePrimitives)).toOption.getD
    (copyTo 32 [])

def sampleCanonical : AnnounceReq := sampleRequest 7 (sampleAnnounce 10).marshal

/-- The same message with its fields in another order. -/
def sampleReordered : AnnounceReq :=
  sampleRequest 7 ((sampleAnnounce 10).fields.reverse.flatMap writeField)

theorem lookup_as_announced_sample :
    ∃ s, Server.new.announce sampleConfig sampleCanonical = (s, .ok ()) ∧
      s.lookup sampleConfig ⟨(sampleAddr 7).toList⟩ =
        .ok ⟨sampleCanonical.publicKey, sampleCanonical.announce, sampleCanonical.sig⟩ := by
  have hanswer : (Server.new.announce sampleConfig sampleCanonical).2 = .ok () := by
    decide +kernel
  have hkey : parsePublicKey sampleCanonical.publicKey =
      .ok (.base (sampleVerifier false 7) : PublicKey samplePrimitives) := by
    decide +kernel
  have haddr : newID (.base (sampleVerifier false 7) : PublicKey samplePrimitives) =
      .ok (sampleAddr 7) := by
    decide +kernel
  have hread : Announce.unmarshal sampleCanonical.announce = .ok (sampleAnnounce 10) := by
    decide +kernel
  cases haccept : Server.new.announce sampleConfig sampleCanonical with
  | mk s answer =>
      obtain rfl : answer = .ok () := by simpa [haccept] using hanswer
      refine ⟨s, rfl, (lookup_as_announced_iff haccept hkey haddr .refl (by simp)
        (copyTo_toList _)).mpr ?_⟩
      exact ⟨sampleCanonical.announce, sampleAnnounce 10, hread, rfl⟩

theorem lookup_not_as_announced :
    ∃ s res, Server.new.announce sampleConfig sampleReordered = (s, .ok ()) ∧
      s.lookup sampleConfig ⟨(sampleAddr 7).toList⟩ = .ok res ∧
      res.publicKey = sampleReordered.publicKey ∧ res.sig = sampleReordered.sig ∧
      res.announce ≠ sampleReordered.announce := by
  have hanswer : (Server.new.announce sampleConfig sampleReordered).2 = .ok () := by
    decide +kernel
  have hfound : (Server.new.announce sampleConfig sampleReordered).1.lookup sampleConfig
      ⟨(sampleAddr 7).toList⟩ = .ok ⟨sampleReordered.publicKey, sampleCanonical.announce,
        sampleReordered.sig⟩ := by
    decide +kernel
  have hother : sampleCanonical.announce ≠ sampleReordered.announce := by decide +kernel
  cases haccept : Server.new.announce sampleConfig sampleReordered with
  | mk s answer =>
      rw [haccept] at hanswer hfound
      obtain rfl : answer = .ok () := hanswer
      exact ⟨s, _, rfl, hfound, rfl, rfl, hother⟩

end Inet256.Discovery
