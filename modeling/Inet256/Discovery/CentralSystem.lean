import Inet256.Discovery.CentralLookup

/-!
# Central discovery as a whole

Peers announce and look up through the client; the server checks, decodes and
stores announcements and encodes them again.  What all this is for is a book
that has the newest endpoints of every address.
-/

namespace Inet256.Discovery

open Inet256.Foundation
open Inet256.Foundation.Json
open Inet256.Crypto

variable {P : Primitives} {T : Type}

/-! ## The book -/

structure BookEntry where
  timestamp : Time
  endpoints : List String
  deriving DecidableEq

abbrev Book := Addr → Option BookEntry

/-- A peer is entered if all endpoints are addresses and the time is after the last one. -/
def Book.takes (parser : AddrParser T) (book : Book) (addr : Addr) (entry : BookEntry) : Bool :=
  entry.endpoints.all (fun endpoint => (parser (stringBytes endpoint)).toOption.isSome) &&
    (book addr).all fun prev => entry.timestamp.after prev.timestamp

/-! ## Clients and the server -/

/-- Labels of the clock on the wire, where they are parsed again. -/
structure Clock extends Tai64 where
  marshal : Label → Bytes
  parse_marshal : ∀ label, parse (marshal label) = .ok label

/--
Announcements as protocol buffers: `marshalErr` is the error of `proto.Marshal`.  What is marshalled
without one is read again; with one, nothing is said of the bytes.
-/
structure AnnounceProto extends ProtoCodec Announce where
  marshalErr : Announce → Option String
  unmarshal_of_marshalled : ∀ x, marshalErr x = none → unmarshal (marshal x) = .ok x

structure Central (P : Primitives) (T : Type) where
  parser : AddrParser T
  clock : Clock
  proto : AnnounceProto
  timeText : Time → String

namespace Central

/-- The server decodes and encodes announcements as the clients do. -/
def config (c : Central P T) : Config P T where
  parser := c.parser
  proto := c.proto.toProtoCodec
  tai64 := c.clock.toTai64
  timeText := c.timeText

def client (c : Central P T) (s : Server) : Client P where
  proto := c.proto.toProtoCodec
  client := s.lookup c.config

end Central

/-- The request of `Client.Announce`, with the time and the time to live in seconds. -/
def announceReq (c : Central P T) (privKey : PrivateKey P) (endpoints : List String) (ts : Bytes)
    (ttlSeconds : Int64) : Go AnnounceReq := do
  -- the error of `proto.Marshal` is ignored
  let announceBytes := c.proto.marshal ⟨endpoints, ts, ttlSeconds, []⟩
  let sig ← sign (some (purposeAnnounce P)) privKey announceBytes []
  let pubKeyBytes ← marshalPublicKey [] privKey.public
  return ⟨pubKeyBytes, announceBytes, sig⟩

inductive ClientCall (P : Primitives) (c : Central P T) where
  | announce (privKey : PrivateKey P) (endpoints : List String) (now : c.clock.Label)
      (ttlSeconds : Int64)
  | lookup (target : Addr)

inductive ClientSeen where
  | announced (answer : Rpc Unit)
  | found (endpoints : Go (List String))

variable {c : Central P T}

/-- A client that panics ends its own process and sends nothing. -/
def Server.call (s : Server) : ClientCall P c → Option (Server × ClientSeen)
  | .announce privKey endpoints now ttlSeconds => do
      let req ← (announceReq c privKey endpoints (c.clock.marshal now) ttlSeconds).toOption
      some ((s.announce c.config req).1, .announced (s.announce c.config req).2)
  | .lookup target => some (s, .found ((c.client s).lookup target))

/-- `proto.Marshal` returns no error, which the client would not see. -/
def encodable (_ : Server) : ClientCall P c → Prop
  | .announce _ endpoints now ttlSeconds =>
      c.proto.marshalErr ⟨endpoints, c.clock.marshal now, ttlSeconds, []⟩ = none
  | .lookup _ => True

instance (s : Server) (call : ClientCall P c) : Decidable (encodable s call) :=
  match call with
  | .announce _ _ _ _ => inferInstanceAs (Decidable (_ = none))
  | .lookup _ => isTrue trivial

/-- What a caller is told: whether an announcement is taken, and the endpoints of a peer. -/
inductive BookSeen where
  | announced (taken : Bool)
  | found (endpoints : List String)
  | failed
  deriving DecidableEq

def ClientSeen.view : ClientSeen → BookSeen
  | .announced (.ok ()) => .announced true
  | .announced (.error _) => .announced false
  | .found (.ok endpoints) => .found endpoints
  | .found (.error _) => .failed

/-- The same calls on the book. -/
def Book.call (book : Book) : ClientCall P c → Option (Book × BookSeen)
  | .announce privKey endpoints now _ => do
      let addr ← (newID privKey.public).toOption
      let entry : BookEntry := ⟨c.clock.goTime now, endpoints⟩
      if book.takes c.parser addr entry then
        some (Function.update book addr (some entry), .announced true)
      else some (book, .announced false)
  | .lookup target => some (book, .found ((book target).elim [] BookEntry.endpoints))

/-! ## What an honest client sends -/

/-- Keys that are marshalled are parsed again, and what is signed is accepted. -/
structure HonestKeys (P : Primitives) : Prop where
  lawful : LawfulKeys P
  accepts : ∀ key input, P.verify (P.toPublic key) input (P.sign key input) = true

/-- The request carries a key with an address, and a signature that this key accepts. -/
structure Honest (c : Central P T) (privKey : PrivateKey P) (x : Announce) (addr : Addr)
    (req : AnnounceReq) : Prop where
  announce : req.announce = c.proto.marshal x
  addr : newID privKey.public = .ok addr
  key : parsePublicKey req.publicKey = .ok privKey.public
  sig : verify (some (purposeAnnounce P)) privKey.public (c.proto.marshal x) req.sig = .ok true

theorem honest_announceReq (honest : HonestKeys P) {privKey : PrivateKey P}
    {endpoints : List String} {ts : Bytes} {ttlSeconds : Int64} {req : AnnounceReq}
    (h : announceReq c privKey endpoints ts ttlSeconds = .ok req) :
    ∃ addr, Honest c privKey ⟨endpoints, ts, ttlSeconds, []⟩ addr req := by
  obtain ⟨sig, hsig, h⟩ := Go.bind_eq_ok.mp h
  obtain ⟨pubKeyBytes, hpub, h⟩ := Go.bind_eq_ok.mp h
  cases h
  have haddr : newID privKey.public = .ok (sum256 P none pubKeyBytes) := by
    unfold newID PKI.newID
    rw [show mustReturn ((defaultPKI P).marshalPublicKey [] privKey.public) = .ok pubKeyBytes
      from hpub, Go.ok_bind]
    rfl
  refine ⟨_, rfl, haddr, parsePublicKey_marshalPublicKey honest.lawful hpub, ?_⟩
  cases privKey with
  | product keys =>
      obtain ⟨text, hcrash⟩ := newID_product (PrivateKey.public.publics keys)
      rw [PrivateKey.public, hcrash] at haddr
      cases haddr
  | base key =>
      rw [sign_base] at hsig
      cases hsig
      rw [PrivateKey.public, verify_base, List.nil_append, honest.accepts]

theorem checkEndpoints_eq_ok_iff_all {parser : AddrParser T} {endpoints : List String} :
    checkEndpoints parser endpoints = .ok () ↔
      (endpoints.all fun endpoint => (parser (stringBytes endpoint)).toOption.isSome) = true := by
  rw [checkEndpoints_eq_ok, List.all_eq_true]
  refine forall_congr' fun endpoint => imp_congr_right fun _ => ?_
  cases parser (stringBytes endpoint) <;> simp [Except.toOption]

/-- The entry that is made of an honest announcement. -/
def entryOf (c : Central P T) (endpoints : List String) (now : c.clock.Label)
    (ttlSeconds : Int64) (req : AnnounceReq) : PeerState where
  timestamp := c.clock.goTime now
  ttl := (ttlSeconds * 1000000000).toInt
  publicKey := req.publicKey
  announce := ⟨endpoints, c.clock.marshal now, ttlSeconds, []⟩
  sig := req.sig

/-- The server reads what the client announced, unless it refuses the endpoints. -/
theorem readAnnounce_honest {privKey : PrivateKey P} {endpoints : List String}
    {now : c.clock.Label} {ttlSeconds : Int64} {addr : Addr} {req : AnnounceReq}
    (h : Honest c privKey ⟨endpoints, c.clock.marshal now, ttlSeconds, []⟩ addr req)
    (hencoded : c.proto.marshalErr ⟨endpoints, c.clock.marshal now, ttlSeconds, []⟩ = none) :
    readAnnounce c.config req =
      (checkEndpoints c.parser endpoints).bind fun _ =>
        .ok (addr, entryOf c endpoints now ttlSeconds req) := by
  have hread := c.proto.unmarshal_of_marshalled _ hencoded
  have hlabel : c.config.tai64.parse (c.clock.marshal now) = .ok now := c.clock.parse_marshal now
  have hcodec : c.config.proto.unmarshal req.announce =
      .ok ⟨endpoints, c.clock.marshal now, ttlSeconds, []⟩ := by
    rw [h.announce]
    exact hread
  have hsig := h.sig
  rw [← h.announce] at hsig
  unfold readAnnounce
  simp only [h.key, Rpc.ofGo, bind, Except.bind, hsig, hcodec, hlabel, h.addr, Bool.not_true,
    Bool.false_eq_true, if_false]
  rfl

/-! ## The server keeps the book -/

/-- The entry shows what the book has, and the client accepts it when it is looked up. -/
structure Genuine (c : Central P T) (stored : PeerState) (entry : BookEntry) : Prop where
  timestamp : stored.timestamp = entry.timestamp
  endpoints : stored.announce.endpoints = entry.endpoints
  read : c.proto.unmarshal (c.proto.marshal stored.announce) = .ok stored.announce
  signed : ∃ key : PublicKey P, parsePublicKey stored.publicKey = .ok key ∧
    verify (some (purposeAnnounce P)) key (c.proto.marshal stored.announce) stored.sig = .ok true

def Keeps (c : Central P T) (s : Server) (book : Book) : Prop :=
  ∀ addr, s.m.lookup addr = none ∧ book addr = none ∨
    ∃ stored entry, s.m.lookup addr = some stored ∧ book addr = some entry ∧
      Genuine c stored entry

theorem Keeps.insert {s : Server} {book : Book} (keeps : Keeps c s book) (addr : Addr)
    {stored : PeerState} {entry : BookEntry} (genuine : Genuine c stored entry) :
    Keeps c ⟨s.m.insert addr stored⟩ (Function.update book addr (some entry)) := by
  intro other
  rw [GoMap.lookup_insert_eq]
  by_cases hother : other = addr
  · subst hother
    rw [if_pos rfl, Function.update_self]
    exact Or.inr ⟨stored, entry, rfl, rfl, genuine⟩
  · rw [if_neg hother, Function.update_of_ne hother]
    exact keeps other

/-- The stored entry is as new as the one in the book. -/
theorem Keeps.after_iff {s : Server} {book : Book} (keeps : Keeps c s book) (addr : Addr)
    (time : Time) :
    ((s.m.lookup addr).all fun prev => time.after prev.timestamp) =
      (book addr).all fun prev => time.after prev.timestamp := by
  rcases keeps addr with ⟨hnone, hbook⟩ | ⟨stored, entry, hstored, hbook, genuine⟩
  · rw [hnone, hbook]
    rfl
  · rw [hstored, hbook, Option.all_some, Option.all_some, genuine.timestamp]

theorem announce_eq {cfg : Config P T} {s : Server} {req : AnnounceReq} {addr : Addr}
    {next : PeerState} (hread : readAnnounce cfg req = .ok (addr, next)) :
    ∃ fault, s.announce cfg req =
      if ((s.m.lookup addr).all fun prev => next.timestamp.after prev.timestamp) = true then
        (⟨s.m.insert addr next⟩, .ok ())
      else (s, .error fault) := by
  unfold Server.announce
  rw [hread]
  dsimp only
  cases hprev : s.m.lookup addr with
  | none => exact ⟨.panic "", rfl⟩
  | some prev =>
      refine ⟨.status .failedPrecondition
        s!"timestamp {cfg.timeText next.timestamp} <= {cfg.timeText prev.timestamp}", ?_⟩
      by_cases hafter : next.timestamp.after prev.timestamp = true
      · simp [hafter]
      · simp [hafter]

theorem Keeps.announce {s : Server} {book : Book} (keeps : Keeps c s book)
    {privKey : PrivateKey P} {endpoints : List String} {now : c.clock.Label}
    {ttlSeconds : Int64} {addr : Addr} {req : AnnounceReq}
    (h : Honest c privKey ⟨endpoints, c.clock.marshal now, ttlSeconds, []⟩ addr req)
    (hencoded : c.proto.marshalErr ⟨endpoints, c.clock.marshal now, ttlSeconds, []⟩ = none) :
    ∃ book', Book.call book (.announce privKey endpoints now ttlSeconds : ClientCall P c) =
        some (book', (ClientSeen.announced (s.announce c.config req).2).view) ∧
      Keeps c (s.announce c.config req).1 book' := by
  have hread := readAnnounce_honest h hencoded
  have haddr : (newID privKey.public).toOption = some addr := by rw [h.addr]; rfl
  have hbook : Book.call book (.announce privKey endpoints now ttlSeconds : ClientCall P c) =
      if book.takes c.parser addr ⟨c.clock.goTime now, endpoints⟩ = true then
        some (Function.update book addr (some ⟨c.clock.goTime now, endpoints⟩), .announced true)
      else some (book, .announced false) := by
    rw [Book.call, haddr]
    rfl
  rw [hbook]
  cases hcheck : checkEndpoints c.parser endpoints with
  | error fault =>
      have hrefused : ¬ book.takes c.parser addr ⟨c.clock.goTime now, endpoints⟩ = true := by
        intro htakes
        have hall := (Bool.and_eq_true_iff.mp htakes).1
        rw [checkEndpoints_eq_ok_iff_all.mpr hall] at hcheck
        cases hcheck
      have hannounce : s.announce c.config req = (s, .error fault) := by
        rw [hcheck] at hread
        unfold Server.announce
        rw [hread]
        rfl
      rw [hannounce, if_neg hrefused]
      exact ⟨book, rfl, keeps⟩
  | ok done =>
      have hafter : ((s.m.lookup addr).all fun prev =>
          (c.clock.goTime now).after prev.timestamp) =
            book.takes c.parser addr ⟨c.clock.goTime now, endpoints⟩ := by
        rw [keeps.after_iff, Book.takes, checkEndpoints_eq_ok_iff_all.mp hcheck, Bool.true_and]
      rw [hcheck] at hread
      obtain ⟨fault, hannounce⟩ := announce_eq (s := s) hread
      rw [show (entryOf c endpoints now ttlSeconds req).timestamp = c.clock.goTime now from rfl,
        hafter] at hannounce
      rw [hannounce]
      split
      · have genuine : Genuine c (entryOf c endpoints now ttlSeconds req)
            ⟨c.clock.goTime now, endpoints⟩ :=
          ⟨rfl, rfl, c.proto.unmarshal_of_marshalled _ hencoded, privKey.public, h.key, h.sig⟩
        exact ⟨_, rfl, keeps.insert addr genuine⟩
      · exact ⟨book, rfl, keeps⟩

theorem Keeps.lookup {s : Server} {book : Book} (keeps : Keeps c s book) (target : Addr) :
    (c.client s).lookup target = .ok ((book target).elim [] BookEntry.endpoints) := by
  have hshort : ¬ target.toList.length < 32 := by simp
  have hanswer : (c.client s).client ⟨target.toList⟩ = s.lookup c.config ⟨target.toList⟩ := rfl
  unfold Client.lookup
  rw [hanswer, Server.lookup, if_neg hshort]
  rw [show idFromBytes target.toList = target from copyTo_toList target]
  dsimp only
  rcases keeps target with ⟨hnone, hbook⟩ | ⟨stored, entry, hstored, hbook, genuine⟩
  · rw [hnone, hbook]
    rfl
  · obtain ⟨key, hkey, hsig⟩ := genuine.signed
    have hread : (c.client s).proto.unmarshal (c.config.proto.marshal stored.announce) =
        .ok stored.announce := genuine.read
    have hverify : verify (some (purposeAnnounce P)) key
        (c.config.proto.marshal stored.announce) stored.sig = .ok true := hsig
    rw [hstored, hbook]
    simp only [hkey, hverify, hread, Go.ok_bind]
    exact congrArg Except.ok genuine.endpoints

/--
For honest clients, in whatever order they announce and look up, the client and the server
together are the book: the same announcements are taken, and every lookup returns the endpoints
that were taken last for its target, without an error.
-/
theorem central_discovery_refines (honest : HonestKeys P) {s : Server}
    {trace : List (ClientCall P c × ClientSeen)}
    (run : Runs Server.call encodable Server.new trace s) :
    ∃ book, Runs Book.call anyEvent (fun _ => none)
        (trace.map fun entry => (entry.1, entry.2.view)) book ∧ Keeps c s book := by
  have hstart : Keeps c Server.new (fun _ => none) := fun addr => Or.inl ⟨rfl, rfl⟩
  refine Runs.simulates hstart ?_ run
  intro s call s' seen book keeps hencoded hstep
  cases call with
  | announce privKey endpoints now ttlSeconds =>
      simp only [Server.call, Option.bind_eq_bind, Option.bind_eq_some_iff,
        toOption_eq_some] at hstep
      obtain ⟨req, hreq, hstep⟩ := hstep
      cases hstep
      obtain ⟨addr, h⟩ := honest_announceReq honest hreq
      exact keeps.announce h hencoded
  | lookup target =>
      cases hstep
      refine ⟨book, ?_, keeps⟩
      rw [keeps.lookup target]
      rfl

/-! ### Two announcements of one peer -/

theorem samplePrimitives_honest : HonestKeys samplePrimitives where
  lawful := samplePrimitives_lawfulKeys
  accepts key input := (samplePrimitives_ideal.accepts_iff key input input).mpr rfl

def sampleClock : Clock where
  Label := UInt64
  parse data :=
    if data.length = 8 then .ok (UInt64.ofNat (beValue data)) else .error "wrong length"
  goTime label := ⟨label.toNat * second⟩
  marshal label := beBytes 8 label.toNat
  parse_marshal label := by
    have hvalue : beValue (beBytes 8 label.toNat) = label.toNat :=
      beValue_beBytes (by simpa using label.toNat_lt)
    rw [beBytes_length, if_pos rfl, hvalue, UInt64.ofNat_toNat]

/-- Lengths are written as 64-bit numbers. -/
def sampleProto : AnnounceProto where
  toProtoCodec := Announce.codec
  marshalErr x :=
    if x.unknown = [] ∧ x.tai64.length < 2 ^ 64 ∧
        ∀ endpoint ∈ x.endpoints, (stringBytes endpoint).length < 2 ^ 64 then
      none
    else some "message too large"
  unmarshal_of_marshalled x hx := by
    rw [ite_eq_left_iff] at hx
    obtain ⟨hunknown, htai64, hendpoints⟩ := not_not.mp fun hlong => nomatch hx hlong
    have decoded : x.Decoded := ⟨hendpoints, htai64, by simp [hunknown]⟩
    exact Announce.unmarshal_eq_ok.mpr
      ⟨_, Protobuf.fieldsOf_flatMap decoded.valid_fields, decoded.foldlM_fields⟩

def sampleCentral : Central samplePrimitives Bytes where
  parser text := if text = [] then .error "empty address" else .ok text
  clock := sampleClock
  proto := sampleProto
  timeText time := toString (time.nanos / second)

/-- The second announcement is older, the third has an endpoint that is not an address. -/
def sampleCalls : List (ClientCall samplePrimitives sampleCentral) :=
  [.announce (.base (sampleSigner 7)) ["quic|203.0.113.1:7"] (10 : UInt64) 60,
    .announce (.base (sampleSigner 7)) ["quic|203.0.113.1:8"] (9 : UInt64) 60,
    .announce (.base (sampleSigner 9)) [""] (12 : UInt64) 60,
    .lookup (sampleAddr 7), .lookup (sampleAddr 9)]

theorem central_discovery_refines_sample :
    ∃ trace s book, trace.map Prod.fst = sampleCalls ∧
      trace.map (fun entry => entry.2.view) =
        [.announced true, .announced false, .announced false,
          .found ["quic|203.0.113.1:7"], .found []] ∧
      Runs Server.call encodable Server.new trace s ∧
      Runs Book.call anyEvent (fun _ => none)
        (trace.map fun entry => (entry.1, entry.2.view)) book ∧ Keeps sampleCentral s book := by
  have hreplay : (replay Server.call encodable Server.new sampleCalls).map
      (fun result => result.2.map fun entry => entry.2.view) =
        some [.announced true, .announced false, .announced false,
          .found ["quic|203.0.113.1:7"], .found []] := by
    decide +kernel
  obtain ⟨trace, s, hevents, run, hviews⟩ := exists_run_of_map hreplay
  obtain ⟨book, hbook, keeps⟩ := central_discovery_refines samplePrimitives_honest run
  exact ⟨trace, s, book, hevents, hviews, run, hbook, keeps⟩

end Inet256.Discovery
