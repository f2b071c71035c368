import Inet256.Discovery.Announce
import Inet256.Foundation.Runs
import Inet256.Internal.Peers
import Inet256.Pki.Addr
import Inet256.Pki.Signature

/-!
# Central discovery

Peers announce their endpoints to a server and look up those of others.  An
announcement is signed by its peer and carries a time; the server keeps the
newest one of every address, decoded, and encodes it again for every lookup.
-/

namespace Inet256.Discovery

open Inet256.Foundation
open Inet256.Foundation.Json
open Inet256.Crypto

/-! ## Calls -/

inductive Code where
  | unknown
  | invalidArgument
  | notFound
  | failedPrecondition
  deriving DecidableEq

inductive RpcFault where
  | status (code : Code) (text : String)
  | panic (text : String)
  deriving DecidableEq

abbrev Rpc := Except RpcFault

/-- An error of another package travels with the code `Unknown`. -/
def Rpc.ofGo {α : Type} : Go α → Rpc α
  | .ok value => .ok value
  | .error (.error text) => .error (.status .unknown text)
  | .error (.panic text) => .error (.panic text)

@[simp] theorem Rpc.ofGo_eq_ok {α : Type} {call : Go α} {value : α} :
    Rpc.ofGo call = .ok value ↔ call = .ok value := by
  cases call with
  | ok result => simp [Rpc.ofGo]
  | error fault => cases fault <;> simp [Rpc.ofGo]

structure AnnounceReq where
  publicKey : Bytes
  announce : Bytes
  sig : Bytes
  deriving DecidableEq

structure LookupReq where
  target : Bytes
  deriving DecidableEq

structure LookupRes where
  publicKey : Bytes
  announce : Bytes
  sig : Bytes
  deriving DecidableEq

def purposeAnnounce (P : Primitives) : SigCtx :=
  sigCtxString P (ascii "inet256/discovery/central/announce")

/-! ## The server -/

/-- `tai64.Parse` and the conversion of what it returns to a time. -/
structure Tai64 where
  Label : Type
  parse : Bytes → Except String Label
  goTime : Label → Time

structure PeerState where
  timestamp : Time
  ttl : Duration
  publicKey : Bytes
  announce : Announce
  sig : Bytes
  deriving DecidableEq

structure Config (P : Primitives) (T : Type) where
  parser : AddrParser T
  proto : ProtoCodec Announce
  tai64 : Tai64
  /-- `Time.String`. -/
  timeText : Time → String

structure Server where
  m : GoMap Addr PeerState

variable {P : Primitives} {T : Type}

def checkEndpoints (parser : AddrParser T) : List String → Rpc Unit
  | [] => .ok ()
  | endpoint :: endpoints =>
      match parser (stringBytes endpoint) with
      | .error err => .error (.status .invalidArgument s!"error parsing endpoint: {err}")
      | .ok _ => checkEndpoints parser endpoints

/-- What `Announce` does before it takes the lock: the address and its next entry. -/
def readAnnounce (cfg : Config P T) (req : AnnounceReq) : Rpc (Addr × PeerState) := do
  let pubKey : PublicKey P ← Rpc.ofGo (parsePublicKey req.publicKey)
  let valid ← Rpc.ofGo (verify (some (purposeAnnounce P)) pubKey req.announce req.sig)
  if !valid then
    .error (.status .unknown "announce: invalid signature")
  else
    let x ← Rpc.ofGo (cfg.proto.unmarshal req.announce)
    match cfg.tai64.parse x.tai64 with
    | .error err => .error (.status .unknown err)
    | .ok timeNext =>
        checkEndpoints cfg.parser x.endpoints
        let addr ← Rpc.ofGo (newID pubKey)
        return (addr,
          { timestamp := cfg.tai64.goTime timeNext
            -- the product of two 64-bit durations wraps
            ttl := (x.ttlSeconds * 1000000000).toInt
            announce := x
            sig := req.sig
            publicKey := req.publicKey })

namespace Server

def new : Server := ⟨∅⟩

def announce (cfg : Config P T) (s : Server) (req : AnnounceReq) : Server × Rpc Unit :=
  match readAnnounce cfg req with
  | .error fault => (s, .error fault)
  | .ok (addr, next) =>
      match s.m.lookup addr with
      | some prev =>
          if !next.timestamp.after prev.timestamp then
            (s, .error (.status .failedPrecondition
              s!"timestamp {cfg.timeText next.timestamp} <= {cfg.timeText prev.timestamp}"))
          else (⟨s.m.insert addr next⟩, .ok ())
      | none => (⟨s.m.insert addr next⟩, .ok ())

def lookup (cfg : Config P T) (s : Server) (req : LookupReq) : Rpc LookupRes :=
  if req.target.length < 32 then
    .error (.status .invalidArgument "target too short to be INET256 address")
  else
    let addr := idFromBytes req.target
    match s.m.lookup addr with
    | none => .error (.status .notFound s!"no announce found for peer {Addr.string addr}")
    | some x =>
        .ok { publicKey := x.publicKey, announce := cfg.proto.marshal x.announce, sig := x.sig }

end Server

/-! ## Requests in any order -/

inductive Request where
  | announce (req : AnnounceReq)
  | lookup (req : LookupReq)
  deriving DecidableEq

inductive Reply where
  | announced (answer : Rpc Unit)
  | found (answer : Rpc LookupRes)
  deriving DecidableEq

def Server.serve (cfg : Config P T) (s : Server) : Request → Option (Server × Reply)
  | .announce req => some ((s.announce cfg req).1, .announced (s.announce cfg req).2)
  | .lookup req => some (s, .found (s.lookup cfg req))

/-! ## What is stored -/

/--
The entry belongs to the address of its key, under which the request it was made from is signed,
and the server's parser accepts all of its endpoints.
-/
def Vouched (cfg : Config P T) (req : AnnounceReq) (addr : Addr) (entry : PeerState) : Prop :=
  ∃ (key : PublicKey P) (label : cfg.tai64.Label),
    parsePublicKey entry.publicKey = .ok key ∧ newID key = .ok addr ∧
    verify (some (purposeAnnounce P)) key req.announce req.sig = .ok true ∧
    cfg.proto.unmarshal req.announce = .ok entry.announce ∧
    cfg.tai64.parse entry.announce.tai64 = .ok label ∧
    entry.timestamp = cfg.tai64.goTime label ∧
    (∀ endpoint ∈ entry.announce.endpoints, ∃ t, cfg.parser (stringBytes endpoint) = .ok t) ∧
    entry.publicKey = req.publicKey ∧ entry.sig = req.sig

theorem checkEndpoints_eq_ok {parser : AddrParser T} {endpoints : List String} :
    checkEndpoints parser endpoints = .ok () ↔
      ∀ endpoint ∈ endpoints, ∃ t, parser (stringBytes endpoint) = .ok t := by
  induction endpoints with
  | nil => simp [checkEndpoints]
  | cons endpoint endpoints ih =>
      rw [List.forall_mem_cons, ← ih]
      cases hparse : parser (stringBytes endpoint) <;> simp [checkEndpoints, hparse]

theorem vouched_of_readAnnounce {cfg : Config P T} {req : AnnounceReq} {addr : Addr}
    {entry : PeerState} (h : readAnnounce cfg req = .ok (addr, entry)) :
    Vouched cfg req addr entry := by
  unfold readAnnounce at h
  obtain ⟨key, hkey, h⟩ := bind_eq_ok.mp h
  obtain ⟨valid, hvalid, h⟩ := bind_eq_ok.mp h
  cases valid with
  | false => simp at h
  | true =>
      obtain ⟨x, hx, h⟩ := bind_eq_ok.mp h
      cases hlabel : cfg.tai64.parse x.tai64 with
      | error err => simp [hlabel] at h
      | ok label =>
          simp only [hlabel] at h
          obtain ⟨_, hendpoints, h⟩ := bind_eq_ok.mp h
          obtain ⟨id, hid, h⟩ := bind_eq_ok.mp h
          cases h
          exact ⟨key, label, Rpc.ofGo_eq_ok.mp hkey, Rpc.ofGo_eq_ok.mp hid,
            Rpc.ofGo_eq_ok.mp hvalid, Rpc.ofGo_eq_ok.mp hx, hlabel, rfl,
            checkEndpoints_eq_ok.mp hendpoints, rfl, rfl⟩

theorem Server.announce_cases (cfg : Config P T) (s : Server) (req : AnnounceReq) :
    (∃ fault, s.announce cfg req = (s, .error fault)) ∨
    (∃ addr entry, readAnnounce cfg req = .ok (addr, entry) ∧
      (∀ prev, s.m.lookup addr = some prev → prev.timestamp.nanos < entry.timestamp.nanos) ∧
      s.announce cfg req = (⟨s.m.insert addr entry⟩, .ok ())) := by
  unfold Server.announce
  split
  · next fault _ => exact Or.inl ⟨fault, rfl⟩
  · next addr entry hread =>
      split
      · next prev hprev =>
          split
          · exact Or.inl ⟨_, rfl⟩
          · next hafter =>
              refine Or.inr ⟨addr, entry, hread, ?_, rfl⟩
              intro other hother
              rw [hprev] at hother
              cases hother
              simpa [Time.after] using hafter
      · next hnone =>
          refine Or.inr ⟨addr, entry, hread, ?_, rfl⟩
          simp [hnone]

/-- Everything a request can do. -/
inductive Served (cfg : Config P T) (s : Server) : Request → Server → Reply → Prop
  | rejected (req : AnnounceReq) (fault : RpcFault) :
      Served cfg s (.announce req) s (.announced (.error fault))
  | accepted {req : AnnounceReq} {addr : Addr} {entry : PeerState}
      (hread : readAnnounce cfg req = .ok (addr, entry))
      (hnewer : ∀ prev, s.m.lookup addr = some prev →
        prev.timestamp.nanos < entry.timestamp.nanos)
      (hanswer : (s.announce cfg req).2 = .ok ()) :
      Served cfg s (.announce req) ⟨s.m.insert addr entry⟩ (.announced (.ok ()))
  | lookedUp (req : LookupReq) : Served cfg s (.lookup req) s (.found (s.lookup cfg req))

theorem served_of_serve {cfg : Config P T} {s s' : Server} {request : Request} {reply : Reply}
    (h : s.serve cfg request = some (s', reply)) : Served cfg s request s' reply := by
  cases request with
  | announce req =>
      rcases s.announce_cases cfg req with ⟨fault, hans⟩ | ⟨addr, entry, hread, hnewer, hans⟩
      · simp only [Server.serve, hans, Option.some.injEq, Prod.mk.injEq] at h
        rw [← h.1, ← h.2]
        exact .rejected req fault
      · simp only [Server.serve, hans, Option.some.injEq, Prod.mk.injEq] at h
        rw [← h.1, ← h.2]
        exact .accepted hread hnewer (by rw [hans])
  | lookup req =>
      cases h
      exact .lookedUp req

/-- The time of an `Announce` that was accepted for the address. -/
def acceptedAt (cfg : Config P T) (addr : Addr) : Request × Reply → Option Time
  | (.announce req, .announced (.ok ())) =>
      match readAnnounce cfg req with
      | .ok (other, entry) => if other = addr then some entry.timestamp else none
      | .error _ => none
  | _ => none

def acceptedTimes (cfg : Config P T) (addr : Addr) (trace : List (Request × Reply)) : List Time :=
  trace.filterMap (acceptedAt cfg addr)

structure Kept (cfg : Config P T) (trace : List (Request × Reply)) (s : Server) : Prop where
  vouched : ∀ addr entry, s.m.lookup addr = some entry →
    ∃ req, (.announce req, .announced (.ok ())) ∈ trace ∧ Vouched cfg req addr entry
  newest : ∀ addr, (s.m.lookup addr).map PeerState.timestamp =
    (acceptedTimes cfg addr trace).getLast?
  increasing : ∀ addr,
    ((acceptedTimes cfg addr trace).map Time.nanos).Pairwise (· < ·)

variable {cfg : Config P T} {trace : List (Request × Reply)} {s s' : Server}

theorem acceptedTimes_append (addr : Addr) (event : Request × Reply) :
    acceptedTimes cfg addr (trace ++ [event]) =
      acceptedTimes cfg addr trace ++ (acceptedAt cfg addr event).toList := by
  cases h : acceptedAt cfg addr event <;> simp [acceptedTimes, h]

theorem pairwise_append_last {times : List Int} {time : Int} (h : times.Pairwise (· < ·))
    (hlast : ∀ last ∈ times.getLast?, last < time) : (times ++ [time]).Pairwise (· < ·) := by
  rw [← List.isChain_iff_pairwise] at h ⊢
  rw [List.isChain_append]
  exact ⟨h, by simp, by simpa using hlast⟩

theorem Kept.of_unaccepted {event : Request × Reply} (kept : Kept cfg trace s)
    (h : ∀ addr, acceptedAt cfg addr event = none) : Kept cfg (trace ++ [event]) s where
  vouched addr entry hentry := by
    obtain ⟨req, hreq, hvouched⟩ := kept.vouched addr entry hentry
    exact ⟨req, List.mem_append_left _ hreq, hvouched⟩
  newest addr := by simpa [acceptedTimes_append, h addr] using kept.newest addr
  increasing addr := by simpa [acceptedTimes_append, h addr] using kept.increasing addr

theorem Kept.of_accepted {req : AnnounceReq} {addr : Addr} {entry : PeerState}
    (kept : Kept cfg trace s) (hread : readAnnounce cfg req = .ok (addr, entry))
    (hnewer : ∀ prev, s.m.lookup addr = some prev →
      prev.timestamp.nanos < entry.timestamp.nanos) :
    Kept cfg (trace ++ [(.announce req, .announced (.ok ()))]) ⟨s.m.insert addr entry⟩ where
  vouched other found hfound := by
    rcases GoMap.lookup_insert_cases hfound with ⟨rfl, rfl⟩ | ⟨-, hfound⟩
    · exact ⟨req, by simp, vouched_of_readAnnounce hread⟩
    · obtain ⟨req, hreq, hvouched⟩ := kept.vouched other found hfound
      exact ⟨req, List.mem_append_left _ hreq, hvouched⟩
  newest other := by
    rw [acceptedTimes_append, GoMap.lookup_insert_eq]
    by_cases hother : other = addr
    · simp [acceptedAt, hread, hother]
    · simpa [acceptedAt, hread, hother, Ne.symm hother] using kept.newest other
  increasing other := by
    rw [acceptedTimes_append]
    by_cases hother : other = addr
    · subst hother
      simp only [acceptedAt, hread, if_true, Option.toList_some, List.map_append,
        List.map_cons, List.map_nil]
      apply pairwise_append_last (kept.increasing other)
      intro last hlast
      rw [List.getLast?_map, ← kept.newest other] at hlast
      cases hprev : s.m.lookup other with
      | none => simp [hprev] at hlast
      | some prev =>
          obtain rfl : prev.timestamp.nanos = last := by simpa [hprev] using hlast
          exact hnewer prev hprev
    · simpa [acceptedAt, hread, Ne.symm hother] using kept.increasing other

theorem kept_of_runs (run : Runs (Server.serve cfg) anyEvent Server.new trace s) :
    Kept cfg trace s := by
  refine run.history ⟨by simp [Server.new], by simp [Server.new, acceptedTimes],
    by simp [acceptedTimes]⟩ ?_
  intro trace s request s' reply _ kept _ hstep
  cases served_of_serve hstep with
  | rejected req fault => exact kept.of_unaccepted fun _ => rfl
  | accepted hread hnewer hanswer => exact kept.of_accepted hread hnewer
  | lookedUp req => exact kept.of_unaccepted fun _ => rfl

/-- A request changes at most the entry of the address it is accepted for. -/
structure Framed (P : Primitives) (s : Server) (request : Request) (s' : Server) (reply : Reply) :
    Prop where
  rejected : ∀ fault, reply = .announced (.error fault) → s'.m = s.m
  looked_up : ∀ answer, reply = .found answer → s'.m = s.m
  accepted : reply = .announced (.ok ()) → ∃ (req : AnnounceReq) (key : PublicKey P) (addr : Addr),
    request = .announce req ∧ parsePublicKey req.publicKey = .ok key ∧ newID key = .ok addr ∧
    ∀ other, other ≠ addr → s'.m.lookup other = s.m.lookup other

theorem framed_of_serve {request : Request} {reply : Reply}
    (h : s.serve cfg request = some (s', reply)) : Framed P s request s' reply := by
  cases served_of_serve h with
  | rejected req fault => exact ⟨by simp, by simp, by simp⟩
  | @accepted req addr entry hread hnewer hanswer =>
      obtain ⟨key, _, hkey, hid, -, -, -, -, -, hsame, -⟩ := vouched_of_readAnnounce hread
      refine ⟨by simp, by simp, fun _ => ⟨req, key, addr, rfl, hsame ▸ hkey, hid, ?_⟩⟩
      intro other hother
      exact Finmap.lookup_insert_of_ne _ hother
  | lookedUp req => exact ⟨by simp, by simp, by simp⟩

theorem central_store_invariant (run : Runs (Server.serve cfg) anyEvent Server.new trace s) :
    Kept cfg trace s ∧
      ∀ request s' reply, s.serve cfg request = some (s', reply) →
        Framed P s request s' reply :=
  ⟨kept_of_runs run, fun _ _ _ h => framed_of_serve h⟩

/-! ### A server and a peer -/

/-- Whole seconds after the start of 1970, offset by 2⁶² in eight bytes. -/
def sampleTai64 : Tai64 where
  Label := Nat
  parse data := if data.length = 8 then .ok (beValue data) else .error "wrong length"
  goTime label := ⟨(label - 2 ^ 62) * second + Time.unixEpoch⟩

def sampleConfig : Config samplePrimitives Bytes where
  parser text := if text = [] then .error "empty address" else .ok text
  proto := Announce.codec
  tai64 := sampleTai64
  timeText time := toString (time.nanos / second)

def sampleAnnounce (seconds : Nat) : Announce where
  endpoints := ["quic|203.0.113.1:7"]
  tai64 := beBytes 8 (2 ^ 62 + seconds)
  ttlSeconds := 60

/-- The request of the peer whose key is `byte`, with these bytes as its announcement. -/
def sampleRequest (byte : UInt8) (announce : Bytes) : AnnounceReq where
  publicKey := (marshalPublicKey [] (.base (sampleVerifier false byte))).toOption.getD []
  announce := announce
  sig := (sign (some (purposeAnnounce samplePrimitives)) (.base (sampleSigner byte))
    announce []).toOption.getD []

/-- An announcement, its replay, a newer one, one that is not signed, and one that is malformed. -/
def sampleRequests : List Request :=
  [.announce (sampleRequest 7 (sampleAnnounce 10).marshal),
    .announce (sampleRequest 7 (sampleAnnounce 10).marshal),
    .announce (sampleRequest 7 (sampleAnnounce 11).marshal),
    .announce { sampleRequest 7 (sampleAnnounce 12).marshal with sig := [] },
    .announce (sampleRequest 9 [10]), .lookup ⟨List.replicate 32 0⟩]

def sampleReplies : List Reply :=
  [.announced (.ok ()),
    .announced (.error (.status .failedPrecondition "timestamp 62135596810 <= 62135596810")),
    .announced (.ok ()), .announced (.error (.status .unknown "announce: invalid signature")),
    .announced (.error (.status .unknown "proto: cannot parse invalid wire-format data")),
    .found (.error (.status .notFound
      "no announce found for peer -------------------------------------------"))]

theorem central_store_sample :
    ∃ trace s, trace.map Prod.fst = sampleRequests ∧
      trace.map Prod.snd = sampleReplies ∧
      Runs (Server.serve sampleConfig) anyEvent Server.new trace s ∧
      Kept sampleConfig trace s := by
  have hreplies : (replay (Server.serve sampleConfig) anyEvent Server.new sampleRequests).map
      (fun result => result.2.map Prod.snd) = some sampleReplies := by
    decide +kernel
  obtain ⟨trace, s, hevents, run, hseen⟩ := exists_run_of_map hreplies
  exact ⟨trace, s, hevents, hseen, run, (central_store_invariant run).1⟩

end Inet256.Discovery
