import Inet256.Foundation.Futures
import Inet256.Ipc.Ask
import Inet256.Pki.Signature

/-!
# A connection between a client and a server

Any number of calls share one connection.  Requests are handled by goroutines
of their own, so that responses come back in any order, and a call that gave up
leaves a response that nobody waits for.
-/

namespace Inet256.Ipc

open Inet256.Foundation
open Inet256.Crypto

variable {P : Primitives} {F : FutureStore RequestID (Except String Addr)}
  {G : FutureStore RequestID (Except String (PublicKey P))}

structure ClientCall where
  reqID : RequestID
  ask : Ask
  future : Nat
  deriving DecidableEq

inductive Answer (P : Primitives) where
  | addr (addr : Addr)
  | publicKey (key : PublicKey P)

/--
The client's stores and calls, the messages under way in both directions, and
the requests that the server's goroutines have not handled yet.  `asked` records
the request IDs drawn so far.
-/
structure Session (P : Primitives) (F : FutureStore RequestID (Except String Addr))
    (G : FutureStore RequestID (Except String (PublicKey P))) where
  findAddrs : F.Store
  lookupPubs : G.Store
  calls : GoMap Nat ClientCall
  asked : GoMap RequestID Ask
  requests : Multiset Bytes
  jobs : Multiset Bytes
  responses : Multiset Bytes

inductive SessionEvent (P : Primitives) where
  | findAddr (call : Nat) (reqID : RequestID) (prefixBytes : Bytes) (nbits : Int)
  | lookupPublicKey (call : Nat) (reqID : RequestID) (target : Addr)
  | serverReceive (m : Bytes)
  | serve (m : Bytes) (node : Node P) (resBuf : List.Vector UInt8 maxFrameLen)
  | clientReceive (m : Bytes)
  | await (call : Nat)
  | cancel (call : Nat) (err : String)
  | loseRequest (m : Bytes)
  | loseResponse (m : Bytes)

inductive Seen (P : Primitives) where
  | nothing
  | delivered (msg : Option DataMsg)
  | returned (c : ClientCall) (result : Except String (Answer P))

abbrev SessionTrace (P : Primitives) := List (SessionEvent P × Seen P)

def Ask.event (call : Nat) (reqID : RequestID) : Ask → SessionEvent P
  | .findAddr prefixBytes nbits => .findAddr call reqID prefixBytes nbits
  | .lookupPublicKey target => .lookupPublicKey call reqID target

namespace Session

def new : Session P F G := ⟨F.new, G.new, ∅, ∅, 0, 0, 0⟩

/-! ## The client -/

def register (s : Session P F G) (reqID : RequestID) : Ask → Session P F G × Nat
  | .findAddr _ _ =>
      let (store, future, _) := F.getOrCreate s.findAddrs reqID
      ({ s with findAddrs := store }, future)
  | .lookupPublicKey _ =>
      let (store, future, _) := G.getOrCreate s.lookupPubs reqID
      ({ s with lookupPubs := store }, future)

def unregister (s : Session P F G) (c : ClientCall) : Session P F G :=
  match c.ask with
  | .findAddr _ _ => { s with findAddrs := F.delete s.findAddrs c.reqID c.future }
  | .lookupPublicKey _ => { s with lookupPubs := G.delete s.lookupPubs c.reqID c.future }

def outcome (s : Session P F G) (c : ClientCall) : Option (Except String (Answer P)) :=
  match c.ask with
  | .findAddr _ _ => (F.outcome s.findAddrs c.future).map fun result => result.map .addr
  | .lookupPublicKey _ => (G.outcome s.lookupPubs c.future).map fun result => result.map .publicKey

variable (C : Codecs)

def ask (s : Session P F G) (call : Nat) (reqID : RequestID) (ask : Ask) : Option (Session P F G) :=
  match s.calls.lookup call with
  | some _ => none
  | none => do
      let (s', future) := s.register reqID ask
      let m ← (ask.request C reqID).toOption
      some { s' with
        calls := s.calls.insert call { reqID, ask, future }
        asked := s.asked.insert reqID ask
        requests := m ::ₘ s.requests }

def leave (s : Session P F G) (call : Nat) (c : ClientCall) : Session P F G :=
  let s := s.unregister c
  { s with calls := s.calls.erase call }

/-- The second component is what the hub gets to deliver. -/
def handleMessage (s : Session P F G) (x : Bytes) : Go (Session P F G × Option DataMsg) := do
  let m ← asMessage x false
  let mtype ← getType m
  if mtype = mtData then
    let msg ← dataMsg m
    return (s, some msg)
  else if mtype = mtFindAddr then
    let reqID ← getRequestID m
    match F.get s.findAddrs reqID with
    | none => return (s, none)
    | some future =>
        let result ← findAddrSettlement C m
        return ({ s with findAddrs := (F.settle s.findAddrs future result).1 }, none)
  else if mtype = mtPublicKey then
    let reqID ← getRequestID m
    match G.get s.lookupPubs reqID with
    | none => return (s, none)
    | some future =>
        let result ← lookupPublicKeySettlement C m
        return ({ s with lookupPubs := (G.settle s.lookupPubs future result).1 }, none)
  else if mtype = mtKeepAlive then return (s, none)
  else fail s!"not expecting type {mtype}"

/-- The read loops log an error and go on. -/
def orLogged {α : Type} (state : α) : Go α → Option α
  | .ok result => some result
  | .error (.error _) => some state
  | .error (.panic _) => none

/-! ## The server -/

/-- What the read loop of `ServeNode` does with a message of the client. -/
def serveMessage (s : Session P F G) (data : Bytes) : Go (Session P F G) := do
  let m ← asMessage data true
  let mtype ← getType m
  if mtype = mtData ∨ mtype = mtKeepAlive then return s
  else
    -- the request outlives the buffer it was received in
    let m ← mustReturn (asMessage (data.take maxFrameLen) true)
    return { s with jobs := m ::ₘ s.jobs }

/-- A response that is too long for the transport is logged and dropped. -/
def sendResponse (s : Session P F G) (m : Bytes) : Go (Session P F G) := do
  let _ ← send m
  return { s with responses := m ::ₘ s.responses }

/-! ## The connection -/

def step (s : Session P F G) : SessionEvent P → Option (Session P F G × Seen P)
  | .findAddr call reqID prefixBytes nbits =>
      (s.ask C call reqID (.findAddr prefixBytes nbits)).map fun s => (s, .nothing)
  | .lookupPublicKey call reqID target =>
      (s.ask C call reqID (.lookupPublicKey target)).map fun s => (s, .nothing)
  | .serverReceive m =>
      if m ∈ s.requests then
        let s := { s with requests := s.requests.erase m }
        (orLogged s (s.serveMessage m)).map fun s => (s, .nothing)
      else none
  | .serve m node resBuf =>
      if m ∈ s.jobs then do
        let r ← (respond C node m resBuf).toOption
        let s := { s with jobs := s.jobs.erase m }
        (orLogged s (s.sendResponse r)).map fun s => (s, .nothing)
      else none
  | .clientReceive m =>
      if m ∈ s.responses then
        let s := { s with responses := s.responses.erase m }
        (orLogged (s, none) (s.handleMessage C m)).map fun (s, msg) => (s, .delivered msg)
      else none
  | .await call => do
      let c ← s.calls.lookup call
      let result ← s.outcome c
      some (s.leave call c, .returned c result)
  | .cancel call err => do
      let c ← s.calls.lookup call
      some (s.leave call c, .returned c (.error err))
  | .loseRequest m => some ({ s with requests := s.requests.erase m }, .nothing)
  | .loseResponse m => some ({ s with responses := s.responses.erase m }, .nothing)

def drawsFresh (s : Session P F G) : SessionEvent P → Prop
  | .findAddr _ reqID _ _ => s.asked.lookup reqID = none
  | .lookupPublicKey _ reqID _ => s.asked.lookup reqID = none
  | _ => True

/-- The node's `FindAddr` returns no error without a text. -/
def textInErrors (_ : Session P F G) : SessionEvent P → Prop
  | .serve m node _ => getType m = .ok mtFindAddr → ∀ req, findAddrReq C m = .ok req →
      (node.findAddr req.prefixBytes req.nbits).err ≠ some ""
  | _ => True

def freshAndTexts (s : Session P F G) (event : SessionEvent P) : Prop :=
  s.drawsFresh event ∧ s.textInErrors C event

/-! ## Agreement -/

end Session

def Node.Answers (node : Node P) : Ask → Answer P → Prop
  | .findAddr prefixBytes nbits, .addr addr =>
      node.findAddr prefixBytes nbits = ⟨addr, none⟩
  | .lookupPublicKey target, .publicKey key => node.lookupPublicKey target = ⟨key, none⟩
  | _, _ => False

/-- The node returned the answer when the server handled the request. -/
def Served (C : Codecs) (trace : SessionTrace P) (reqID : RequestID) (ask : Ask)
    (answer : Answer P) : Prop :=
  ∃ m node resBuf seen, (.serve m node resBuf, seen) ∈ trace ∧
    ask.request C reqID = .ok m ∧ node.Answers ask answer

/--
A call that returns a value returns what the node returned for its own
arguments, and only a response to its own request settles its future.
-/
structure Agreement (C : Codecs) (trace : SessionTrace P) (s : Session P F G) : Prop where
  returned : ∀ before event c answer after,
    trace = before ++ (event, .returned c (.ok answer)) :: after →
    (∃ call, event = .await call ∧ (c.ask.event call c.reqID, .nothing) ∈ before) ∧
      Served C before c.reqID c.ask answer
  completed : ∀ m s' seen call c result, s.step C (.clientReceive m) = some (s', seen) →
    s.calls.lookup call = some c → s.outcome c = none → s'.outcome c = some result →
    getType m = .ok c.ask.mtype ∧ getRequestID m = .ok c.reqID

/-! ## What holds along a run -/

theorem Served.later {C : Codecs} {trace entries : SessionTrace P} {reqID : RequestID}
    {ask : Ask} {answer : Answer P} (h : Served C trace reqID ask answer) :
    Served C (trace ++ entries) reqID ask answer := by
  obtain ⟨m, node, resBuf, seen, hmem, hrest⟩ := h
  exact ⟨m, node, resBuf, seen, List.mem_append_left _ hmem, hrest⟩

/-- A response that the client reads as success only with an answer of the node. -/
def ResponseTo (C : Codecs) (trace : SessionTrace P) (reqID : RequestID) (m : Bytes) :
    Ask → Prop
  | .findAddr prefixBytes nbits => ∃ res : Response FindAddrRes,
      m = (Content.ask mtFindAddr reqID (C.findAddrRes.marshal res)).bytes ∧
      (res.error = "" →
        Served C trace reqID (.findAddr prefixBytes nbits) (.addr res.success.addr))
  | .lookupPublicKey target => ∃ res : Response LookupPublicKeyRes,
      m = (Content.ask mtPublicKey reqID (C.lookupPublicKeyRes.marshal res)).bytes ∧
      ∀ key, res.error = "" → parsePublicKey res.success.publicKey = .ok key →
        Served C trace reqID (.lookupPublicKey target) (.publicKey key)

theorem ResponseTo.later {C : Codecs} {trace entries : SessionTrace P} {reqID : RequestID}
    {m : Bytes} {ask : Ask} (h : ResponseTo C trace reqID m ask) :
    ResponseTo C (trace ++ entries) reqID m ask := by
  cases ask with
  | findAddr prefixBytes nbits =>
      obtain ⟨res, hm, hserved⟩ := h
      exact ⟨res, hm, fun herror => (hserved herror).later⟩
  | lookupPublicKey target =>
      obtain ⟨res, hm, hserved⟩ := h
      exact ⟨res, hm, fun key herror hkey => (hserved key herror hkey).later⟩

namespace Session

variable {C : Codecs} {trace : SessionTrace P} {s s' : Session P F G}

def futureOf (s : Session P F G) (reqID : RequestID) : Ask → Option Nat
  | .findAddr _ _ => F.get s.findAddrs reqID
  | .lookupPublicKey _ => G.get s.lookupPubs reqID

def Requested (C : Codecs) (s : Session P F G) (m : Bytes) : Prop :=
  ∃ reqID ask, s.asked.lookup reqID = some ask ∧ ask.request C reqID = .ok m

def Explains (C : Codecs) (trace : SessionTrace P) (s : Session P F G) (reqID : RequestID)
    (answer : Answer P) : Prop :=
  ∃ ask, s.asked.lookup reqID = some ask ∧ Served C trace reqID ask answer

def Expected (C : Codecs) (trace : SessionTrace P) (s : Session P F G) (m : Bytes) : Prop :=
  m = [] ∨ ∃ reqID ask, s.asked.lookup reqID = some ask ∧ ResponseTo C trace reqID m ask

structure Sound (C : Codecs) (trace : SessionTrace P) (s : Session P F G) : Prop where
  requests : ∀ m ∈ s.requests, s.Requested C m
  jobs : ∀ m ∈ s.jobs, s.Requested C m
  responses : ∀ m ∈ s.responses, s.Expected C trace m
  registered : ∀ call c, s.calls.lookup call = some c →
    s.asked.lookup c.reqID = some c.ask ∧ s.futureOf c.reqID c.ask = some c.future ∧
      (c.ask.event call c.reqID, .nothing) ∈ trace
  distinct : ∀ call call' c c', s.calls.lookup call = some c →
    s.calls.lookup call' = some c' → c.reqID = c'.reqID → call = call'
  findAddrs : F.Explained s.findAddrs fun reqID result =>
    ∀ addr, result = .ok addr → s.Explains C trace reqID (.addr addr)
  lookupPubs : G.Explained s.lookupPubs fun reqID result =>
    ∀ key, result = .ok key → s.Explains C trace reqID (.publicKey key)

theorem sound_new : Sound C trace (new : Session P F G) where
  requests := by simp [new]
  jobs := by simp [new]
  responses := by simp [new]
  registered := by simp [new]
  distinct := by simp [new]
  findAddrs := FutureStore.explained_new
  lookupPubs := FutureStore.explained_new

theorem Explains.later {entries : SessionTrace P} {reqID : RequestID} {answer : Answer P}
    (h : s.Explains C trace reqID answer) : s.Explains C (trace ++ entries) reqID answer := by
  obtain ⟨ask, hasked, hserved⟩ := h
  exact ⟨ask, hasked, hserved.later⟩

theorem Sound.later (sound : Sound C trace s) (entries : SessionTrace P) :
    Sound C (trace ++ entries) s where
  requests := sound.requests
  jobs := sound.jobs
  responses := by
    intro m hm
    refine (sound.responses m hm).imp_right ?_
    rintro ⟨reqID, ask, hasked, hresponse⟩
    exact ⟨reqID, ask, hasked, hresponse.later⟩
  registered := by
    intro call c hc
    obtain ⟨hasked, hfuture, hevent⟩ := sound.registered call c hc
    exact ⟨hasked, hfuture, List.mem_append_left _ hevent⟩
  distinct := sound.distinct
  findAddrs := sound.findAddrs.mono fun _ _ h addr haddr => (h addr haddr).later
  lookupPubs := sound.lookupPubs.mono fun _ _ h key hkey => (h key hkey).later

/-! ### Calls -/

theorem futureOf_register (s : Session P F G) (reqID : RequestID) (ask : Ask) :
    (s.register reqID ask).1.futureOf reqID ask = some (s.register reqID ask).2 := by
  cases ask with
  | findAddr => exact F.get_getOrCreate_self s.findAddrs reqID
  | lookupPublicKey => exact G.get_getOrCreate_self s.lookupPubs reqID

theorem futureOf_register_of_some {reqID reqID' : RequestID} {ask ask' : Ask} {future : Nat}
    (h : s.futureOf reqID' ask' = some future) :
    (s.register reqID ask).1.futureOf reqID' ask' = some future := by
  cases ask with
  | findAddr =>
      cases ask' with
      | findAddr => exact FutureStore.get_getOrCreate_of_some h
      | lookupPublicKey => exact h
  | lookupPublicKey =>
      cases ask' with
      | findAddr => exact h
      | lookupPublicKey => exact FutureStore.get_getOrCreate_of_some h

theorem futureOf_unregister {c : ClientCall} {reqID : RequestID} (ask : Ask)
    (h : reqID ≠ c.reqID) : (s.unregister c).futureOf reqID ask = s.futureOf reqID ask := by
  unfold unregister
  split
  · cases ask with
    | findAddr =>
        change F.get (F.delete s.findAddrs c.reqID c.future) reqID = F.get s.findAddrs reqID
        exact F.get_delete_of_ne _ _ _ _ fun hboth => h hboth.1
    | lookupPublicKey => rfl
  · cases ask with
    | findAddr => rfl
    | lookupPublicKey =>
        change G.get (G.delete s.lookupPubs c.reqID c.future) reqID = G.get s.lookupPubs reqID
        exact G.get_delete_of_ne _ _ _ _ fun hboth => h hboth.1

def Remembers (s s' : Session P F G) : Prop :=
  ∀ reqID ask, s.asked.lookup reqID = some ask → s'.asked.lookup reqID = some ask

theorem Requested.remembered (hasked : s.Remembers s') {m : Bytes} (h : s.Requested C m) :
    s'.Requested C m := by
  obtain ⟨reqID, ask, hask, hrequest⟩ := h
  exact ⟨reqID, ask, hasked reqID ask hask, hrequest⟩

theorem Expected.remembered (hasked : s.Remembers s') {m : Bytes}
    (h : s.Expected C trace m) : s'.Expected C trace m := by
  refine h.imp_right ?_
  rintro ⟨reqID, ask, hask, hresponse⟩
  exact ⟨reqID, ask, hasked reqID ask hask, hresponse⟩

theorem Explains.remembered (hasked : s.Remembers s') {reqID : RequestID} {answer : Answer P}
    (h : s.Explains C trace reqID answer) : s'.Explains C trace reqID answer := by
  obtain ⟨ask, hask, hserved⟩ := h
  exact ⟨ask, hasked reqID ask hask, hserved⟩

theorem findAddrs_register (s : Session P F G) {good : RequestID → Except String Addr → Prop}
    (reqID : RequestID) (ask : Ask) (h : F.Explained s.findAddrs good) :
    F.Explained (s.register reqID ask).1.findAddrs good := by
  cases ask with
  | findAddr => exact h.getOrCreate reqID
  | lookupPublicKey => exact h

theorem lookupPubs_register (s : Session P F G)
    {good : RequestID → Except String (PublicKey P) → Prop} (reqID : RequestID) (ask : Ask)
    (h : G.Explained s.lookupPubs good) :
    G.Explained (s.register reqID ask).1.lookupPubs good := by
  cases ask with
  | findAddr => exact h
  | lookupPublicKey => exact h.getOrCreate reqID

theorem register_frame (s : Session P F G) (reqID : RequestID) (ask : Ask) :
    (s.register reqID ask).1.jobs = s.jobs ∧
      (s.register reqID ask).1.responses = s.responses := by
  cases ask with
  | findAddr => exact ⟨rfl, rfl⟩
  | lookupPublicKey => exact ⟨rfl, rfl⟩

theorem Sound.ask (sound : Sound C trace s) {call : Nat} {reqID : RequestID} {ask : Ask}
    (hfresh : s.asked.lookup reqID = none) (h : s.ask C call reqID ask = some s')
    (hevent : (ask.event call reqID, .nothing) ∈ trace) : Sound C trace s' := by
  unfold Session.ask at h
  split at h
  · cases h
  · simp only [Option.bind_eq_bind, Option.bind_eq_some_iff, Option.some.injEq,
      toOption_eq_some] at h
    obtain ⟨m, hrequest, hs'⟩ := h
    have hnew : ∀ id a, s.asked.lookup id = some a → id ≠ reqID := by
      rintro id a ha rfl
      rw [hfresh] at ha
      cases ha
    have hasked : s.Remembers s' := by
      intro id a ha
      rw [← hs', GoMap.lookup_insert_eq, if_neg (hnew id a ha), ha]
    have hask : s'.asked.lookup reqID = some ask := by
      rw [← hs', GoMap.lookup_insert_eq, if_pos rfl]
    have hcalls : ∀ call' c, s'.calls.lookup call' = some c →
        (call' = call ∧ c = ⟨reqID, ask, (s.register reqID ask).2⟩) ∨
          s.calls.lookup call' = some c := by
      intro call' c hc
      rw [← hs'] at hc
      exact (GoMap.lookup_insert_cases hc).imp_right And.right
    have hother : ∀ call' c, s.calls.lookup call' = some c → c.reqID ≠ reqID :=
      fun call' c hc => hnew c.reqID c.ask (sound.registered call' c hc).1
    refine ⟨?_, ?_, ?_, ?_, ?_, ?_, ?_⟩
    · intro m' hm'
      rw [← hs'] at hm'
      rcases Multiset.mem_cons.mp hm' with rfl | hm'
      · exact ⟨reqID, ask, hask, hrequest⟩
      · exact (sound.requests m' hm').remembered hasked
    · intro m' hm'
      rw [← hs'] at hm'
      change m' ∈ (s.register reqID ask).1.jobs at hm'
      rw [(s.register_frame reqID ask).1] at hm'
      exact (sound.jobs m' hm').remembered hasked
    · intro m' hm'
      rw [← hs'] at hm'
      change m' ∈ (s.register reqID ask).1.responses at hm'
      rw [(s.register_frame reqID ask).2] at hm'
      exact (sound.responses m' hm').remembered hasked
    · intro call' c hc
      rcases hcalls call' c hc with ⟨rfl, rfl⟩ | hc
      · refine ⟨hask, ?_, hevent⟩
        rw [← hs']
        exact s.futureOf_register reqID ask
      · obtain ⟨ha, hfuture, he⟩ := sound.registered call' c hc
        refine ⟨hasked _ _ ha, ?_, he⟩
        rw [← hs']
        exact futureOf_register_of_some hfuture
    · rw [← hs']
      exact GoMap.Distinct.insert (f := ClientCall.reqID) sound.distinct hother call
    · have hstore := s.findAddrs_register reqID ask sound.findAddrs
      rw [← hs'] at hasked ⊢
      exact hstore.mono fun _ _ h addr haddr => (h addr haddr).remembered hasked
    · have hstore := s.lookupPubs_register reqID ask sound.lookupPubs
      rw [← hs'] at hasked ⊢
      exact hstore.mono fun _ _ h key hkey => (h key hkey).remembered hasked

theorem findAddrs_unregister {good : RequestID → Except String Addr → Prop} (c : ClientCall)
    (h : F.Explained s.findAddrs good) : F.Explained (s.unregister c).findAddrs good := by
  unfold unregister
  split
  · exact h.delete c.reqID c.future
  · exact h

theorem lookupPubs_unregister {good : RequestID → Except String (PublicKey P) → Prop}
    (c : ClientCall) (h : G.Explained s.lookupPubs good) :
    G.Explained (s.unregister c).lookupPubs good := by
  unfold unregister
  split
  · exact h
  · exact h.delete c.reqID c.future

theorem leave_frame (s : Session P F G) (call : Nat) (c : ClientCall) :
    (s.leave call c).requests = s.requests ∧ (s.leave call c).jobs = s.jobs ∧
      (s.leave call c).responses = s.responses ∧ (s.leave call c).asked = s.asked ∧
      (s.leave call c).calls = s.calls.erase call := by
  unfold leave unregister
  split <;> exact ⟨rfl, rfl, rfl, rfl, rfl⟩

theorem Sound.leave (sound : Sound C trace s) {call : Nat} {c : ClientCall}
    (hc : s.calls.lookup call = some c) : Sound C trace (s.leave call c) := by
  obtain ⟨hrequests, hjobs, hresponses, hasked, hcalls⟩ := s.leave_frame call c
  have hremembers : s.Remembers (s.leave call c) := by
    intro reqID ask h
    rw [hasked, h]
  have hstay : ∀ call' c', (s.leave call c).calls.lookup call' = some c' →
      call' ≠ call ∧ s.calls.lookup call' = some c' := by
    intro call' c' h
    rw [hcalls] at h
    exact GoMap.lookup_erase_cases h
  refine ⟨?_, ?_, ?_, ?_, ?_, ?_, ?_⟩
  · rw [hrequests]
    exact fun m hm => (sound.requests m hm).remembered hremembers
  · rw [hjobs]
    exact fun m hm => (sound.jobs m hm).remembered hremembers
  · rw [hresponses]
    exact fun m hm => (sound.responses m hm).remembered hremembers
  · intro call' c' h
    obtain ⟨hne, hc'⟩ := hstay call' c' h
    obtain ⟨hask, hfuture, hevent⟩ := sound.registered call' c' hc'
    have hid : c'.reqID ≠ c.reqID := fun hid =>
      hne (sound.distinct call' call c' c hc' hc hid)
    refine ⟨hremembers _ _ hask, ?_, hevent⟩
    change (s.unregister c).futureOf c'.reqID c'.ask = some c'.future
    rw [futureOf_unregister _ hid, hfuture]
  · intro call₁ call₂ c₁ c₂ h₁ h₂
    exact sound.distinct call₁ call₂ c₁ c₂ (hstay call₁ c₁ h₁).2 (hstay call₂ c₂ h₂).2
  · exact (findAddrs_unregister c sound.findAddrs).mono
      fun _ _ h addr haddr => (h addr haddr).remembered hremembers
  · exact (lookupPubs_unregister c sound.lookupPubs).mono
      fun _ _ h key hkey => (h key hkey).remembered hremembers

/-! ### Messages -/

/-- A message of the server settles at most the future under its own ID and kind. -/
theorem handleMessage_cases {x : Bytes} {msg : Option DataMsg}
    (hhandle : s.handleMessage C x = .ok (s', msg)) :
    s' = s ∨
    (∃ reqID future result, getType x = .ok mtFindAddr ∧ getRequestID x = .ok reqID ∧
      F.get s.findAddrs reqID = some future ∧ findAddrSettlement C x = .ok result ∧
      s' = { s with findAddrs := (F.settle s.findAddrs future result).1 }) ∨
    ∃ reqID future result, getType x = .ok mtPublicKey ∧ getRequestID x = .ok reqID ∧
      G.get s.lookupPubs reqID = some future ∧ lookupPublicKeySettlement C x = .ok result ∧
      s' = { s with lookupPubs := (G.settle s.lookupPubs future result).1 } := by
  obtain ⟨m, hm, hread⟩ := Go.bind_eq_ok.mp hhandle
  obtain ⟨mtype, htype, h⟩ := Go.bind_eq_ok.mp hread
  obtain rfl := (asMessage_eq_ok hm).1
  rw [htype]
  split at h
  · obtain ⟨msg, -, h⟩ := Go.bind_eq_ok.mp h
    cases h
    exact Or.inl rfl
  · split at h
    · next hfind =>
        subst hfind
        obtain ⟨reqID, hid, h⟩ := Go.bind_eq_ok.mp h
        split at h
        · cases h
          exact Or.inl rfl
        · next future hget =>
            obtain ⟨result, hresult, h⟩ := Go.bind_eq_ok.mp h
            cases h
            exact Or.inr (Or.inl ⟨reqID, future, result, rfl, hid, hget, hresult, rfl⟩)
    · split at h
      · next hkey =>
          subst hkey
          obtain ⟨reqID, hid, h⟩ := Go.bind_eq_ok.mp h
          split at h
          · cases h
            exact Or.inl rfl
          · next future hget =>
              obtain ⟨result, hresult, h⟩ := Go.bind_eq_ok.mp h
              cases h
              exact Or.inr (Or.inr ⟨reqID, future, result, rfl, hid, hget, hresult, rfl⟩)
      · split at h
        · cases h
          exact Or.inl rfl
        · cases h

theorem Expected.explains_addr {m : Bytes} (h : s.Expected C trace m) {reqID : RequestID}
    {addr : Addr} (htype : getType m = .ok mtFindAddr) (hid : getRequestID m = .ok reqID)
    (hresult : findAddrSettlement C m = .ok (.ok addr)) :
    s.Explains C trace reqID (.addr addr) := by
  rcases h with rfl | ⟨reqID', ask, hasked, hresponse⟩
  · cases htype
  · cases ask with
    | findAddr prefixBytes nbits =>
        obtain ⟨res, rfl, hserved⟩ := hresponse
        have hread := (Content.ask mtFindAddr reqID' (C.findAddrRes.marshal res)).readBack_bytes
        rw [hread.2.1] at hid
        cases hid
        refine ⟨_, hasked, ?_⟩
        obtain ⟨value, hvalue, haddr⟩ := Go.bind_eq_ok.mp (settlement_eq_ok.mp hresult)
        cases haddr
        rw [findAddrRes, readResponse_ask] at hvalue
        split at hvalue
        · cases hvalue
        · next herror =>
            cases hvalue
            exact hserved (not_not.mp herror)
    | lookupPublicKey target =>
        obtain ⟨res, rfl, -⟩ := hresponse
        have hread :=
          (Content.ask mtPublicKey reqID' (C.lookupPublicKeyRes.marshal res)).readBack_bytes
        rw [hread.1] at htype
        exact absurd (Except.ok.inj htype) (by decide)

theorem Expected.explains_publicKey {m : Bytes} (h : s.Expected C trace m)
    {reqID : RequestID} {key : PublicKey P} (htype : getType m = .ok mtPublicKey)
    (hid : getRequestID m = .ok reqID)
    (hresult : lookupPublicKeySettlement C m = .ok (.ok key)) :
    s.Explains C trace reqID (.publicKey key) := by
  rcases h with rfl | ⟨reqID', ask, hasked, hresponse⟩
  · cases htype
  · cases ask with
    | findAddr prefixBytes nbits =>
        obtain ⟨res, rfl, -⟩ := hresponse
        have hread := (Content.ask mtFindAddr reqID' (C.findAddrRes.marshal res)).readBack_bytes
        rw [hread.1] at htype
        exact absurd (Except.ok.inj htype) (by decide)
    | lookupPublicKey target =>
        obtain ⟨res, rfl, hserved⟩ := hresponse
        have hread :=
          (Content.ask mtPublicKey reqID' (C.lookupPublicKeyRes.marshal res)).readBack_bytes
        rw [hread.2.1] at hid
        cases hid
        refine ⟨_, hasked, ?_⟩
        obtain ⟨value, hvalue, hkey⟩ := Go.bind_eq_ok.mp (settlement_eq_ok.mp hresult)
        rw [lookupPublicKeyRes, readResponse_ask] at hvalue
        split at hvalue
        · cases hvalue
        · next herror =>
            cases hvalue
            exact hserved key (not_not.mp herror) hkey

/-- Settling a future leaves it registered. -/
theorem futureOf_handleMessage {m : Bytes} {msg : Option DataMsg}
    (h : s.handleMessage C m = .ok (s', msg)) (reqID : RequestID) (ask : Ask) :
    s'.futureOf reqID ask = s.futureOf reqID ask := by
  rcases handleMessage_cases h with rfl | ⟨-, future, result, -, -, -, -, rfl⟩ |
    ⟨-, future, result, -, -, -, -, rfl⟩
  · rfl
  · cases ask with
    | findAddr => exact F.get_settle s.findAddrs future result reqID
    | lookupPublicKey => rfl
  · cases ask with
    | findAddr => rfl
    | lookupPublicKey => exact G.get_settle s.lookupPubs future result reqID

theorem Sound.handleMessage (sound : Sound C trace s) {m : Bytes} {msg : Option DataMsg}
    (hm : s.Expected C trace m) (h : s.handleMessage C m = .ok (s', msg)) :
    Sound C trace s' := by
  rcases handleMessage_cases h with rfl | ⟨reqID, future, result, htype, hid, hget, hresult, rfl⟩ |
    ⟨reqID, future, result, htype, hid, hget, hresult, rfl⟩
  · exact sound
  · refine { sound with registered := ?_, findAddrs := ?_ }
    · intro call c hc
      obtain ⟨hask, hfuture, hevent⟩ := sound.registered call c hc
      exact ⟨hask, (futureOf_handleMessage h c.reqID c.ask).trans hfuture, hevent⟩
    · refine sound.findAddrs.settle hget ?_
      rintro addr rfl
      exact hm.explains_addr htype hid hresult
  · refine { sound with registered := ?_, lookupPubs := ?_ }
    · intro call c hc
      obtain ⟨hask, hfuture, hevent⟩ := sound.registered call c hc
      exact ⟨hask, (futureOf_handleMessage h c.reqID c.ask).trans hfuture, hevent⟩
    · refine sound.lookupPubs.settle hget ?_
      rintro key rfl
      exact hm.explains_publicKey htype hid hresult

theorem orLogged_cases {α : Type} {state state' : α} {call : Go α}
    (h : orLogged state call = some state') : call = .ok state' ∨ state' = state := by
  unfold orLogged at h
  split at h
  · cases h
    exact Or.inl rfl
  · cases h
    exact Or.inr rfl
  · cases h

theorem take_of_requested {m : Bytes} (h : s.Requested C m) : m.take maxFrameLen = m := by
  obtain ⟨reqID, ask, -, hrequest⟩ := h
  obtain ⟨rfl, hfits⟩ := Ask.request_eq_ok hrequest
  have hlength := Content.length_bytes_le hfits
  apply List.take_of_length_le
  unfold maxFrameLen
  omega

theorem Sound.serveMessage (sound : Sound C trace s) {m : Bytes} (hm : s.Requested C m)
    (h : s.serveMessage m = .ok s') : Sound C trace s' := by
  obtain ⟨m₁, -, h⟩ := Go.bind_eq_ok.mp h
  obtain ⟨mtype, -, h⟩ := Go.bind_eq_ok.mp h
  split at h
  · cases h
    exact sound
  · obtain ⟨m₂, hm₂, h⟩ := Go.bind_eq_ok.mp h
    have hsame := (asMessage_eq_ok (mustReturn_eq_ok.mp hm₂)).1
    rw [take_of_requested hm] at hsame
    cases h
    refine { sound with jobs := ?_ }
    intro m' hm'
    rcases Multiset.mem_cons.mp hm' with rfl | hm'
    · rw [hsame]
      exact hm
    · exact sound.jobs m' hm'

theorem Requested.expected (laws : LawfulKeys P) {m r : Bytes} (h : s.Requested C m)
    {node : Node P} {resBuf : List.Vector UInt8 maxFrameLen} {seen : Seen P}
    (htexts : s.textInErrors C (.serve m node resBuf))
    (hevent : (.serve m node resBuf, seen) ∈ trace) (hrespond : respond C node m resBuf = .ok r) :
    s.Expected C trace r := by
  obtain ⟨reqID, ask, hasked, hrequest⟩ := h
  have hm := (Ask.request_eq_ok hrequest).1
  rw [hm] at hrespond
  cases ask with
  | findAddr prefixBytes nbits =>
      have hreq : findAddrReq C m = .ok ⟨prefixBytes, nbits⟩ := by
        rw [hm]
        exact parseJSON_ask C.findAddrReq _ _ _
      have htype : getType m = .ok mtFindAddr := by
        rw [hm]
        exact (Ask.content C reqID (.findAddr prefixBytes nbits)).readBack_bytes.1
      refine (respond_findAddr (htexts htype _ hreq) hrespond).imp_right ?_
      rintro ⟨res, hr, hresult⟩
      exact ⟨reqID, _, hasked, res, hr, fun herror =>
        ⟨m, node, resBuf, seen, hevent, hrequest, hresult herror⟩⟩
  | lookupPublicKey target =>
      refine (respond_lookupPublicKey laws hrespond).imp_right ?_
      rintro ⟨res, hr, hresult⟩
      exact ⟨reqID, _, hasked, res, hr, fun key herror hkey =>
        ⟨m, node, resBuf, seen, hevent, hrequest, hresult key herror hkey⟩⟩

theorem Sound.sendResponse (sound : Sound C trace s) {m : Bytes} (hm : s.Expected C trace m)
    (h : s.sendResponse m = .ok s') : Sound C trace s' := by
  obtain ⟨bytes, -, h⟩ := Go.bind_eq_ok.mp h
  cases h
  refine { sound with responses := ?_ }
  intro m' hm'
  rcases Multiset.mem_cons.mp hm' with rfl | hm'
  · exact hm
  · exact sound.responses m' hm'

theorem Sound.eraseRequest (sound : Sound C trace s) (m : Bytes) :
    Sound C trace { s with requests := s.requests.erase m } :=
  { sound with requests := fun m' hm' => sound.requests m' (Multiset.mem_of_mem_erase hm') }

theorem Sound.eraseJob (sound : Sound C trace s) (m : Bytes) :
    Sound C trace { s with jobs := s.jobs.erase m } :=
  { sound with jobs := fun m' hm' => sound.jobs m' (Multiset.mem_of_mem_erase hm') }

theorem Sound.eraseResponse (sound : Sound C trace s) (m : Bytes) :
    Sound C trace { s with responses := s.responses.erase m } :=
  { sound with responses := fun m' hm' => sound.responses m' (Multiset.mem_of_mem_erase hm') }

/-! ### Runs -/

theorem Sound.step (laws : LawfulKeys P) (sound : Sound C trace s) {event : SessionEvent P}
    {seen : Seen P} (hallowed : s.freshAndTexts C event)
    (h : s.step C event = some (s', seen)) (hevent : (event, seen) ∈ trace) :
    Sound C trace s' := by
  cases event with
  | findAddr call reqID prefixBytes nbits =>
      obtain ⟨s₁, hask, heq⟩ := Option.map_eq_some_iff.mp h
      cases heq
      exact sound.ask hallowed.1 hask hevent
  | lookupPublicKey call reqID target =>
      obtain ⟨s₁, hask, heq⟩ := Option.map_eq_some_iff.mp h
      cases heq
      exact sound.ask hallowed.1 hask hevent
  | serverReceive m =>
      rw [Session.step] at h
      split at h
      · next hm =>
          have herased := sound.eraseRequest m
          obtain ⟨s₁, hlogged, heq⟩ := Option.map_eq_some_iff.mp h
          cases heq
          rcases orLogged_cases hlogged with hserve | rfl
          · exact herased.serveMessage (sound.requests m hm) hserve
          · exact herased
      · cases h
  | serve m node resBuf =>
      rw [Session.step] at h
      split at h
      · next hm =>
          simp only [Option.bind_eq_bind, Option.bind_eq_some_iff, toOption_eq_some] at h
          obtain ⟨r, hrespond, h⟩ := h
          have herased := sound.eraseJob m
          have hexpected := (sound.jobs m hm).expected laws hallowed.2 hevent hrespond
          obtain ⟨s₁, hlogged, heq⟩ := Option.map_eq_some_iff.mp h
          cases heq
          rcases orLogged_cases hlogged with hsend | rfl
          · exact herased.sendResponse hexpected hsend
          · exact herased
      · cases h
  | clientReceive m =>
      rw [Session.step] at h
      split at h
      · next hm =>
          have herased := sound.eraseResponse m
          obtain ⟨⟨s₁, msg⟩, hlogged, heq⟩ := Option.map_eq_some_iff.mp h
          cases heq
          rcases orLogged_cases hlogged with hhandle | hsame
          · exact herased.handleMessage (sound.responses m hm) hhandle
          · cases hsame
            exact herased
      · cases h
  | await call =>
      simp only [Session.step, Option.bind_eq_bind, Option.bind_eq_some_iff,
        Option.some.injEq, Prod.mk.injEq] at h
      obtain ⟨c, hc, result, -, rfl, -⟩ := h
      exact sound.leave hc
  | cancel call err =>
      simp only [Session.step, Option.bind_eq_bind, Option.bind_eq_some_iff,
        Option.some.injEq, Prod.mk.injEq] at h
      obtain ⟨c, hc, rfl, -⟩ := h
      exact sound.leave hc
  | loseRequest m =>
      cases h
      exact sound.eraseRequest m
  | loseResponse m =>
      cases h
      exact sound.eraseResponse m

theorem sound_run (laws : LawfulKeys P)
    (run : Runs (Session.step C) (freshAndTexts C) new trace s) : Sound C trace s := by
  refine run.history sound_new ?_
  intro trace s event s' seen _ sound hallowed hstep
  exact (sound.later [(event, seen)]).step laws hallowed hstep (by simp)

/-! ## The agreement -/

theorem returned_of_step {event : SessionEvent P} {c : ClientCall} {answer : Answer P}
    (h : s.step C event = some (s', .returned c (.ok answer))) :
    ∃ call, event = .await call ∧ s.calls.lookup call = some c ∧
      s.outcome c = some (.ok answer) := by
  cases event with
  | await call =>
      simp only [Session.step, Option.bind_eq_bind, Option.bind_eq_some_iff,
        Option.some.injEq, Prod.mk.injEq, Seen.returned.injEq] at h
      obtain ⟨c', hc, result, hresult, -, rfl, rfl⟩ := h
      exact ⟨call, rfl, hc, hresult⟩
  | cancel call err => simp [Session.step, Option.bind_eq_some_iff] at h
  | findAddr call reqID prefixBytes nbits => simp [Session.step] at h
  | lookupPublicKey call reqID target => simp [Session.step] at h
  | serverReceive m => simp [Session.step] at h
  | serve m node resBuf => simp [Session.step, Option.bind_eq_some_iff] at h
  | clientReceive m => simp [Session.step] at h
  | loseRequest m => simp [Session.step] at h
  | loseResponse m => simp [Session.step] at h

theorem exists_ok_of_map {α β : Type} {found : Option (Except String α)} {f : α → β} {value : β}
    (h : (found.map fun result => result.map f) = some (.ok value)) :
    ∃ inner, found = some (.ok inner) ∧ f inner = value := by
  obtain ⟨result, rfl, hresult⟩ := Option.map_eq_some_iff.mp h
  cases result with
  | error err => cases hresult
  | ok inner =>
      cases hresult
      exact ⟨inner, rfl, rfl⟩

theorem Sound.served (sound : Sound C trace s) {call : Nat} {c : ClientCall}
    {answer : Answer P} (hc : s.calls.lookup call = some c)
    (h : s.outcome c = some (.ok answer)) : Served C trace c.reqID c.ask answer := by
  obtain ⟨hasked, hfuture, -⟩ := sound.registered call c hc
  have hexplains : s.Explains C trace c.reqID answer := by
    unfold outcome at h
    split at h
    · next hask =>
        rw [hask] at hfuture
        obtain ⟨addr, hresult, rfl⟩ := exists_ok_of_map h
        exact sound.findAddrs _ _ _ hfuture hresult addr rfl
    · next hask =>
        rw [hask] at hfuture
        obtain ⟨key, hresult, rfl⟩ := exists_ok_of_map h
        exact sound.lookupPubs _ _ _ hfuture hresult key rfl
  obtain ⟨ask, hask, hserved⟩ := hexplains
  rw [hasked] at hask
  cases hask
  exact hserved

theorem Sound.completed (sound : Sound C trace s) {m : Bytes} {msg : Option DataMsg}
    {call : Nat} {c : ClientCall} {result : Except String (Answer P)}
    (h : s.handleMessage C m = .ok (s', msg)) (hc : s.calls.lookup call = some c)
    (hopen : s.outcome c = none) (hsettled : s'.outcome c = some result) :
    getType m = .ok c.ask.mtype ∧ getRequestID m = .ok c.reqID := by
  have hfuture := (sound.registered call c hc).2.1
  rcases handleMessage_cases h with rfl | ⟨reqID, future, value, htype, hid, hget, -, rfl⟩ |
    ⟨reqID, future, value, htype, hid, hget, -, rfl⟩
  · rw [hopen] at hsettled
    cases hsettled
  · cases hask : c.ask with
    | findAddr prefixBytes nbits =>
        simp only [outcome, hask, Option.map_eq_none_iff, Option.map_eq_some_iff] at hopen hsettled
        obtain ⟨value', hvalue', -⟩ := hsettled
        rw [hask] at hfuture
        rw [FutureStore.key_of_outcome_settle hget hfuture hopen hvalue']
        exact ⟨htype, hid⟩
    | lookupPublicKey target =>
        simp only [outcome, hask] at hopen hsettled
        rw [hopen] at hsettled
        cases hsettled
  · cases hask : c.ask with
    | findAddr prefixBytes nbits =>
        simp only [outcome, hask] at hopen hsettled
        rw [hopen] at hsettled
        cases hsettled
    | lookupPublicKey target =>
        simp only [outcome, hask, Option.map_eq_none_iff, Option.map_eq_some_iff] at hopen hsettled
        obtain ⟨value', hvalue', -⟩ := hsettled
        rw [hask] at hfuture
        rw [FutureStore.key_of_outcome_settle hget hfuture hopen hvalue']
        exact ⟨htype, hid⟩

/--
In every run with distinct request IDs in which the node's `FindAddr` never
returns an error without a text, calls agree with the node.
-/
theorem calls_agree (laws : LawfulKeys P)
    (run : Runs (Session.step C) (freshAndTexts C) new trace s) : Agreement C trace s := by
  constructor
  · rintro before event c answer after rfl
    obtain ⟨here, there, hbefore, -, hstep, -⟩ := run.middle
    obtain ⟨call, rfl, hc, houtcome⟩ := returned_of_step hstep
    have sound := sound_run laws hbefore
    exact ⟨⟨call, rfl, (sound.registered call c hc).2.2⟩, sound.served hc houtcome⟩
  · intro m s' seen call c result hstep hc hopen hsettled
    have sound := sound_run laws run
    rw [Session.step] at hstep
    split at hstep
    · obtain ⟨⟨s₁, msg⟩, hlogged, heq⟩ := Option.map_eq_some_iff.mp hstep
      cases heq
      rcases orLogged_cases hlogged with hhandle | hsame
      · exact (sound.eraseResponse m).completed hhandle hc hopen hsettled
      · cases hsame
        have hsettled : s.outcome c = some result := hsettled
        rw [hopen] at hsettled
        cases hsettled
    · cases hstep

theorem handleMessage_findAddr {s : Session P F G} {reqID : RequestID} {body : Bytes} {future : Nat}
    {result : Except String Addr} (hfits : (Content.ask mtFindAddr reqID body).Fits)
    (hget : F.get s.findAddrs reqID = some future)
    (hresult : findAddrSettlement C (Content.ask mtFindAddr reqID body).bytes = .ok result) :
    s.handleMessage C (Content.ask mtFindAddr reqID body).bytes =
      .ok ({ s with findAddrs := (F.settle s.findAddrs future result).1 }, none) := by
  obtain ⟨htype, hid, -⟩ := (Content.ask mtFindAddr reqID body).readBack_bytes
  have hother : mtFindAddr ≠ mtData := by decide
  simp only [handleMessage, Content.asMessage_bytes hfits, htype, hid, hget, hresult,
    Go.ok_bind, if_neg hother, if_true, Go.pure_eq_ok]

theorem handleMessage_lookupPublicKey {s : Session P F G} {reqID : RequestID} {body : Bytes}
    {future : Nat} {result : Except String (PublicKey P)}
    (hfits : (Content.ask mtPublicKey reqID body).Fits)
    (hget : G.get s.lookupPubs reqID = some future)
    (hresult : lookupPublicKeySettlement C (Content.ask mtPublicKey reqID body).bytes =
      .ok result) :
    s.handleMessage C (Content.ask mtPublicKey reqID body).bytes =
      .ok ({ s with lookupPubs := (G.settle s.lookupPubs future result).1 }, none) := by
  obtain ⟨htype, hid, -⟩ := (Content.ask mtPublicKey reqID body).readBack_bytes
  have hdata : mtPublicKey ≠ mtData := by decide
  have hfind : mtPublicKey ≠ mtFindAddr := by decide
  simp only [handleMessage, Content.asMessage_bytes hfits, htype, hid, hget, hresult,
    Go.ok_bind, if_neg hdata, if_neg hfind, if_true, Go.pure_eq_ok]

/-! ### A lone call -/

section LoneCall

variable (F) (C : Codecs) (reqID : RequestID) (prefixBytes : Bytes) (nbits : Int)
  (result : Result Addr)

def loneRequest : Bytes := (Ask.content C reqID (.findAddr prefixBytes nbits)).bytes

def loneResponse : Bytes :=
  (Content.ask mtFindAddr reqID (C.findAddrRes.marshal result.response)).bytes

/-- How the call ends: an error without a text is taken for success. -/
def loneOutcome : Except String Addr :=
  if result.response.error ≠ "" then .error result.response.error
  else .ok result.response.success.addr

def loneCall : ClientCall :=
  ⟨reqID, .findAddr prefixBytes nbits, (F.getOrCreate F.new reqID).2.1⟩

def loneTrace (node : Node P) (resBuf : List.Vector UInt8 maxFrameLen) : SessionTrace P :=
  let result := node.findAddr prefixBytes nbits
  [(.findAddr 0 reqID prefixBytes nbits, .nothing),
    (.serverReceive (loneRequest C reqID prefixBytes nbits), .nothing),
    (.serve (loneRequest C reqID prefixBytes nbits) node resBuf, .nothing),
    (.clientReceive (loneResponse C reqID result), .delivered none),
    (.await 0, .returned (loneCall F reqID prefixBytes nbits)
      ((loneOutcome result).map .addr))]

variable {F}

def loneSession (requests jobs responses : Multiset Bytes) : Session P F G where
  findAddrs := (F.getOrCreate F.new reqID).1
  lookupPubs := G.new
  calls := (∅ : GoMap Nat ClientCall).insert 0 (loneCall F reqID prefixBytes nbits)
  asked := (∅ : GoMap RequestID Ask).insert reqID (.findAddr prefixBytes nbits)
  requests
  jobs
  responses

/-- The response has settled the call's future. -/
def loneAnswered : Session P F G :=
  { (loneSession reqID prefixBytes nbits 0 0 0 : Session P F G) with
    findAddrs := (F.settle (F.getOrCreate F.new reqID).1 (F.getOrCreate F.new reqID).2.1
      (loneOutcome result)).1 }

variable {C reqID prefixBytes nbits result} {node : Node P}
  {resBuf : List.Vector UInt8 maxFrameLen}

theorem step_findAddr_lone (h : (Ask.content C reqID (.findAddr prefixBytes nbits)).Fits) :
    (new : Session P F G).step C (.findAddr 0 reqID prefixBytes nbits) =
      some (loneSession reqID prefixBytes nbits {loneRequest C reqID prefixBytes nbits} 0 0,
        .nothing) := by
  simp only [step, ask, Ask.request_of_fits h]
  rfl

theorem step_serverReceive_lone
    (h : (Ask.content C reqID (.findAddr prefixBytes nbits)).Fits) :
    (loneSession reqID prefixBytes nbits {loneRequest C reqID prefixBytes nbits} 0 0 :
      Session P F G).step C (.serverReceive (loneRequest C reqID prefixBytes nbits)) =
      some (loneSession reqID prefixBytes nbits 0 {loneRequest C reqID prefixBytes nbits} 0,
        .nothing) := by
  have hmessage := Content.asMessage_bytes h true
  have htype := (Ask.content C reqID (.findAddr prefixBytes nbits)).readBack_bytes.1
  have htake : (Ask.content C reqID (.findAddr prefixBytes nbits)).bytes.take maxFrameLen =
      (Ask.content C reqID (.findAddr prefixBytes nbits)).bytes := by
    have hlength := Content.length_bytes_le h
    apply List.take_of_length_le
    unfold maxFrameLen
    omega
  have hask : ¬ (mtFindAddr = mtData ∨ mtFindAddr = mtKeepAlive) := by decide
  simp only [step, loneSession, loneRequest, Multiset.mem_singleton, if_true, serveMessage,
    hmessage, Go.ok_bind, htype, Ask.mtype, if_neg hask, htake, mustReturn, Go.pure_eq_ok,
    orLogged, Option.map_some, Multiset.erase_singleton]
  rfl

theorem step_serve_lone
    (h : (Content.ask mtFindAddr reqID (C.findAddrRes.marshal
      (node.findAddr prefixBytes nbits).response)).Fits) :
    (loneSession reqID prefixBytes nbits 0 {loneRequest C reqID prefixBytes nbits} 0 :
      Session P F G).step C (.serve (loneRequest C reqID prefixBytes nbits) node resBuf) =
      some (loneSession reqID prefixBytes nbits 0 0
        {loneResponse C reqID (node.findAddr prefixBytes nbits)}, .nothing) := by
  have hrespond := respond_findAddr_of_fits resBuf h
  have hsend := send_eq (Content.length_bytes_le h)
  simp only [step, loneSession, loneRequest, loneResponse, Multiset.mem_singleton, if_true,
    hrespond, Except.toOption, Option.bind_eq_bind, Option.bind_some, sendResponse, hsend,
    Go.ok_bind, Go.pure_eq_ok, orLogged, Option.map_some, Multiset.erase_singleton]
  rfl

theorem findAddrSettlement_lone :
    findAddrSettlement C (loneResponse C reqID result) = .ok (loneOutcome result) := by
  unfold findAddrSettlement findAddrRes loneResponse loneOutcome
  rw [readResponse_ask]
  split <;> rfl

theorem step_clientReceive_lone
    (h : (Content.ask mtFindAddr reqID (C.findAddrRes.marshal result.response)).Fits) :
    (loneSession reqID prefixBytes nbits 0 0 {loneResponse C reqID result} : Session P F G).step C
        (.clientReceive (loneResponse C reqID result)) =
      some (loneAnswered reqID prefixBytes nbits result, .delivered none) := by
  have hsettlement : findAddrSettlement C (loneResponse C reqID result) = _ :=
    findAddrSettlement_lone
  have hhandle : (loneSession reqID prefixBytes nbits 0 0 0 : Session P F G).handleMessage C
      (loneResponse C reqID result) = _ :=
    handleMessage_findAddr h (F.get_getOrCreate_self F.new reqID) hsettlement
  unfold loneSession at hhandle
  simp only [step, loneSession, Multiset.mem_singleton, if_true, Multiset.erase_singleton,
    hhandle, orLogged, Option.map_some]
  rfl

theorem step_await_lone :
    (loneAnswered reqID prefixBytes nbits result : Session P F G).step C (.await 0) =
      some ((loneAnswered reqID prefixBytes nbits result).leave 0
        (loneCall F reqID prefixBytes nbits),
        .returned (loneCall F reqID prefixBytes nbits) ((loneOutcome result).map .addr)) := by
  have hmade := F.made_of_get _ _ _ (F.get_getOrCreate_self F.new reqID)
  have houtcome : F.outcome (F.settle (F.getOrCreate F.new reqID).1
      (F.getOrCreate F.new reqID).2.1 (loneOutcome result)).1 (F.getOrCreate F.new reqID).2.1 =
      some (loneOutcome result) := by
    rw [F.outcome_settle _ _ _ _ hmade, F.outcome_getOrCreate, F.outcome_new, if_pos ⟨rfl, rfl⟩]
  simp only [step, loneAnswered, loneSession, loneCall, Finmap.lookup_insert, Option.bind_eq_bind,
    Option.bind_some, outcome, houtcome, Option.map_some]

/-- With nothing else going on, a call returns what its response says. -/
theorem runs_lone {allowed : Session P F G → SessionEvent P → Prop}
    (hrequest : (Ask.content C reqID (.findAddr prefixBytes nbits)).Fits)
    (hresponse : (Content.ask mtFindAddr reqID (C.findAddrRes.marshal
      (node.findAddr prefixBytes nbits).response)).Fits)
    (hcall : allowed new (.findAddr 0 reqID prefixBytes nbits))
    (hserver : ∀ s m, allowed s (.serverReceive m))
    (hserve : ∀ s, allowed s (.serve (loneRequest C reqID prefixBytes nbits) node resBuf))
    (hclient : ∀ s m, allowed s (.clientReceive m))
    (hawait : ∀ s call, allowed s (.await call)) :
    ∃ s, Runs (step C) allowed (new : Session P F G)
      (loneTrace F C reqID prefixBytes nbits node resBuf) s := by
  have called := Runs.single hcall (step_findAddr_lone hrequest)
  have received := called.next (hserver _ _) (step_serverReceive_lone hrequest)
  have served := received.next (hserve _) (step_serve_lone hresponse)
  have answered := served.next (hclient _ _) (step_clientReceive_lone hresponse)
  have returned := answered.next (hawait _ _) step_await_lone
  exact ⟨_, returned⟩

end LoneCall

def sampleReqID : RequestID := copyTo 16 [1]

def sampleAddr : Addr := copyTo 32 [7]

def sampleNode (err : Option String) : Node samplePrimitives where
  findAddr _ _ := ⟨sampleAddr, err⟩
  lookupPublicKey _ := ⟨.base (false, 1), none⟩

abbrev SampleSession := Session samplePrimitives FutureStore.table FutureStore.table

def sampleTrace (err : Option String) : SessionTrace samplePrimitives :=
  loneTrace FutureStore.table sampleCodecs sampleReqID [255] 8 (sampleNode err)
    (.replicate maxFrameLen 0)

theorem fits_sampleRequest :
    (Ask.content sampleCodecs sampleReqID (.findAddr [255] 8)).Fits :=
  ⟨Or.inl rfl, by decide⟩

theorem calls_agree_on_found_address :
    ∃ s : SampleSession, Runs (step sampleCodecs) (freshAndTexts sampleCodecs) new
        (sampleTrace none) s ∧
      Agreement sampleCodecs (sampleTrace none) s := by
  have htexts : ∀ s : SampleSession, s.freshAndTexts sampleCodecs
      (.serve (loneRequest sampleCodecs sampleReqID [255] 8) (sampleNode none)
        (.replicate maxFrameLen 0)) := by
    intro s
    refine ⟨trivial, fun _ req _ => ?_⟩
    simp [sampleNode]
  have hresponse : (Content.ask mtFindAddr sampleReqID (sampleCodecs.findAddrRes.marshal
      ((sampleNode none).findAddr [255] 8).response)).Fits :=
    ⟨Or.inl rfl, by decide⟩
  obtain ⟨s, run⟩ := runs_lone fits_sampleRequest hresponse
    ⟨rfl, trivial⟩ (fun _ _ => ⟨trivial, trivial⟩) htexts
    (fun _ _ => ⟨trivial, trivial⟩) (fun _ _ => ⟨trivial, trivial⟩)
  exact ⟨s, run, calls_agree samplePrimitives_lawfulKeys run⟩

/-- An error without a text: the call returns the zero address. -/
theorem empty_error_returned_as_address :
    ∃ s : SampleSession, Runs (step sampleCodecs) drawsFresh new (sampleTrace (some "")) s ∧
      ¬ Agreement sampleCodecs (sampleTrace (some "")) s ∧
      (sampleTrace (some "")).getLast? = some (.await 0,
        .returned ⟨sampleReqID, .findAddr [255] 8, 0⟩ (.ok (.addr FindAddrRes.zero.addr))) ∧
      ((sampleNode (some "")).findAddr [255] 8).value ≠ FindAddrRes.zero.addr := by
  have hresponse : (Content.ask mtFindAddr sampleReqID (sampleCodecs.findAddrRes.marshal
      ((sampleNode (some "")).findAddr [255] 8).response)).Fits :=
    ⟨Or.inl rfl, by decide⟩
  obtain ⟨s, run⟩ := runs_lone fits_sampleRequest hresponse
    (show (new : SampleSession).drawsFresh (.findAddr 0 sampleReqID [255] 8) from rfl)
    (fun _ _ => trivial) (fun _ => trivial) (fun _ _ => trivial) (fun _ _ => trivial)
  refine ⟨s, run, fun agreement => ?_, rfl, by decide⟩
  obtain ⟨-, m, node, resBuf, seen, hserve, -, hanswers⟩ :=
    agreement.returned ((sampleTrace (some "")).take 4) (.await 0)
      ⟨sampleReqID, .findAddr [255] 8, 0⟩ (.addr FindAddrRes.zero.addr) [] rfl
  simp [sampleTrace, loneTrace] at hserve
  rw [hserve.1.2.1] at hanswers
  have herr : some "" = none := congrArg Result.err hanswers
  cases herr

end Session

end Inet256.Ipc
