import Inet256.Dns256.Message
import Inet256.Foundation.Futures
import Inet256.Foundation.Runs

/-!
# Clients and servers

A client gives each request a number and waits for the response with that number
from the server it asked.  Every call runs a loop that reads the client's
messages, so that a call's response may be read by the loop of another; the loops
find the call through a store of futures.  Messages that were sent stay where
they can be received, any number of times or never.
-/

namespace Inet256.Dns256

open Inet256.Foundation

/--
`encoding/json` at requests and responses.  Their numbers are under different
names, so that none is found in the one when it is read as the other.
-/
structure WireCodec where
  marshalRequest : Request → Except String Bytes
  unmarshalRequest : Bytes → Option Request
  marshalResponse : Response → Option Bytes
  unmarshalResponse : Bytes → Option Response
  request_id : ∀ req data req', marshalRequest req = .ok data →
    unmarshalRequest data = some req' → req'.id = req.id
  response_id : ∀ res data res', marshalResponse res = some data →
    unmarshalResponse data = some res' → res'.requestID = res.requestID
  request_as_response : ∀ req data res, marshalRequest req = .ok data →
    unmarshalResponse data = some res → res.requestID = RequestID.zero
  response_as_request : ∀ res data req, marshalResponse res = some data →
    unmarshalRequest data = some req → req.id = RequestID.zero

/-- What a handler does to a response, and whether it is sent.  It may depend on more than the
request, a value of type `τ`. -/
abbrev Handler (τ : Type) := τ → Response → Request → Response × Bool

/-- The nodes: one is the client's, some run `Serve`, and the client's may be among them. -/
structure Deployment (τ : Type) where
  codec : WireCodec
  client : Addr
  handlers : Addr → Option (Handler τ)

structure Message where
  src : Addr
  dst : Addr
  payload : Bytes
  deriving DecidableEq

structure ReqKey where
  addr : Addr
  id : RequestID
  deriving DecidableEq

inductive DoPhase where
  | sending
  | awaiting
  /-- The result is known, the deferred calls are still to be made. -/
  | leaving (result : Except String Response)
  | returned (result : Except String Response)

def DoPhase.result : DoPhase → Option (Except String Response)
  | .leaving result | .returned result => some result
  | _ => none

/-- The variables of a call of `Do`. -/
structure DoCall where
  dst : Addr
  request : Request
  data : Bytes
  future : Nat
  created : Bool

def DoCall.key (c : DoCall) : ReqKey := ⟨c.dst, c.request.id⟩

/-- A goroutine of `Serve`. -/
structure Job where
  server : Addr
  replyTo : Addr
  request : Request

structure Exchange (F : FutureStore ReqKey Response) where
  reqs : F.Store
  calls : GoMap Nat DoCall
  phases : GoMap Nat DoPhase
  /-- The futures that read loops have found and are about to complete. -/
  held : GoMap Nat (Nat × Response)
  jobs : List Job
  sent : List Message
  /-- The numbers that calls have drawn. -/
  drawn : List RequestID

inductive DoEvent (τ : Type) where
  | start (call : Nat) (dst : Addr) (query : Query) (id : RequestID)
  | send (call : Nat) (err : Option String)
  | await (call : Nat)
  | cancel (call : Nat) (err : String)
  | finish (call : Nat)
  | receive (loop message : Nat)
  | succeed (loop : Nat)
  | accept (message : Nat)
  | reply (job : Nat) (moment : τ)
  | inject (message : Message)

inductive DoSeen where
  | nothing
  | started
  | returned (result : Except String Response)
  | picked (future : Nat)
  | panicked

/-- The future that was found, or the number of the response that was returned. -/
def DoSeen.outcome : DoSeen → Option (Nat ⊕ RequestID)
  | .picked future => some (.inl future)
  | .returned (.ok res) => some (.inr res.requestID)
  | _ => none

namespace Exchange

variable {F : FutureStore ReqKey Response} {τ : Type} (D : Deployment τ)

def new : Exchange F := ⟨F.new, ∅, ∅, ∅, [], [], []⟩

def enter (s : Exchange F) (call : Nat) (phase : DoPhase) : Exchange F :=
  { s with phases := s.phases.insert call phase }

def transmit (s : Exchange F) (m : Message) : Exchange F := { s with sent := s.sent ++ [m] }

/-- `Do` up to where it has its future. -/
def start (s : Exchange F) (call : Nat) (dst : Addr) (req : Request) : Exchange F × DoSeen :=
  let s := { s with drawn := req.id :: s.drawn }
  match D.codec.marshalRequest req with
  | .error err => (s, .returned (.error err))
  | .ok data =>
      let (reqs, future, created) := F.getOrCreate s.reqs ⟨dst, req.id⟩
      ({ s with
        reqs
        calls := s.calls.insert call ⟨dst, req, data, future, created⟩ }.enter call .sending,
        .started)

/-- The message may have left even if there is an error. -/
def send (s : Exchange F) (call : Nat) (c : DoCall) (err : Option String) : Exchange F :=
  let s := s.transmit ⟨D.client, c.dst, c.data⟩
  match err with
  | some err => s.enter call (.leaving (.error err))
  | none => s.enter call .awaiting

/-- The deferred calls. -/
def finish (s : Exchange F) (call : Nat) (c : DoCall) (result : Except String Response) :
    Exchange F :=
  let reqs := if c.created then F.delete s.reqs c.key c.future else s.reqs
  { s with reqs }.enter call (.returned result)

/-- What a read loop does with a message, up to where it completes the future. -/
def receive (s : Exchange F) (loop : Nat) (m : Message) : Exchange F × DoSeen :=
  match D.codec.unmarshalResponse m.payload with
  | none => (s, .nothing)
  | some res =>
      match F.get s.reqs ⟨m.src, res.requestID⟩ with
      | none => (s, .nothing)
      | some future => ({ s with held := s.held.insert loop (future, res) }, .picked future)

def accept (s : Exchange F) (m : Message) : Exchange F :=
  match D.codec.unmarshalRequest m.payload with
  | none => s
  | some req => { s with jobs := s.jobs ++ [⟨m.dst, m.src, req⟩] }

/-- The end of a goroutine of `Serve`. -/
def reply (s : Exchange F) (job : Job) (h : Handler τ) (moment : τ) : Exchange F × DoSeen :=
  let (res, ok) := h moment Response.zero job.request
  if !ok then (s, .nothing)
  else
    match D.codec.marshalResponse { res with requestID := job.request.id } with
    | none => (s, .panicked)
    | some data => (s.transmit ⟨job.server, job.replyTo, data⟩, .nothing)

def step (s : Exchange F) : DoEvent τ → Option (Exchange F × DoSeen)
  | .start call dst query id =>
      match s.calls.lookup call, s.phases.lookup call with
      | none, none => some (s.start D call dst ⟨id, query⟩)
      | _, _ => none
  | .send call err =>
      match s.calls.lookup call, s.phases.lookup call with
      | some c, some .sending => some (s.send D call c err, .nothing)
      | _, _ => none
  | .await call =>
      match s.calls.lookup call, s.phases.lookup call with
      | some c, some .awaiting =>
          match F.outcome s.reqs c.future with
          | some res => some (s.enter call (.leaving (.ok res)), .nothing)
          | none => none
      | _, _ => none
  | .cancel call err =>
      match s.phases.lookup call with
      | some .awaiting => some (s.enter call (.leaving (.error err)), .nothing)
      | _ => none
  | .finish call =>
      match s.calls.lookup call, s.phases.lookup call with
      | some c, some (.leaving result) => some (s.finish call c result, .returned result)
      | _, _ => none
  | .receive loop message =>
      match s.calls.lookup loop, s.held.lookup loop, s.sent[message]? with
      | some c, none, some m =>
          if c.created = true ∧ m.dst = D.client then some (s.receive D loop m) else none
      | _, _, _ => none
  | .succeed loop =>
      match s.held.lookup loop with
      | some (future, res) =>
          some ({ s with
            reqs := (F.settle s.reqs future res).1
            held := s.held.erase loop }, .nothing)
      | none => none
  | .accept message =>
      match s.sent[message]? with
      | some m =>
          match D.handlers m.dst with
          | some _ => some (s.accept D m, .nothing)
          | none => none
      | none => none
  | .reply job moment =>
      match s.jobs[job]? with
      | some j =>
          match D.handlers j.server with
          | some h => some ({ s with jobs := s.jobs.eraseIdx job }.reply D j h moment)
          | none => none
      | none => none
  | .inject m => some (s.transmit m, .nothing)

/--
A number that was not drawn before.  If the client's node runs `Serve` too, the
zero number is not drawn: it is what is read where there is none.
-/
def fresh (s : Exchange F) (id : RequestID) : Prop :=
  id ∉ s.drawn ∧ ((D.handlers D.client).isSome = true → id ≠ RequestID.zero)

instance (s : Exchange F) (id : RequestID) : Decidable (fresh D s id) :=
  inferInstanceAs (Decidable (_ ∧ _))

/-- Numbers are fresh, and nodes that are no part of this send what they like. -/
def lawful (s : Exchange F) : DoEvent τ → Prop
  | .start _ _ _ id => fresh D s id
  | .inject m => m.src ≠ D.client ∧ (D.handlers m.src).isNone = true
  | _ => True

instance (s : Exchange F) (event : DoEvent τ) : Decidable (lawful D s event) := by
  unfold lawful
  split <;> infer_instance

/-! ## Where responses come from -/

/-- A message with this response, from the call's server and with the call's number. -/
def Delivered (sent : List Message) (c : DoCall) (res : Response) : Prop :=
  ∃ m ∈ sent, m.src = c.dst ∧ m.dst = D.client ∧
    D.codec.unmarshalResponse m.payload = some res ∧ res.requestID = c.request.id

/-- What a handler makes of the request in a message. -/
def Handles (h : Handler τ) (data payload : Bytes) : Prop :=
  ∃ moment req res, D.codec.unmarshalRequest data = some req ∧
    h moment Response.zero req = (res, true) ∧
    D.codec.marshalResponse { res with requestID := req.id } = some payload

/-- The calls have requests and futures of their own. -/
structure CallsSound (s : Exchange F) : Prop where
  created : ∀ n c, s.calls.lookup n = some c → c.created = true
  data : ∀ n c, s.calls.lookup n = some c → D.codec.marshalRequest c.request = .ok c.data
  drawn : ∀ n c, s.calls.lookup n = some c → c.request.id ∈ s.drawn
  nonzero : (D.handlers D.client).isSome = true → ∀ n c, s.calls.lookup n = some c →
    c.request.id ≠ RequestID.zero
  made : ∀ n c, s.calls.lookup n = some c → F.Made s.reqs c.future
  ids : s.calls.Distinct fun c => c.request.id
  futures : s.calls.Distinct fun c => c.future

/-- A message of the client with the request of a call. -/
def Requests (s : Exchange F) (m : Message) : Prop :=
  m.src = D.client ∧ ∃ n c, s.calls.lookup n = some c ∧ c.dst = m.dst ∧ c.data = m.payload

/-- A message with what a handler made of one that was sent to it. -/
def Answers (sent : List Message) (m : Message) : Prop :=
  ∃ h, D.handlers m.src = some h ∧ ∃ asked ∈ sent, asked.src = m.dst ∧ asked.dst = m.src ∧
    Handles D h asked.payload m.payload

/-- The client sends the requests of its calls, and servers answer what was sent to them. -/
structure TrafficSound (s : Exchange F) : Prop where
  origins : ∀ m ∈ s.sent, m.src = D.client ∨ (D.handlers m.src).isSome = true →
    Requests D s m ∨ Answers D s.sent m
  jobs : ∀ job ∈ s.jobs, ∃ m ∈ s.sent, m.src = job.replyTo ∧ m.dst = job.server ∧
    D.codec.unmarshalRequest m.payload = some job.request

/-- Only calls that wait can be found, and what they are given was delivered for them. -/
structure FuturesSound (s : Exchange F) : Prop where
  registered : ∀ key future, F.get s.reqs key = some future → ∃ n c, s.calls.lookup n = some c ∧
    c.key = key ∧ c.future = future ∧ ∀ result, s.phases.lookup n ≠ some (.returned result)
  outcomes : ∀ n c res, s.calls.lookup n = some c → F.outcome s.reqs c.future = some res →
    Delivered D s.sent c res
  held : ∀ loop future res, s.held.lookup loop = some (future, res) →
    ∃ n c, s.calls.lookup n = some c ∧ c.future = future ∧ Delivered D s.sent c res
  results : ∀ n c phase res, s.calls.lookup n = some c → s.phases.lookup n = some phase →
    phase.result = some (.ok res) → Delivered D s.sent c res

structure Sound (s : Exchange F) : Prop where
  calls : CallsSound D s
  traffic : TrafficSound D s
  futures : FuturesSound D s

variable {D} {s s' : Exchange F}

theorem sound_new : Sound D (new : Exchange F) where
  calls := by constructor <;> simp [new]
  traffic := by constructor <;> simp [new]
  futures := by
    constructor
    · intro key future h
      rw [show F.get new.reqs key = none from F.get_new key] at h
      cases h
    all_goals simp [new]

theorem Delivered.mono {sent sent' : List Message} {c : DoCall} {res : Response}
    (h : Delivered D sent c res) (hsub : sent ⊆ sent') : Delivered D sent' c res := by
  obtain ⟨m, hm, hdelivered⟩ := h
  exact ⟨m, hsub hm, hdelivered⟩

theorem Answers.mono {sent sent' : List Message} {m : Message} (h : Answers D sent m)
    (hsub : sent ⊆ sent') : Answers D sent' m := by
  obtain ⟨handler, hhandler, asked, hasked, hanswers⟩ := h
  exact ⟨handler, hhandler, asked, hsub hasked, hanswers⟩

theorem CallsSound.keep (h : CallsSound D s) (hcalls : s'.calls = s.calls)
    (hdrawn : s'.drawn = s.drawn)
    (hmade : ∀ future, F.Made s.reqs future → F.Made s'.reqs future) : CallsSound D s' := by
  constructor
  · rw [hcalls]
    exact h.created
  · rw [hcalls]
    exact h.data
  · rw [hcalls, hdrawn]
    exact h.drawn
  · rw [hcalls]
    exact h.nonzero
  · rw [hcalls]
    exact fun n c hc => hmade c.future (h.made n c hc)
  · rw [hcalls]
    exact h.ids
  · rw [hcalls]
    exact h.futures

theorem TrafficSound.keep (h : TrafficSound D s) (hcalls : s'.calls = s.calls)
    (hsent : s'.sent = s.sent) (hjobs : s'.jobs = s.jobs) : TrafficSound D s' := by
  constructor
  · unfold Requests
    rw [hcalls, hsent]
    exact h.origins
  · rw [hjobs, hsent]
    exact h.jobs

theorem FuturesSound.keep (h : FuturesSound D s) (hreqs : s'.reqs = s.reqs)
    (hcalls : s'.calls = s.calls) (hphases : s'.phases = s.phases) (hheld : s'.held = s.held)
    (hsent : s'.sent = s.sent) : FuturesSound D s' := by
  constructor
  · rw [hreqs, hcalls, hphases]
    exact h.registered
  · rw [hreqs, hcalls, hsent]
    exact h.outcomes
  · rw [hheld, hcalls, hsent]
    exact h.held
  · rw [hcalls, hphases, hsent]
    exact h.results

/-- A message of a call or of a server, or of a node that is neither. -/
theorem Sound.transmit (sound : Sound D s) {m : Message}
    (horigin : m.src = D.client ∨ (D.handlers m.src).isSome = true →
      Requests D s m ∨ Answers D s.sent m) : Sound D (s.transmit m) := by
  have hsub : s.sent ⊆ s.sent ++ [m] := List.subset_append_left _ _
  refine ⟨sound.calls.keep rfl rfl fun _ h => h, ⟨?_, ?_⟩,
    ⟨sound.futures.registered, ?_, ?_, ?_⟩⟩
  · intro other hother hpart
    have hold : Requests D s other ∨ Answers D s.sent other := by
      rcases List.mem_append.mp hother with hold | hnew
      · exact sound.traffic.origins other hold hpart
      · rw [List.mem_singleton.mp hnew] at hpart ⊢
        exact horigin hpart
    exact hold.imp_right fun hanswers => hanswers.mono hsub
  · intro job hjob
    obtain ⟨asked, hasked, hjob⟩ := sound.traffic.jobs job hjob
    exact ⟨asked, hsub hasked, hjob⟩
  · intro n c res hc houtcome
    exact (sound.futures.outcomes n c res hc houtcome).mono hsub
  · intro loop future res hheld
    obtain ⟨n, c, hc, hfuture, hdelivered⟩ := sound.futures.held loop future res hheld
    exact ⟨n, c, hc, hfuture, hdelivered.mono hsub⟩
  · intro n c phase res hc hphase hresult
    exact (sound.futures.results n c phase res hc hphase hresult).mono hsub

/-- A call goes on, and has a response only if one was delivered. -/
theorem Sound.enter (sound : Sound D s) (n : Nat) (phase : DoPhase)
    (hreturned : ∀ result, phase ≠ .returned result)
    (hresult : ∀ c res, s.calls.lookup n = some c → phase.result = some (.ok res) →
      Delivered D s.sent c res) : Sound D (s.enter n phase) := by
  refine ⟨sound.calls.keep rfl rfl fun _ h => h, sound.traffic.keep rfl rfl rfl,
    ⟨?_, sound.futures.outcomes, sound.futures.held, ?_⟩⟩
  · intro key future hget
    obtain ⟨m, c, hc, hkey, hfuture, hwaits⟩ := sound.futures.registered key future hget
    refine ⟨m, c, hc, hkey, hfuture, fun result hphase => ?_⟩
    rcases GoMap.lookup_insert_cases hphase with ⟨-, hnew⟩ | ⟨-, hold⟩
    · exact hreturned result hnew.symm
    · exact hwaits result hold
  · intro m c phase' res hc hphase hres
    rcases GoMap.lookup_insert_cases hphase with ⟨rfl, rfl⟩ | ⟨-, hold⟩
    · exact hresult c res hc hres
    · exact sound.futures.results m c phase' res hc hold hres

/-- A call that returns is found by no message any more. -/
theorem Sound.finish (sound : Sound D s) {n : Nat} {c : DoCall} {result : Except String Response}
    (hc : s.calls.lookup n = some c) (hphase : s.phases.lookup n = some (.leaving result)) :
    Sound D (s.finish n c result) := by
  have hreqs : (s.finish n c result).reqs = F.delete s.reqs c.key c.future := by
    simp [Exchange.finish, Exchange.enter, sound.calls.created n c hc]
  have hmade : ∀ future, F.Made s.reqs future → F.Made (s.finish n c result).reqs future := by
    intro future h
    rw [hreqs]
    exact (F.made_delete _ _ _ future).mpr h
  refine ⟨sound.calls.keep rfl rfl hmade, sound.traffic.keep rfl rfl rfl,
    ⟨?_, ?_, sound.futures.held, ?_⟩⟩
  · intro key future hget
    rw [hreqs] at hget
    obtain ⟨hget, hother⟩ := FutureStore.get_of_delete hget
    obtain ⟨m, c', hc', hkey, hfuture, hwaits⟩ := sound.futures.registered key future hget
    refine ⟨m, c', hc', hkey, hfuture, fun result hphase => ?_⟩
    rcases GoMap.lookup_insert_cases hphase with ⟨rfl, -⟩ | ⟨-, hold⟩
    · rw [hc] at hc'
      cases hc'
      exact hother ⟨hkey.symm, hfuture.symm⟩
    · exact hwaits result hold
  · intro m c' res hc' houtcome
    rw [hreqs, F.outcome_delete] at houtcome
    exact sound.futures.outcomes m c' res hc' houtcome
  · intro m c' phase res hc' hphase' hres
    rcases GoMap.lookup_insert_cases hphase' with ⟨rfl, rfl⟩ | ⟨-, hold⟩
    · exact sound.futures.results m c' _ res hc' hphase hres
    · exact sound.futures.results m c' phase res hc' hold hres

/-- A read loop only finds calls that asked the sender and have the response's number. -/
theorem Sound.receive (sound : Sound D s) {loop : Nat} {m : Message} (hm : m ∈ s.sent)
    (hdst : m.dst = D.client) : Sound D (s.receive D loop m).1 := by
  unfold Exchange.receive
  split
  · exact sound
  · next res hres =>
      split
      · exact sound
      · next future hget =>
          obtain ⟨n, c, hc, hkey, hfuture, -⟩ := sound.futures.registered _ future hget
          have hdelivered : Delivered D s.sent c res :=
            ⟨m, hm, congrArg ReqKey.addr hkey.symm, hdst, hres, congrArg ReqKey.id hkey.symm⟩
          refine ⟨sound.calls.keep rfl rfl fun _ h => h, sound.traffic.keep rfl rfl rfl,
            ⟨sound.futures.registered, sound.futures.outcomes, ?_, sound.futures.results⟩⟩
          intro other future' res' hheld
          rcases GoMap.lookup_insert_cases hheld with ⟨-, hnew⟩ | ⟨-, hold⟩
          · cases hnew
            exact ⟨n, c, hc, hfuture, hdelivered⟩
          · exact sound.futures.held other future' res' hold

theorem Sound.succeed (sound : Sound D s) {loop future : Nat} {res : Response}
    (hheld : s.held.lookup loop = some (future, res)) :
    Sound D { s with
      reqs := (F.settle s.reqs future res).1
      held := s.held.erase loop } := by
  obtain ⟨n, c, hc, rfl, hdelivered⟩ := sound.futures.held loop future res hheld
  have hmade : ∀ future, F.Made s.reqs future →
      F.Made (F.settle s.reqs c.future res).1 future :=
    fun future h => (F.made_settle _ _ _ future).mpr h
  refine ⟨sound.calls.keep rfl rfl hmade, sound.traffic.keep rfl rfl rfl,
    ⟨?_, ?_, ?_, sound.futures.results⟩⟩
  · intro key future hget
    dsimp only at hget
    rw [F.get_settle] at hget
    exact sound.futures.registered key future hget
  · intro m c' res' hc' houtcome
    rcases FutureStore.outcome_of_settle (sound.calls.made n c hc) houtcome with hold | ⟨hthis, rfl⟩
    · exact sound.futures.outcomes m c' res' hc' hold
    · -- The futures of two calls differ, so this is the call the response was held for.
      obtain rfl := sound.calls.futures m n c' c hc' hc hthis
      rw [hc] at hc'
      cases hc'
      exact hdelivered
  · intro other future' res' hheld'
    exact sound.futures.held other future' res' (GoMap.lookup_erase_cases hheld').2

theorem Sound.accept (sound : Sound D s) {m : Message} (hm : m ∈ s.sent) :
    Sound D (s.accept D m) := by
  unfold Exchange.accept
  split
  · exact sound
  · next req hreq =>
      refine ⟨sound.calls.keep rfl rfl fun _ h => h, ⟨sound.traffic.origins, ?_⟩,
        sound.futures.keep rfl rfl rfl rfl rfl⟩
      intro job hjob
      rcases List.mem_append.mp hjob with hold | hnew
      · exact sound.traffic.jobs job hold
      · rw [List.mem_singleton.mp hnew]
        exact ⟨m, hm, rfl, rfl, hreq⟩

theorem Sound.eraseJob (sound : Sound D s) (job : Nat) :
    Sound D { s with jobs := s.jobs.eraseIdx job } where
  calls := sound.calls.keep rfl rfl fun _ h => h
  traffic := ⟨sound.traffic.origins,
    fun j hj => sound.traffic.jobs j (List.mem_of_mem_eraseIdx hj)⟩
  futures := sound.futures.keep rfl rfl rfl rfl rfl

/-- A server answers to where the request came from, with the request's number. -/
theorem Sound.reply (sound : Sound D s) {job : Job} {h : Handler τ} (moment : τ)
    (hjob : ∃ m ∈ s.sent, m.src = job.replyTo ∧ m.dst = job.server ∧
      D.codec.unmarshalRequest m.payload = some job.request)
    (hh : D.handlers job.server = some h) : Sound D (s.reply D job h moment).1 := by
  unfold Exchange.reply
  obtain ⟨asked, hasked, hsrc, hdst, hreq⟩ := hjob
  cases hhandled : h moment Response.zero job.request with
  | mk res ok =>
      cases ok with
      | false => exact sound
      | true =>
          dsimp only
          cases hdata : D.codec.marshalResponse { res with requestID := job.request.id } with
          | none => exact sound
          | some data =>
              exact sound.transmit fun _ => Or.inr ⟨h, hh, asked, hasked, hsrc, hdst, moment,
                job.request, res, hreq, hhandled, hdata⟩

theorem CallsSound.draw (h : CallsSound D s) (id : RequestID) :
    CallsSound D { s with drawn := id :: s.drawn } where
  created := h.created
  data := h.data
  drawn := fun n c hc => List.mem_cons_of_mem id (h.drawn n c hc)
  nonzero := h.nonzero
  made := h.made
  ids := h.ids
  futures := h.futures

/-- A number that was not drawn before belongs to no call that could be found. -/
theorem Sound.get_undrawn (sound : Sound D s) (dst : Addr) {id : RequestID} (hid : id ∉ s.drawn) :
    F.get s.reqs ⟨dst, id⟩ = none := by
  cases hget : F.get s.reqs ⟨dst, id⟩ with
  | none => rfl
  | some future =>
      obtain ⟨n, c, hc, hkey, -⟩ := sound.futures.registered _ future hget
      have hdrawn := sound.calls.drawn n c hc
      rw [show c.request.id = id from congrArg ReqKey.id hkey] at hdrawn
      exact absurd hdrawn hid

/-- A call that begins with a future of its own. -/
def begun (s : Exchange F) (n : Nat) (c : DoCall) : Exchange F :=
  { s with
    drawn := c.request.id :: s.drawn
    reqs := (F.getOrCreate s.reqs c.key).1
    calls := s.calls.insert n c }.enter n .sending

section

variable {n : Nat} {c : DoCall}

theorem CallsSound.begun (h : CallsSound D s) (hcreated : c.created = true)
    (hdata : D.codec.marshalRequest c.request = .ok c.data)
    (hfuture : c.future = (F.getOrCreate s.reqs c.key).2.1) (hnew : ¬ F.Made s.reqs c.future)
    (hid : fresh D s c.request.id) : CallsSound D (s.begun n c) := by
  have hcases : ∀ m other, (s.begun n c).calls.lookup m = some other →
      (m = n ∧ other = c) ∨ s.calls.lookup m = some other := by
    intro m other hother
    rcases GoMap.lookup_insert_cases hother with hnew | ⟨-, hold⟩
    · exact Or.inl hnew
    · exact Or.inr hold
  have hids : ∀ m other, s.calls.lookup m = some other → other.request.id ≠ c.request.id := by
    intro m other hother heq
    have hdrawn := h.drawn m other hother
    rw [heq] at hdrawn
    exact hid.1 hdrawn
  have hfutures : ∀ m other, s.calls.lookup m = some other → other.future ≠ c.future := by
    intro m other hother heq
    have hmade := h.made m other hother
    rw [heq] at hmade
    exact hnew hmade
  constructor
  · intro m other hother
    rcases hcases m other hother with ⟨-, rfl⟩ | hold
    · exact hcreated
    · exact h.created m other hold
  · intro m other hother
    rcases hcases m other hother with ⟨-, rfl⟩ | hold
    · exact hdata
    · exact h.data m other hold
  · intro m other hother
    rcases hcases m other hother with ⟨-, rfl⟩ | hold
    · exact List.mem_cons_self
    · exact List.mem_cons_of_mem _ (h.drawn m other hold)
  · intro hserves m other hother
    rcases hcases m other hother with ⟨-, rfl⟩ | hold
    · exact hid.2 hserves
    · exact h.nonzero hserves m other hold
  · intro m other hother
    change F.Made (F.getOrCreate s.reqs c.key).1 other.future
    rcases hcases m other hother with ⟨-, rfl⟩ | hold
    · rw [hfuture]
      exact F.made_of_get _ _ _ (F.get_getOrCreate_self _ _)
    · exact (F.made_getOrCreate _ _ _).mpr (Or.inr (h.made m other hold))
  · exact h.ids.insert hids n
  · exact h.futures.insert hfutures n

theorem TrafficSound.begun (h : TrafficSound D s) (hn : s.calls.lookup n = none) :
    TrafficSound D (s.begun n c) where
  origins := by
    intro m hm hpart
    refine (h.origins m hm hpart).imp_left ?_
    rintro ⟨hsrc, other, c', hc', hsame⟩
    exact ⟨hsrc, other, c', GoMap.lookup_insert_of_absent hn hc', hsame⟩
  jobs := h.jobs

theorem FuturesSound.begun (h : FuturesSound D s) (hn : s.calls.lookup n = none)
    (hfuture : c.future = (F.getOrCreate s.reqs c.key).2.1) (hnew : ¬ F.Made s.reqs c.future) :
    FuturesSound D (s.begun n c) where
  registered := by
    intro key future hget
    rcases FutureStore.get_of_getOrCreate hget with ⟨hkey, hthis⟩ | hold
    · have hsending : (s.begun n c).phases.lookup n = some .sending := Finmap.lookup_insert _
      refine ⟨n, c, Finmap.lookup_insert _, hkey.symm, hfuture.trans hthis.symm,
        fun result hphase => ?_⟩
      cases hsending.symm.trans hphase
    · obtain ⟨m, c', hc', hkey, hfuture', hwaits⟩ := h.registered key future hold
      refine ⟨m, c', GoMap.lookup_insert_of_absent hn hc', hkey, hfuture', fun result hphase => ?_⟩
      rcases GoMap.lookup_insert_cases hphase with ⟨-, hnew⟩ | ⟨-, hold⟩
      · cases hnew
      · exact hwaits result hold
  outcomes := by
    intro m other res hother houtcome
    change F.outcome (F.getOrCreate s.reqs c.key).1 other.future = some res at houtcome
    rw [F.outcome_getOrCreate] at houtcome
    rcases GoMap.lookup_insert_cases hother with ⟨-, rfl⟩ | ⟨-, hold⟩
    · rw [F.outcome_of_not_made _ _ hnew] at houtcome
      cases houtcome
    · exact h.outcomes m other res hold houtcome
  held := by
    intro loop future res hheld
    obtain ⟨m, c', hc', hheld⟩ := h.held loop future res hheld
    exact ⟨m, c', GoMap.lookup_insert_of_absent hn hc', hheld⟩
  results := by
    intro m other phase res hother hphase hres
    rcases GoMap.lookup_insert_cases hphase with ⟨-, rfl⟩ | ⟨hm, hold⟩
    · cases hres
    · rcases GoMap.lookup_insert_cases hother with ⟨rfl, -⟩ | ⟨-, hother⟩
      · exact absurd rfl hm
      · exact h.results m other phase res hother hold hres

end

theorem Sound.start (sound : Sound D s) {n : Nat} (hn : s.calls.lookup n = none) (dst : Addr)
    {req : Request} (hid : fresh D s req.id) : Sound D (s.start D n dst req).1 := by
  unfold Exchange.start
  cases hdata : D.codec.marshalRequest req with
  | error err =>
      exact ⟨sound.calls.draw req.id, sound.traffic.keep rfl rfl rfl,
        sound.futures.keep rfl rfl rfl rfl rfl⟩
  | ok data =>
      have hget := sound.get_undrawn dst hid.1
      have hnew := F.not_made_created s.reqs ⟨dst, req.id⟩ hget
      have hbegun : Sound D (s.begun n
          ⟨dst, req, data, (F.getOrCreate s.reqs ⟨dst, req.id⟩).2.1, true⟩) :=
        ⟨sound.calls.begun rfl hdata rfl hnew hid, sound.traffic.begun hn,
          sound.futures.begun hn rfl hnew⟩
      simp only [F.created_of_none s.reqs ⟨dst, req.id⟩ hget]
      exact hbegun

/-! ## What stays -/

/-- Calls keep their variables, and what a call has returned and what was sent stay. -/
structure Keeps (s s' : Exchange F) : Prop where
  calls : ∀ n c, s.calls.lookup n = some c → s'.calls.lookup n = some c
  returned : ∀ n result, s.phases.lookup n = some (.returned result) →
    s'.phases.lookup n = some (.returned result)
  sent : s.sent <+: s'.sent

theorem keeps_of_eq (hcalls : s'.calls = s.calls) (hphases : s'.phases = s.phases)
    (hsent : s.sent <+: s'.sent) : Keeps s s' := by
  refine ⟨?_, ?_, hsent⟩
  · rw [hcalls]
    exact fun _ _ h => h
  · rw [hphases]
    exact fun _ _ h => h

/-- Only a call that has not returned goes on. -/
theorem keeps_enter {n : Nat} {before : DoPhase} (after : DoPhase)
    (hphase : s.phases.lookup n = some before) (hreturned : ∀ result, before ≠ .returned result)
    (hcalls : s'.calls = s.calls) (hphases : s'.phases = s.phases.insert n after)
    (hsent : s.sent <+: s'.sent) : Keeps s s' := by
  refine ⟨?_, ?_, hsent⟩
  · rw [hcalls]
    exact fun _ _ h => h
  · intro m result h
    have hne : m ≠ n := by
      rintro rfl
      rw [hphase] at h
      exact hreturned result (Option.some.inj h)
    rw [hphases, GoMap.lookup_insert_eq, if_neg hne, h]

theorem keeps_start (n : Nat) (hn : s.calls.lookup n = none) (hphase : s.phases.lookup n = none)
    (dst : Addr) (req : Request) : Keeps s (s.start D n dst req).1 := by
  unfold Exchange.start
  cases D.codec.marshalRequest req with
  | error err => exact keeps_of_eq rfl rfl List.prefix_rfl
  | ok data =>
      exact ⟨fun _ _ hc => GoMap.lookup_insert_of_absent hn hc,
        fun _ _ h => GoMap.lookup_insert_of_absent hphase h, List.prefix_rfl⟩

theorem keeps_receive (loop : Nat) (m : Message) : Keeps s (s.receive D loop m).1 := by
  unfold Exchange.receive
  split
  · exact keeps_of_eq rfl rfl List.prefix_rfl
  · split
    · exact keeps_of_eq rfl rfl List.prefix_rfl
    · exact keeps_of_eq rfl rfl List.prefix_rfl

theorem keeps_accept (m : Message) : Keeps s (s.accept D m) := by
  unfold Exchange.accept
  split
  · exact keeps_of_eq rfl rfl List.prefix_rfl
  · exact keeps_of_eq rfl rfl List.prefix_rfl

theorem keeps_reply (left : List Job) (job : Job) (h : Handler τ) (moment : τ) :
    Keeps s ({ s with jobs := left }.reply D job h moment).1 := by
  unfold Exchange.reply
  dsimp only
  split
  · exact keeps_of_eq rfl rfl List.prefix_rfl
  · split
    · exact keeps_of_eq rfl rfl List.prefix_rfl
    · exact keeps_of_eq rfl rfl (List.prefix_append _ _)

/-! ## Steps -/

section

variable {seen : DoSeen}

theorem Sound.step_start (sound : Sound D s) {n : Nat} {dst : Addr} {query : Query}
    {id : RequestID} (hid : fresh D s id)
    (h : s.step D (.start n dst query id) = some (s', seen)) : Sound D s' ∧ Keeps s s' := by
  simp only [Exchange.step] at h
  split at h
  · next hn hphase =>
      have hsound : Sound D (s.start D n dst ⟨id, query⟩).1 := sound.start hn dst hid
      have hkeeps : Keeps s (s.start D n dst ⟨id, query⟩).1 := keeps_start n hn hphase dst _
      rw [Option.some.inj h] at hsound hkeeps
      exact ⟨hsound, hkeeps⟩
  · cases h

theorem Sound.step_send (sound : Sound D s) {n : Nat} {err : Option String}
    (h : s.step D (.send n err) = some (s', seen)) : Sound D s' ∧ Keeps s s' := by
  simp only [Exchange.step] at h
  split at h
  · next c hc hphase =>
      cases h
      have hsent : Sound D (s.transmit ⟨D.client, c.dst, c.data⟩) :=
        sound.transmit fun _ => Or.inl ⟨rfl, n, c, hc, rfl, rfl⟩
      cases err with
      | some err =>
          exact ⟨hsent.enter n (.leaving (.error err)) nofun nofun,
            keeps_enter (.leaving (.error err)) hphase nofun rfl rfl (List.prefix_append _ _)⟩
      | none =>
          exact ⟨hsent.enter n .awaiting nofun nofun,
            keeps_enter .awaiting hphase nofun rfl rfl (List.prefix_append _ _)⟩
  · cases h

theorem Sound.step_await (sound : Sound D s) {n : Nat}
    (h : s.step D (.await n) = some (s', seen)) : Sound D s' ∧ Keeps s s' := by
  simp only [Exchange.step] at h
  split at h
  · next c hc hphase =>
      split at h
      · next res houtcome =>
          cases h
          refine ⟨sound.enter n (.leaving (.ok res)) nofun ?_,
            keeps_enter (.leaving (.ok res)) hphase nofun rfl rfl List.prefix_rfl⟩
          intro c' res' hc' hres
          cases hc.symm.trans hc'
          cases hres
          exact sound.futures.outcomes n c res hc houtcome
      · cases h
  · cases h

theorem Sound.step_cancel (sound : Sound D s) {n : Nat} {err : String}
    (h : s.step D (.cancel n err) = some (s', seen)) : Sound D s' ∧ Keeps s s' := by
  simp only [Exchange.step] at h
  split at h
  · next hphase =>
      cases h
      exact ⟨sound.enter n (.leaving (.error err)) nofun nofun,
        keeps_enter (.leaving (.error err)) hphase nofun rfl rfl List.prefix_rfl⟩
  · cases h

theorem Sound.step_finish (sound : Sound D s) {n : Nat}
    (h : s.step D (.finish n) = some (s', seen)) : Sound D s' ∧ Keeps s s' := by
  simp only [Exchange.step] at h
  split at h
  · next c result hc hphase =>
      cases h
      exact ⟨sound.finish hc hphase,
        keeps_enter (.returned result) hphase nofun rfl rfl List.prefix_rfl⟩
  · cases h

theorem Sound.step_receive (sound : Sound D s) {loop message : Nat}
    (h : s.step D (.receive loop message) = some (s', seen)) : Sound D s' ∧ Keeps s s' := by
  simp only [Exchange.step] at h
  split at h
  · next m _ _ hm =>
      split at h
      · next hloop =>
          have hsound : Sound D (s.receive D loop m).1 :=
            sound.receive (List.mem_of_getElem? hm) hloop.2
          have hkeeps : Keeps s (s.receive D loop m).1 := keeps_receive loop m
          rw [Option.some.inj h] at hsound hkeeps
          exact ⟨hsound, hkeeps⟩
      · cases h
  · cases h

theorem Sound.step_succeed (sound : Sound D s) {loop : Nat}
    (h : s.step D (.succeed loop) = some (s', seen)) : Sound D s' ∧ Keeps s s' := by
  simp only [Exchange.step] at h
  split at h
  · next future res hheld =>
      cases h
      exact ⟨sound.succeed hheld, keeps_of_eq rfl rfl List.prefix_rfl⟩
  · cases h

theorem Sound.step_accept (sound : Sound D s) {message : Nat}
    (h : s.step D (.accept message) = some (s', seen)) : Sound D s' ∧ Keeps s s' := by
  simp only [Exchange.step] at h
  split at h
  · next m hm =>
      split at h
      · cases h
        exact ⟨sound.accept (List.mem_of_getElem? hm), keeps_accept m⟩
      · cases h
  · cases h

theorem Sound.step_reply (sound : Sound D s) {job : Nat} {moment : τ}
    (h : s.step D (.reply job moment) = some (s', seen)) : Sound D s' ∧ Keeps s s' := by
  simp only [Exchange.step] at h
  split at h
  · next j hj =>
      split at h
      · next handler hhandler =>
          have hjob := sound.traffic.jobs j (List.mem_of_getElem? hj)
          have hsound := (sound.eraseJob job).reply moment hjob hhandler
          have hkeeps : Keeps s ({ s with
              jobs := s.jobs.eraseIdx job }.reply D j handler moment).1 :=
            keeps_reply _ j handler moment
          rw [Option.some.inj h] at hsound hkeeps
          exact ⟨hsound, hkeeps⟩
      · cases h
  · cases h

theorem Sound.inject (sound : Sound D s) {m : Message} (hclient : m.src ≠ D.client)
    (hserver : (D.handlers m.src).isNone = true) :
    Sound D (s.transmit m) ∧ Keeps s (s.transmit m) := by
  refine ⟨sound.transmit fun hpart => ?_, keeps_of_eq rfl rfl (List.prefix_append _ _)⟩
  rcases hpart with hsrc | hserves
  · exact absurd hsrc hclient
  · rw [Option.isNone_iff_eq_none.mp hserver] at hserves
    cases hserves

theorem Sound.step {event : DoEvent τ} (sound : Sound D s) (hlawful : lawful D s event)
    (h : s.step D event = some (s', seen)) : Sound D s' ∧ Keeps s s' := by
  cases event with
  | start n dst query id => exact sound.step_start hlawful h
  | send n err => exact sound.step_send h
  | await n => exact sound.step_await h
  | cancel n err => exact sound.step_cancel h
  | finish n => exact sound.step_finish h
  | receive loop message => exact sound.step_receive h
  | succeed loop => exact sound.step_succeed h
  | accept message => exact sound.step_accept h
  | reply job moment => exact sound.step_reply h
  | inject m =>
      cases h
      exact sound.inject hlawful.1 hlawful.2

end

end Exchange

end Inet256.Dns256
