import Inet256.Ipc.Session

/-!
# Answers to requests

The server handles each request in a goroutine of its own, which sends one
message when the node has returned.  For a body that cannot be decoded, what is
sent has no bytes.
-/

namespace Inet256.Ipc

open Inet256.Foundation
open Inet256.Crypto

variable {P : Primitives} {F : FutureStore RequestID (Except String Addr)}
  {G : FutureStore RequestID (Except String (PublicKey P))} (C : Codecs)

/-! ## One request -/

def IsAsk (m : Bytes) : Prop := getType m = .ok mtFindAddr ∨ getType m = .ok mtPublicKey

def Decodes (m : Bytes) : Prop :=
  (getType m = .ok mtFindAddr ∧ ∃ req, findAddrReq C m = .ok req) ∨
    (getType m = .ok mtPublicKey ∧ ∃ req, lookupPublicKeyReq C m = .ok req)

/-- What the node returns to the request can be put into a message. -/
structure Encodable (node : Node P) (m : Bytes) : Prop where
  addr : ∀ req, getType m = .ok mtFindAddr → findAddrReq C m = .ok req →
    4 + 16 + (C.findAddrRes.marshal (node.findAddr req.prefixBytes req.nbits).response).length ≤
      maxMessageLen
  key : ∀ req, getType m = .ok mtPublicKey → lookupPublicKeyReq C m = .ok req →
    ∃ res, (node.lookupPublicKey req.target).keyResponse = .ok res ∧
      4 + 16 + (C.lookupPublicKeyRes.marshal res).length ≤ maxMessageLen

/--
A response that the client accepts, of the type and with the ID of the request,
and with which any call that waits for it completes.
-/
structure AnswerTo (F : FutureStore RequestID (Except String Addr))
    (G : FutureStore RequestID (Except String (PublicKey P))) (m r : Bytes) : Prop where
  accepted : asMessage r false = .ok r
  sameType : getType r = getType m
  sameID : getRequestID r = getRequestID m
  completes : ∀ (s : Session P F G) (c : ClientCall), getType m = .ok c.ask.mtype →
    getRequestID m = .ok c.reqID → s.futureOf c.reqID c.ask = some c.future →
    ∃ s', s.handleMessage C r = .ok (s', none) ∧ (s'.outcome c).isSome = true

variable {C}

/-! ### The client -/

theorem exists_settlement {α : Type} {call : Go α} (h : Returns call) :
    ∃ result, settlement call = .ok result := by
  unfold settlement
  split
  · exact ⟨_, rfl⟩
  · exact ⟨_, rfl⟩
  · next text => exact absurd rfl (h text)

theorem exists_findAddrSettlement (C : Codecs) (reqID : RequestID) (res : Response FindAddrRes) :
    ∃ result, findAddrSettlement C
      (Content.ask mtFindAddr reqID (C.findAddrRes.marshal res)).bytes = .ok result := by
  apply exists_settlement
  rw [findAddrRes, readResponse_ask]
  split
  · exact returns_fail _
  · exact returns_ok _

theorem exists_lookupPublicKeySettlement (laws : LawfulKeys P) {result : Result (PublicKey P)}
    {res : Response LookupPublicKeyRes} (reqID : RequestID) (h : result.keyResponse = .ok res) :
    ∃ settled, lookupPublicKeySettlement (P := P) C
      (Content.ask mtPublicKey reqID (C.lookupPublicKeyRes.marshal res)).bytes = .ok settled := by
  apply exists_settlement
  rw [lookupPublicKeyRes, readResponse_ask]
  split
  · exact returns_fail _
  · cases result with
    | mk value err =>
        cases err with
        | some err =>
            cases h
            exact returns_fail _
        | none =>
            obtain ⟨data, hdata, h⟩ := Go.bind_eq_ok.mp h
            cases h
            rw [Go.ok_bind, parsePublicKey_marshalPublicKey laws hdata]
            exact returns_ok _

/-! ### The server -/

/-- A message of the type and with the ID of the request, with which the calls for it complete. -/
theorem answerTo_ask {m body : Bytes} {mtype : MessageType} {reqID : RequestID}
    (htype : getType m = .ok mtype) (hid : getRequestID m = .ok reqID)
    (hfits : (Content.ask mtype reqID body).Fits)
    (hcompletes : ∀ (s : Session P F G) (ask : Ask) (future : Nat), mtype = ask.mtype →
      s.futureOf reqID ask = some future →
      ∃ s', s.handleMessage C (Content.ask mtype reqID body).bytes = .ok (s', none) ∧
        (s'.outcome ⟨reqID, ask, future⟩).isSome = true) :
    AnswerTo C F G m (Content.ask mtype reqID body).bytes := by
  obtain ⟨htype', hid', -⟩ := (Content.ask mtype reqID body).readBack_bytes
  refine ⟨Content.asMessage_bytes hfits false, by rw [htype', htype], by rw [hid', hid], ?_⟩
  rintro s ⟨reqID', ask, future⟩ hask hsame hget
  rw [hid, Except.ok.injEq] at hsame
  subst hsame
  rw [htype, Except.ok.injEq] at hask
  exact hcompletes s ask future hask hget

theorem answerTo_findAddr {m : Bytes} {reqID : RequestID} (htype : getType m = .ok mtFindAddr)
    (hid : getRequestID m = .ok reqID) (res : Response FindAddrRes)
    (hle : 4 + 16 + (C.findAddrRes.marshal res).length ≤ maxMessageLen) :
    AnswerTo C F G m (Content.ask mtFindAddr reqID (C.findAddrRes.marshal res)).bytes := by
  have hfits : (Content.ask mtFindAddr reqID (C.findAddrRes.marshal res)).Fits :=
    ⟨Or.inl rfl, hle⟩
  refine answerTo_ask htype hid hfits fun s ask future hask hget => ?_
  cases ask with
  | findAddr prefixBytes nbits =>
      obtain ⟨result, hresult⟩ := exists_findAddrSettlement C reqID res
      refine ⟨_, Session.handleMessage_findAddr hfits hget hresult, ?_⟩
      rw [Session.outcome, Option.isSome_map]
      exact FutureStore.isSome_outcome_settle hget result
  | lookupPublicKey target =>
      have hother : mtFindAddr ≠ mtPublicKey := by decide
      exact absurd hask hother

theorem answerTo_lookupPublicKey (laws : LawfulKeys P) {m : Bytes} {reqID : RequestID}
    (htype : getType m = .ok mtPublicKey) (hid : getRequestID m = .ok reqID)
    {result : Result (PublicKey P)} {res : Response LookupPublicKeyRes}
    (hres : result.keyResponse = .ok res)
    (hle : 4 + 16 + (C.lookupPublicKeyRes.marshal res).length ≤ maxMessageLen) :
    AnswerTo C F G m (Content.ask mtPublicKey reqID (C.lookupPublicKeyRes.marshal res)).bytes := by
  have hfits : (Content.ask mtPublicKey reqID (C.lookupPublicKeyRes.marshal res)).Fits :=
    ⟨Or.inr rfl, hle⟩
  refine answerTo_ask htype hid hfits fun s ask future hask hget => ?_
  cases ask with
  | findAddr prefixBytes nbits =>
      have hother : mtPublicKey ≠ mtFindAddr := by decide
      exact absurd hask hother
  | lookupPublicKey target =>
      obtain ⟨settled, hsettled⟩ := exists_lookupPublicKeySettlement laws reqID hres
      refine ⟨_, Session.handleMessage_lookupPublicKey hfits hget hsettled, ?_⟩
      rw [Session.outcome, Option.isSome_map]
      exact FutureStore.isSome_outcome_settle hget settled

theorem not_answerTo_nil (m : Bytes) : ¬ AnswerTo C F G m [] := by
  intro h
  cases h.accepted

/-- A request whose body decodes is answered. -/
theorem exists_answer (laws : LawfulKeys P) {node : Node P} {m : Bytes}
    (hmessage : asMessage m true = .ok m) (hdecodes : Decodes C m)
    (hencodable : Encodable C node m) (resBuf : List.Vector UInt8 maxFrameLen) :
    ∃ r, respond C node m resBuf = .ok r ∧ AnswerTo C F G m r := by
  have hask := (accessorsInBounds_of_asMessage hmessage).ask
  rcases hdecodes with ⟨htype, req, hreq⟩ | ⟨htype, req, hreq⟩
  · obtain ⟨reqID, hid⟩ := (hask (Or.inl htype)).1
    have hle := hencodable.addr req htype hreq
    exact ⟨_, respond_of_write (handleAsk_of_findAddrReq htype hid hreq _) hle,
      answerTo_findAddr htype hid _ hle⟩
  · obtain ⟨reqID, hid⟩ := (hask (Or.inr htype)).1
    obtain ⟨res, hres, hle⟩ := hencodable.key req htype hreq
    have hhandle : handleAsk C node m resBuf.toList = _ :=
      handleAsk_of_lookupPublicKeyReq htype hid hreq _
    rw [hres, Go.ok_bind] at hhandle
    exact ⟨_, respond_of_write hhandle hle, answerTo_lookupPublicKey laws htype hid hres hle⟩

/-- Without a decoded body, the goroutine panics or sends an empty message. -/
theorem respond_of_not_decodes {node : Node P} {m r : Bytes}
    {resBuf : List.Vector UInt8 maxFrameLen} (hask : IsAsk m) (hdecodes : ¬ Decodes C m)
    (h : respond C node m resBuf = .ok r) : r = [] := by
  refine (respond_of_handleAsk h).resolve_right ?_
  rintro ⟨buf, n, hhandle, -⟩
  rcases hask with htype | htype
  · simp only [handleAsk, htype, Go.ok_bind, if_true] at hhandle
    obtain ⟨req, hreq, -⟩ := Go.bind_eq_ok.mp hhandle
    exact hdecodes (Or.inl ⟨htype, req, hreq⟩)
  · have hother : mtPublicKey ≠ mtFindAddr := by decide
    simp only [handleAsk, htype, Go.ok_bind, if_neg hother, if_true] at hhandle
    obtain ⟨req, hreq, -⟩ := Go.bind_eq_ok.mp hhandle
    exact hdecodes (Or.inr ⟨htype, req, hreq⟩)

theorem not_answerTo_of_not_decodes {node : Node P} {m r : Bytes}
    {resBuf : List.Vector UInt8 maxFrameLen} (hask : IsAsk m) (hdecodes : ¬ Decodes C m)
    (h : respond C node m resBuf = .ok r) : ¬ AnswerTo C F G m r := by
  rw [respond_of_not_decodes hask hdecodes h]
  exact not_answerTo_nil m

/-! ## The server as a machine -/

/-- The requests whose goroutines have not finished. -/
structure Server where
  started : Nat
  jobs : GoMap Nat Bytes

inductive ServerEvent (P : Primitives) where
  | receive (data : Bytes)
  | finish (job : Nat) (node : Node P) (resBuf : List.Vector UInt8 maxFrameLen)

inductive ServerSeen where
  | nothing
  | spawned (job : Nat) (m : Bytes)
  | sent (job : Nat) (m r : Bytes)
  deriving DecidableEq

abbrev ServerTrace (P : Primitives) := List (ServerEvent P × ServerSeen)

def spawnedJobs (trace : ServerTrace P) : List (Nat × Bytes) :=
  trace.filterMap fun entry =>
    match entry.2 with
    | .spawned job m => some (job, m)
    | _ => none

def sentFrames (trace : ServerTrace P) : List (Nat × Bytes × Bytes) :=
  trace.filterMap fun entry =>
    match entry.2 with
    | .sent job m r => some (job, m, r)
    | _ => none

namespace Server

def new : Server := ⟨0, ∅⟩

def receive (s : Server) (data : Bytes) : Go (Server × ServerSeen) := do
  let m ← asMessage data true
  let mtype ← getType m
  if mtype = mtData ∨ mtype = mtKeepAlive then return (s, .nothing)
  else
    let m ← mustReturn (asMessage (data.take maxFrameLen) true)
    return (⟨s.started + 1, s.jobs.insert s.started m⟩, .spawned s.started m)

variable (C)

def step (s : Server) : ServerEvent P → Option (Server × ServerSeen)
  | .receive data => Session.orLogged (s, .nothing) (s.receive data)
  | .finish job node resBuf =>
      match s.jobs.lookup job with
      | none => none
      | some m => do
          let r ← (respond C node m resBuf).toOption
          some ({ s with jobs := s.jobs.erase job }, .sent job m r)

def encodes (s : Server) : ServerEvent P → Prop
  | .receive _ => True
  | .finish job node _ => ∀ m, s.jobs.lookup job = some m → Encodable C node m

variable {C} {trace : ServerTrace P} {s s' : Server}

/-! ### One step -/

theorem asMessage_take {data m : Bytes} (h : asMessage data true = .ok m) :
    asMessage (data.take maxFrameLen) true = .ok (data.take maxFrameLen) := by
  by_cases hle : data.length ≤ maxFrameLen
  · rw [List.take_of_length_le hle, h, (asMessage_eq_ok h).1]
  · refine asMessage_of_same_type h (getType_take data (by decide)) ?_
    rw [List.length_take, Nat.min_eq_left (Nat.le_of_not_le hle)]
    decide

theorem receive_of_ask (s : Server) {data m : Bytes} (h : asMessage data true = .ok m)
    (hask : IsAsk data) :
    s.receive data = .ok (⟨s.started + 1, s.jobs.insert s.started (data.take maxFrameLen)⟩,
      .spawned s.started (data.take maxFrameLen)) := by
  obtain rfl := (asMessage_eq_ok h).1
  have hspawn : ∀ mtype, getType m = .ok mtype → ¬ (mtype = mtData ∨ mtype = mtKeepAlive) →
      s.receive m = .ok (⟨s.started + 1, s.jobs.insert s.started (m.take maxFrameLen)⟩,
        .spawned s.started (m.take maxFrameLen)) := by
    intro mtype htype hother
    simp only [receive, h, htype, Go.ok_bind, if_neg hother, asMessage_take h, mustReturn,
      Go.pure_eq_ok]
  rcases hask with htype | htype
  · exact hspawn _ htype (by decide)
  · exact hspawn _ htype (by decide)

/-- Nothing is done about what is not a request. -/
theorem receive_other {data : Bytes} {seen : ServerSeen}
    (hother : ¬ ((∃ m, asMessage data true = .ok m) ∧ IsAsk data))
    (h : Session.orLogged (s, .nothing) (s.receive data) = some (s', seen)) :
    s' = s ∧ seen = .nothing := by
  rcases Session.orLogged_cases h with hreceive | hlogged
  · obtain ⟨m, hm, hreceive⟩ := Go.bind_eq_ok.mp hreceive
    obtain rfl := (asMessage_eq_ok hm).1
    obtain ⟨mtype, htype, hreceive⟩ := Go.bind_eq_ok.mp hreceive
    split at hreceive
    · cases hreceive
      exact ⟨rfl, rfl⟩
    · next hnot =>
        refine absurd ⟨⟨m, hm⟩, ?_⟩ hother
        rcases ask_of_asMessage hm htype hnot with rfl | rfl
        · exact Or.inl htype
        · exact Or.inr htype
  · cases hlogged
    exact ⟨rfl, rfl⟩

/-- The goroutines are the jobs of a connection. -/
theorem serveMessage_of_receive {data m : Bytes} {job : Nat} (connection : Session P F G)
    (h : s.receive data = .ok (s', .spawned job m)) :
    connection.serveMessage data = .ok { connection with jobs := m ::ₘ connection.jobs } := by
  obtain ⟨m₁, hm₁, h⟩ := Go.bind_eq_ok.mp h
  obtain ⟨mtype, htype, h⟩ := Go.bind_eq_ok.mp h
  split at h
  · cases h
  · next hother =>
      obtain ⟨m₂, hm₂, h⟩ := Go.bind_eq_ok.mp h
      cases h
      simp only [Session.serveMessage, hm₁, Go.ok_bind, htype, if_neg hother, hm₂, Go.pure_eq_ok]

theorem step_finish_eq_some {job : Nat} {node : Node P}
    {resBuf : List.Vector UInt8 maxFrameLen} {seen : ServerSeen} :
    s.step C (.finish job node resBuf) = some (s', seen) ↔
      ∃ m r, s.jobs.lookup job = some m ∧ respond C node m resBuf = .ok r ∧
        s' = { s with jobs := s.jobs.erase job } ∧ seen = .sent job m r := by
  cases hm : s.jobs.lookup job with
  | none => simp [step, hm]
  | some m =>
      cases hr : respond C node m resBuf with
      | error fault => simp [step, hm, hr, Except.toOption]
      | ok r => simp [step, hm, hr, Except.toOption, eq_comm]

/-! ### Runs -/

/-- The goroutines that were started, the messages that were sent, and what is left to do. -/
structure Sound (C : Codecs) (P : Primitives) (spawned : List (Nat × Bytes))
    (frames : List (Nat × Bytes × Bytes)) (s : Server) : Prop where
  distinct : (spawned.map Prod.fst).Nodup
  once : (frames.map Prod.fst).Nodup
  started : ∀ job m, (job, m) ∈ spawned → job < s.started
  ask : ∀ job m, (job, m) ∈ spawned → asMessage m true = .ok m ∧ IsAsk m
  pending : ∀ job m, s.jobs.lookup job = some m → (job, m) ∈ spawned
  sent : ∀ job m r, (job, m, r) ∈ frames → (job, m) ∈ spawned ∧ s.jobs.lookup job = none ∧
    ∃ (node : Node P) (resBuf : List.Vector UInt8 maxFrameLen),
      Encodable C node m ∧ respond C node m resBuf = .ok r
  done : ∀ job m, (job, m) ∈ spawned →
    s.jobs.lookup job = some m ∨ ∃ r, (job, m, r) ∈ frames

variable {spawned : List (Nat × Bytes)} {frames : List (Nat × Bytes × Bytes)}

theorem sound_new : Sound C P [] [] new where
  distinct := List.nodup_nil
  once := List.nodup_nil
  started := by simp
  ask := by simp
  pending := by simp [new]
  sent := by simp
  done := by simp

theorem Sound.spawn (sound : Sound C P spawned frames s) {m : Bytes}
    (hm : asMessage m true = .ok m) (hask : IsAsk m) :
    Sound C P (spawned ++ [(s.started, m)]) frames
      ⟨s.started + 1, s.jobs.insert s.started m⟩ := by
  have hnew : ∀ job m', (job, m') ∈ spawned → job ≠ s.started := by
    intro job m' hmem
    exact (sound.started job m' hmem).ne
  have hcases : ∀ job m', (job, m') ∈ spawned ++ [(s.started, m)] →
      (job, m') ∈ spawned ∨ job = s.started ∧ m' = m := by
    intro job m' hmem
    simpa using hmem
  constructor
  · rw [List.map_append]
    refine sound.distinct.append (List.nodup_singleton _) ?_
    intro job hold hlast
    obtain ⟨⟨job', m'⟩, hmem, rfl⟩ := List.mem_map.mp hold
    exact hnew job' m' hmem (List.mem_singleton.mp hlast)
  · exact sound.once
  · intro job m' hmem
    rcases hcases job m' hmem with hold | ⟨rfl, -⟩
    · exact (sound.started job m' hold).trans (Nat.lt_succ_self _)
    · exact Nat.lt_succ_self _
  · intro job m' hmem
    rcases hcases job m' hmem with hold | ⟨-, rfl⟩
    · exact sound.ask job m' hold
    · exact ⟨hm, hask⟩
  · intro job m' h
    rcases GoMap.lookup_insert_cases h with ⟨rfl, rfl⟩ | ⟨-, hold⟩
    · simp
    · exact List.mem_append_left _ (sound.pending job m' hold)
  · intro job m' r hmem
    obtain ⟨hspawned, hnone, hresponse⟩ := sound.sent job m' r hmem
    refine ⟨List.mem_append_left _ hspawned, ?_, hresponse⟩
    rw [GoMap.lookup_insert_eq, if_neg (hnew job m' hspawned), hnone]
  · intro job m' hmem
    rcases hcases job m' hmem with hold | ⟨rfl, rfl⟩
    · refine (sound.done job m' hold).imp_left fun hpending => ?_
      rw [GoMap.lookup_insert_eq, if_neg (hnew job m' hold), hpending]
    · exact Or.inl (Finmap.lookup_insert _)

theorem Sound.finish (sound : Sound C P spawned frames s) {job : Nat} {m r : Bytes}
    {node : Node P} {resBuf : List.Vector UInt8 maxFrameLen}
    (hjob : s.jobs.lookup job = some m) (hencodable : Encodable C node m)
    (hrespond : respond C node m resBuf = .ok r) :
    Sound C P spawned (frames ++ [(job, m, r)]) { s with jobs := s.jobs.erase job } := by
  constructor
  · exact sound.distinct
  · rw [List.map_append]
    refine sound.once.append (List.nodup_singleton _) ?_
    intro job' hold hlast
    obtain ⟨⟨job'', m', r'⟩, hmem, rfl⟩ := List.mem_map.mp hold
    have hsame : job'' = job := List.mem_singleton.mp hlast
    have hnone := (sound.sent job'' m' r' hmem).2.1
    rw [hsame, hjob] at hnone
    cases hnone
  · exact sound.started
  · exact sound.ask
  · intro job' m' h
    exact sound.pending job' m' (GoMap.lookup_erase_cases h).2
  · intro job' m' r' hmem
    rcases List.mem_append.mp hmem with hold | hlast
    · obtain ⟨hspawned, hnone, hresponse⟩ := sound.sent job' m' r' hold
      refine ⟨hspawned, ?_, hresponse⟩
      rw [GoMap.lookup_erase_eq, hnone]
      exact ite_self none
    · cases List.mem_singleton.mp hlast
      exact ⟨sound.pending job m hjob, Finmap.lookup_erase job _, node, resBuf, hencodable,
        hrespond⟩
  · intro job' m' hmem
    rcases sound.done job' m' hmem with hpending | ⟨r', hsent⟩
    · by_cases hsame : job' = job
      · subst hsame
        rw [hjob, Option.some.injEq] at hpending
        exact Or.inr ⟨r, by simp [hpending]⟩
      · exact Or.inl (GoMap.lookup_erase_of_ne hsame hpending)
    · exact Or.inr ⟨r', List.mem_append_left _ hsent⟩

theorem sound_of_run (run : Runs (step C) (encodes C) new trace s) :
    Sound C P (spawnedJobs trace) (sentFrames trace) s := by
  refine run.history (motive := fun (trace : ServerTrace P) s =>
    Sound C P (spawnedJobs trace) (sentFrames trace) s) sound_new ?_
  intro trace s event s' seen _ sound hallowed hstep
  rw [spawnedJobs, sentFrames, List.filterMap_append, List.filterMap_append]
  cases event with
  | receive data =>
      by_cases hask : (∃ m, asMessage data true = .ok m) ∧ IsAsk data
      · obtain ⟨⟨m, hm⟩, hask⟩ := hask
        rw [step, s.receive_of_ask hm hask] at hstep
        cases hstep
        have htype := getType_take data (show 4 ≤ maxFrameLen by decide)
        have hask' : IsAsk (data.take maxFrameLen) := by rwa [IsAsk, htype]
        have hsound := sound.spawn (asMessage_take hm) hask'
        rwa [← List.append_nil (sentFrames trace)] at hsound
      · obtain ⟨rfl, rfl⟩ := receive_other hask hstep
        have hsound := sound
        rwa [← List.append_nil (spawnedJobs trace), ← List.append_nil (sentFrames trace)] at hsound
  | finish job node resBuf =>
      obtain ⟨m, r, hjob, hrespond, rfl, rfl⟩ := step_finish_eq_some.mp hstep
      have hsound := sound.finish hjob (hallowed m hjob) hrespond
      rwa [← List.append_nil (spawnedJobs trace)] at hsound

/-- Every request that is received starts a goroutine. -/
theorem received_of_run (run : Runs (step C) (encodes C) new trace s) {data m : Bytes}
    {seen : ServerSeen} (hmem : (.receive data, seen) ∈ trace)
    (hm : asMessage data true = .ok m) (hask : IsAsk data) :
    ∃ job, seen = .spawned job (data.take maxFrameLen) := by
  obtain ⟨before, after, rfl⟩ := List.append_of_mem hmem
  obtain ⟨here, there, -, -, hstep, -⟩ := run.middle
  rw [step, here.receive_of_ask hm hask] at hstep
  cases hstep
  exact ⟨_, rfl⟩

end Server

/-- One goroutine for each request, which sends one message. -/
structure OnceEach (trace : ServerTrace P) (s : Server) : Prop where
  received : ∀ data seen m, (.receive data, seen) ∈ trace → asMessage data true = .ok m →
    IsAsk data → ∃ job, seen = .spawned job (data.take maxFrameLen)
  distinct : ((spawnedJobs trace).map Prod.fst).Nodup
  once : ((sentFrames trace).map Prod.fst).Nodup
  done : ∀ job m, (job, m) ∈ spawnedJobs trace →
    (s.jobs.lookup job = some m ∧ ∀ m' r, (job, m', r) ∉ sentFrames trace) ∨
      (s.jobs.lookup job = none ∧ ∃ r, (job, m, r) ∈ sentFrames trace)

/-- What was sent is an answer, and what is left to do will send one. -/
structure Answers (C : Codecs) (F : FutureStore RequestID (Except String Addr))
    (G : FutureStore RequestID (Except String (PublicKey P))) (trace : ServerTrace P)
    (s : Server) : Prop where
  sent : ∀ job m r, (job, m, r) ∈ sentFrames trace → AnswerTo C F G m r
  pending : ∀ job m, s.jobs.lookup job = some m →
    ∀ (node : Node P) (resBuf : List.Vector UInt8 maxFrameLen), Encodable C node m →
    ∃ s' r, s.step C (.finish job node resBuf) = some (s', .sent job m r) ∧ AnswerTo C F G m r

theorem encodable_of_not_decodes {node : Node P} {m : Bytes} (h : ¬ Decodes C m) :
    Encodable C node m where
  addr req htype hreq := absurd (Or.inl ⟨htype, req, hreq⟩) h
  key req htype hreq := absurd (Or.inr ⟨htype, req, hreq⟩) h

variable {trace : ServerTrace P} {s : Server}

theorem onceEach_of_run (run : Runs (Server.step C) (Server.encodes C) Server.new trace s) :
    OnceEach trace s := by
  have sound := Server.sound_of_run run
  refine ⟨?_, sound.distinct, sound.once, ?_⟩
  · intro data seen m hmem hm hask
    exact Server.received_of_run run hmem hm hask
  · intro job m hmem
    rcases sound.done job m hmem with hpending | ⟨r, hsent⟩
    · refine Or.inl ⟨hpending, fun m' r hsent => ?_⟩
      have hnone := (sound.sent job m' r hsent).2.1
      rw [hpending] at hnone
      cases hnone
    · exact Or.inr ⟨(sound.sent job m r hsent).2.1, r, hsent⟩

/--
Each request starts one goroutine that sends one message; the messages are
answers exactly if the bodies of all requests decode.
-/
theorem asks_answered_iff (laws : LawfulKeys P) (node : Node P)
    (run : Runs (Server.step C) (Server.encodes C) Server.new trace s) :
    OnceEach trace s ∧
    (Answers C F G trace s ↔ ∀ job m, (job, m) ∈ spawnedJobs trace → Decodes C m) := by
  refine ⟨onceEach_of_run run, ?_⟩
  have sound := Server.sound_of_run run
  constructor
  · intro h job m hmem
    have hask := (sound.ask job m hmem).2
    by_contra hnot
    rcases sound.done job m hmem with hpending | ⟨r, hsent⟩
    · obtain ⟨s', r, hstep, hanswer⟩ := h.pending job m hpending node (.replicate maxFrameLen 0)
        (encodable_of_not_decodes hnot)
      obtain ⟨m', r', hm', hrespond, -, hseen⟩ := Server.step_finish_eq_some.mp hstep
      cases hseen
      exact not_answerTo_of_not_decodes hask hnot hrespond hanswer
    · obtain ⟨-, -, node', resBuf, -, hrespond⟩ := sound.sent job m r hsent
      exact not_answerTo_of_not_decodes hask hnot hrespond (h.sent job m r hsent)
  · intro h
    constructor
    · intro job m r hsent
      obtain ⟨hspawned, -, node', resBuf, hencodable, hrespond⟩ := sound.sent job m r hsent
      obtain ⟨r', hrespond', hanswer⟩ := exists_answer laws (sound.ask job m hspawned).1
        (h job m hspawned) hencodable resBuf
      rw [hrespond, Except.ok.injEq] at hrespond'
      rwa [hrespond']
    · intro job m hpending node' resBuf hencodable
      have hspawned := sound.pending job m hpending
      obtain ⟨r, hrespond, hanswer⟩ := exists_answer laws (sound.ask job m hspawned).1
        (h job m hspawned) hencodable resBuf
      exact ⟨_, r, Server.step_finish_eq_some.mpr ⟨m, r, hpending, hrespond, rfl, rfl⟩, hanswer⟩

/-! ### One request on its own -/

def Server.waiting (m : Bytes) : Server where
  started := 1
  jobs := Finmap.insert 0 m ∅

theorem runs_receive {data m : Bytes} (hm : asMessage data true = .ok m) (hask : IsAsk data) :
    Runs (Server.step (P := P) C) (Server.encodes C) Server.new
      [(.receive data, .spawned 0 (data.take maxFrameLen))]
      (.waiting (data.take maxFrameLen)) := by
  refine Runs.single trivial ?_
  rw [Server.step, Server.new.receive_of_ask hm hask]
  rfl

theorem runs_finish {data m r : Bytes} {node : Node P} {resBuf : List.Vector UInt8 maxFrameLen}
    (hm : asMessage data true = .ok m) (hask : IsAsk data)
    (hencodable : Encodable C node (data.take maxFrameLen))
    (hrespond : respond C node (data.take maxFrameLen) resBuf = .ok r) :
    Runs (Server.step C) (Server.encodes C) Server.new
      [(.receive data, .spawned 0 (data.take maxFrameLen)),
        (.finish 0 node resBuf, .sent 0 (data.take maxFrameLen) r)]
      { Server.waiting (data.take maxFrameLen) with
        jobs := (Server.waiting (data.take maxFrameLen)).jobs.erase 0 } := by
  have hjob : (Server.waiting (data.take maxFrameLen)).jobs.lookup 0 =
      some (data.take maxFrameLen) := Finmap.lookup_insert _
  refine (runs_receive hm hask).next ?_
    (Server.step_finish_eq_some.mpr ⟨_, r, hjob, hrespond, rfl, rfl⟩)
  intro m' hm'
  rw [hjob, Option.some.injEq] at hm'
  rwa [← hm']

theorem asks_answered_decodable : ∃ (trace : ServerTrace samplePrimitives) (s : Server),
    Runs (Server.step sampleCodecs) (Server.encodes sampleCodecs) Server.new trace s ∧
      spawnedJobs trace ≠ [] ∧
      Answers sampleCodecs FutureStore.table FutureStore.table trace s := by
  have hm := Content.asMessage_bytes Session.fits_sampleRequest true
  have hlength : _ ≤ maxFrameLen :=
    (Content.length_bytes_le Session.fits_sampleRequest).trans (Nat.le_add_right _ _)
  obtain ⟨htype, -⟩ := (Ask.content sampleCodecs Session.sampleReqID
    (.findAddr [255] 8)).readBack_bytes
  have run : Runs (Server.step (P := samplePrimitives) sampleCodecs) _ _ _ _ :=
    runs_receive hm (Or.inl htype)
  rw [List.take_of_length_le hlength] at run
  refine ⟨_, _, run, by simp [spawnedJobs], ?_⟩
  refine (asks_answered_iff samplePrimitives_lawfulKeys (Session.sampleNode none) run).2.mpr ?_
  intro job m hmem
  cases List.mem_singleton.mp hmem
  exact Or.inl ⟨htype, _, parseJSON_ask _ _ _ _⟩

/-- As `sampleCodecs`, with an error for a body without bytes. -/
def strictCodecs : Codecs :=
  { sampleCodecs with
    findAddrReq := {
      marshal := sampleCodecs.findAddrReq.marshal
      unmarshal := fun data =>
        if data = [] then fail "unexpected end of JSON input"
        else sampleCodecs.findAddrReq.unmarshal data
      unmarshal_marshal := by
        intro req
        have hne : sampleCodecs.findAddrReq.marshal req ≠ [] := by
          rcases req with ⟨prefixBytes, n | n⟩ <;> simp [sampleCodecs]
        rw [if_neg hne, sampleCodecs.findAddrReq.unmarshal_marshal] } }

/-- A request that ends after its ID. -/
def bareAsk : Bytes := (Content.ask mtFindAddr Session.sampleReqID []).bytes

theorem bareAsk_not_decodes : ¬ Decodes strictCodecs bareAsk := by
  rintro (⟨-, req, hreq⟩ | ⟨htype, -⟩)
  · cases hreq
  · revert htype
    decide

/-- What is sent for it has no bytes, and the client cannot tell whose answer it is. -/
theorem not_asks_answered : ∃ (trace : ServerTrace samplePrimitives) (s : Server),
    Runs (Server.step strictCodecs) (Server.encodes strictCodecs) Server.new trace s ∧
      asMessage bareAsk true = .ok bareAsk ∧ IsAsk bareAsk ∧
      sentFrames trace = [(0, bareAsk, [])] ∧ asMessage [] false ≠ .ok [] ∧
      ¬ Answers strictCodecs FutureStore.table FutureStore.table trace s := by
  have hm : asMessage bareAsk true = .ok bareAsk := by decide
  have hask : IsAsk bareAsk := Or.inl (by decide)
  have hrespond : respond strictCodecs (Session.sampleNode none) (bareAsk.take maxFrameLen)
      (.replicate maxFrameLen 0) = .ok [] := respond_of_error rfl
  have run := runs_finish hm hask (encodable_of_not_decodes bareAsk_not_decodes) hrespond
  refine ⟨_, _, run, hm, hask, rfl, by decide, fun h => ?_⟩
  exact not_answerTo_nil bareAsk (h.sent 0 bareAsk [] List.mem_cons_self)

end Inet256.Ipc
