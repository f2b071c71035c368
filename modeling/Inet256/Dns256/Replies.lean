import Inet256.Dns256.Client

/-!
# Replies reach the request they answer

A response that a call returns came from the server that was asked, and that
server made it from the call's own query.  The numbers lead from the response to
the request and from there to the call, whichever loop read the response.
-/

namespace Inet256.Dns256.Exchange

open Inet256.Foundation

variable {F : FutureStore ReqKey Response} {τ : Type} {D : Deployment τ} {s s' : Exchange F}

/-- What a call was asked and what it returned can be read off the trace. -/
structure Recorded (trace : List (DoEvent τ × DoSeen)) (s : Exchange F) : Prop where
  started : ∀ n dst query id, (.start n dst query id, .started) ∈ trace →
    ∃ c, s.calls.lookup n = some c ∧ c.dst = dst ∧ c.request = ⟨id, query⟩
  returned : ∀ n result, (.finish n, .returned result) ∈ trace →
    s.phases.lookup n = some (.returned result)

theorem started_step {n : Nat} {dst : Addr} {query : Query} {id : RequestID}
    (h : s.step D (.start n dst query id) = some (s', .started)) :
    ∃ c, s'.calls.lookup n = some c ∧ c.dst = dst ∧ c.request = ⟨id, query⟩ := by
  simp only [Exchange.step] at h
  split at h
  · unfold Exchange.start at h
    cases hdata : D.codec.marshalRequest ⟨id, query⟩ with
    | error err =>
        rw [hdata] at h
        cases h
    | ok data =>
        rw [hdata] at h
        cases h
        exact ⟨_, Finmap.lookup_insert _, rfl, rfl⟩
  · cases h

theorem finish_step {n : Nat} {result : Except String Response}
    (h : s.step D (.finish n) = some (s', .returned result)) :
    s'.phases.lookup n = some (.returned result) := by
  simp only [Exchange.step] at h
  split at h
  · cases h
    exact Finmap.lookup_insert _
  · cases h

theorem Recorded.step {trace : List (DoEvent τ × DoSeen)} {event : DoEvent τ} {seen : DoSeen}
    (recorded : Recorded trace s) (hkeeps : Keeps s s')
    (h : s.step D event = some (s', seen)) : Recorded (trace ++ [(event, seen)]) s' := by
  constructor
  · intro n dst query id hstart
    rcases List.mem_append.mp hstart with hbefore | hlast
    · obtain ⟨c, hc, hsame⟩ := recorded.started n dst query id hbefore
      exact ⟨c, hkeeps.calls n c hc, hsame⟩
    · cases List.mem_singleton.mp hlast
      exact started_step h
  · intro n result hfinish
    rcases List.mem_append.mp hfinish with hbefore | hlast
    · exact hkeeps.returned n result (recorded.returned n result hbefore)
    · cases List.mem_singleton.mp hlast
      exact finish_step h

/-! ## Replies -/

/-- The response came from the server, which made it from this request if it runs `Serve`. -/
def Answered (D : Deployment τ) (sent : List Message) (dst : Addr) (req : Request)
    (res : Response) : Prop :=
  ∃ data m, D.codec.marshalRequest req = .ok data ∧ m ∈ sent ∧ m.src = dst ∧
    m.dst = D.client ∧ D.codec.unmarshalResponse m.payload = some res ∧
    ∀ h, D.handlers dst = some h → Handles D h data m.payload

/-- A request of the client that is read as a response has the number of no call. -/
theorem Sound.ne_of_requests (sound : Sound D s) {m : Message} {handler : Handler τ}
    (hhandler : D.handlers m.src = some handler) (hm : Requests D s m) {res : Response}
    (hres : D.codec.unmarshalResponse m.payload = some res) {n : Nat} {c : DoCall}
    (hc : s.calls.lookup n = some c) : res.requestID ≠ c.request.id := by
  obtain ⟨hclient, n', c', hc', -, hdata⟩ := hm
  have hserves : (D.handlers D.client).isSome = true := by rw [← hclient, hhandler]; rfl
  have hzero : res.requestID = RequestID.zero :=
    D.codec.request_as_response c'.request c'.data res (sound.calls.data n' c' hc')
      (by rw [hdata]; exact hres)
  rw [hzero]
  exact (sound.calls.nonzero hserves n c hc).symm

/-- What a server makes of a response has the number of no call. -/
theorem Sound.ne_of_answers (sound : Sound D s) {asked m : Message}
    (hasked : Answers D s.sent asked) (hclient : asked.src = D.client) {handler : Handler τ}
    (hhandles : Handles D handler asked.payload m.payload) {res : Response}
    (hres : D.codec.unmarshalResponse m.payload = some res) {n : Nat} {c : DoCall}
    (hc : s.calls.lookup n = some c) : res.requestID ≠ c.request.id := by
  obtain ⟨own, hown, -, -, -, -, moment', req', made', -, -, hresponse⟩ := hasked
  obtain ⟨moment, req, made, hreq, -, hpayload⟩ := hhandles
  have hserves : (D.handlers D.client).isSome = true := by rw [← hclient, hown]; rfl
  have hzero : res.requestID = RequestID.zero :=
    calc res.requestID = req.id := D.codec.response_id _ m.payload res hpayload hres
      _ = RequestID.zero := D.codec.response_as_request _ asked.payload req hresponse hreq
  rw [hzero]
  exact (sound.calls.nonzero hserves n c hc).symm

/-- The number leads from the response to the request, and from there to the call. -/
theorem Sound.answered (sound : Sound D s) {n : Nat} {c : DoCall} {res : Response}
    (hc : s.calls.lookup n = some c) (h : Delivered D s.sent c res) :
    Answered D s.sent c.dst c.request res := by
  obtain ⟨m, hm, hsrc, hdst, hres, hid⟩ := h
  refine ⟨c.data, m, sound.calls.data n c hc, hm, hsrc, hdst, hres, fun handler hhandler => ?_⟩
  rw [← hsrc] at hhandler
  rcases sound.traffic.origins m hm (Or.inr (by rw [hhandler]; rfl)) with hrequest | hanswer
  · exact absurd hid (sound.ne_of_requests hhandler hrequest hres hc)
  · obtain ⟨handler', hhandler', asked, hasked, hfrom, -, hhandles⟩ := hanswer
    cases hhandler.symm.trans hhandler'
    have hclient : asked.src = D.client := hfrom.trans hdst
    rcases sound.traffic.origins asked hasked (Or.inl hclient) with hrequest | hanswer
    · obtain ⟨-, n', c', hc', -, hdata⟩ := hrequest
      obtain ⟨moment, req, made, hreq, hmade, hpayload⟩ := hhandles
      have hown : c'.request.id = c.request.id := by
        rw [← hdata] at hreq
        calc c'.request.id = req.id :=
              (D.codec.request_id c'.request c'.data req (sound.calls.data n' c' hc') hreq).symm
          _ = res.requestID := (D.codec.response_id _ m.payload res hpayload hres).symm
          _ = c.request.id := hid
      obtain rfl := sound.calls.ids n' n c' c hc' hc hown
      cases hc.symm.trans hc'
      rw [← hdata] at hreq
      exact ⟨moment, req, made, hreq, hmade, hpayload⟩
    · exact absurd hid (sound.ne_of_answers hanswer hclient hhandles hres hc)

/--
A response that a call returns was made for it; a message completes no call but one that asked its
sender, has its number and has not returned; and what was returned stays.
-/
structure RepliesMatch (D : Deployment τ) (trace : List (DoEvent τ × DoSeen)) (s : Exchange F) :
    Prop where
  own : ∀ n dst query id res, (.start n dst query id, .started) ∈ trace →
    (.finish n, .returned (.ok res)) ∈ trace → Answered D s.sent dst ⟨id, query⟩ res
  picked : ∀ loop message s' future,
    s.step D (.receive loop message) = some (s', .picked future) →
    ∃ m res n c, s.sent[message]? = some m ∧ D.codec.unmarshalResponse m.payload = some res ∧
      s.calls.lookup n = some c ∧ c.future = future ∧
      (∀ n' c', s.calls.lookup n' = some c' → c'.future = future → n' = n) ∧
      c.dst = m.src ∧ c.request.id = res.requestID ∧
      ∀ result, s.phases.lookup n ≠ some (.returned result)
  stays : ∀ event s' seen, lawful D s event → s.step D event = some (s', seen) → ∀ n result,
    s.phases.lookup n = some (.returned result) → s'.phases.lookup n = some (.returned result)

theorem picked_step {loop message future : Nat}
    (h : s.step D (.receive loop message) = some (s', .picked future)) :
    ∃ m res, s.sent[message]? = some m ∧ D.codec.unmarshalResponse m.payload = some res ∧
      F.get s.reqs ⟨m.src, res.requestID⟩ = some future := by
  simp only [Exchange.step] at h
  split at h
  · next m _ _ hm =>
      split at h
      · have hseen := congrArg Prod.snd (Option.some.inj h)
        unfold Exchange.receive at hseen
        split at hseen
        · cases hseen
        · next res hres =>
            split at hseen
            · cases hseen
            · next found hget =>
                cases hseen
                exact ⟨m, res, hm, hres, hget⟩
      · cases h
  · cases h

theorem replies_match {trace : List (DoEvent τ × DoSeen)}
    (run : Runs (Exchange.step D) (lawful D) new trace s) : RepliesMatch D trace s := by
  have hrun : Sound D s ∧ Recorded trace s := by
    apply run.history (motive := fun trace s => Sound D s ∧ Recorded trace s)
    · exact ⟨sound_new, by constructor <;> simp⟩
    · intro trace s event s' seen _ hinv hlawful hstep
      obtain ⟨hsound, hkeeps⟩ := hinv.1.step hlawful hstep
      exact ⟨hsound, hinv.2.step hkeeps hstep⟩
  obtain ⟨sound, recorded⟩ := hrun
  constructor
  · intro n dst query id res hstart hfinish
    obtain ⟨c, hc, rfl, hrequest⟩ := recorded.started n dst query id hstart
    have hphase := recorded.returned n (.ok res) hfinish
    rw [← hrequest]
    exact sound.answered hc (sound.futures.results n c _ res hc hphase rfl)
  · intro loop message s' future hstep
    obtain ⟨m, res, hm, hres, hget⟩ := picked_step hstep
    obtain ⟨n, c, hc, hkey, hfuture, hwaits⟩ := sound.futures.registered _ future hget
    refine ⟨m, res, n, c, hm, hres, hc, hfuture, ?_, congrArg ReqKey.addr hkey,
      congrArg ReqKey.id hkey, hwaits⟩
    intro n' c' hc' hfuture'
    exact sound.calls.futures n' n c' c hc' hc (hfuture'.trans hfuture.symm)
  · intro event s' seen hlawful hstep
    exact (sound.step hlawful hstep).2.returned

/-! ### Two calls, each of which reads the other's reply -/

def sampleHost (byte : UInt8) : Addr := copyTo 32 [byte]

def sampleNumber (byte : UInt8) : RequestID := copyTo 16 [byte]

def sampleRequest (byte : UInt8) : Request :=
  ⟨sampleNumber byte, [Json.stringBytes "a"], .mk none none none none⟩

def sampleClaim : Claim := ⟨Finmap.singleton (Json.stringBytes "port") (Json.stringBytes "80"), 60⟩

def sampleResponse (byte : UInt8) : Response := ⟨sampleNumber byte, false, [sampleClaim]⟩

/-- The numbers of the two calls, as they are written. -/
def sampleRequestText (number : String) : Bytes :=
  Json.stringBytes ("\x7b\"id\":\"" ++ number ++
    "\",\"query\":\x7b\"path\":[\"a\"],\"filter\":\x7b\x7d\x7d\x7d")

def sampleResponseText (number : String) : Bytes :=
  Json.stringBytes ("\x7b\"req_id\":\"" ++ number ++
    "\",\"is_redirect\":false,\"claims\":[\x7b\"record\":\x7b\"port\":80\x7d,\"ttl\":60\x7d]\x7d")

def sampleNumbers : List (UInt8 × String) :=
  [(1, "AQAAAAAAAAAAAAAAAAAAAA=="), (2, "AgAAAAAAAAAAAAAAAAAAAA==")]

theorem sample_texts : ∀ a ∈ sampleNumbers, ∀ b ∈ sampleNumbers,
    sampleRequestText a.2 = sampleRequestText b.2 ∨
      sampleResponseText a.2 = sampleResponseText b.2 → a = b := by
  decide +kernel

theorem sample_texts_apart : ∀ a ∈ sampleNumbers, ∀ b ∈ sampleNumbers,
    sampleRequestText a.2 ≠ sampleResponseText b.2 := by
  decide +kernel

def sampleWire : WireCodec where
  marshalRequest req :=
    match sampleNumbers.find? fun entry => sampleNumber entry.1 = req.id with
    | some entry => .ok (sampleRequestText entry.2)
    | none => .error "unknown number"
  unmarshalRequest data :=
    (sampleNumbers.find? fun entry => sampleRequestText entry.2 = data).map
      fun entry => sampleRequest entry.1
  marshalResponse res :=
    (sampleNumbers.find? fun entry => sampleNumber entry.1 = res.requestID).map
      fun entry => sampleResponseText entry.2
  unmarshalResponse data :=
    (sampleNumbers.find? fun entry => sampleResponseText entry.2 = data).map
      fun entry => sampleResponse entry.1
  request_id := by
    intro req data req' hmarshal hunmarshal
    split at hmarshal
    · next entry hentry =>
        cases hmarshal
        obtain ⟨entry', hentry', rfl⟩ := Option.map_eq_some_iff.mp hunmarshal
        have htext : entry' = entry := by
          apply sample_texts entry' (List.mem_of_find?_eq_some hentry') entry
            (List.mem_of_find?_eq_some hentry)
          exact Or.inl (by simpa using List.find?_some hentry')
        have hnumber : sampleNumber entry.1 = req.id := by simpa using List.find?_some hentry
        rw [htext]
        exact hnumber
    · cases hmarshal
  response_id := by
    intro res data res' hmarshal hunmarshal
    obtain ⟨entry, hentry, rfl⟩ := Option.map_eq_some_iff.mp hmarshal
    obtain ⟨entry', hentry', rfl⟩ := Option.map_eq_some_iff.mp hunmarshal
    have htext : entry' = entry := by
      apply sample_texts entry' (List.mem_of_find?_eq_some hentry') entry
        (List.mem_of_find?_eq_some hentry)
      exact Or.inr (by simpa using List.find?_some hentry')
    have hnumber : sampleNumber entry.1 = res.requestID := by simpa using List.find?_some hentry
    rw [htext]
    exact hnumber
  request_as_response := by
    intro req data res hmarshal hunmarshal
    split at hmarshal
    · next entry hentry =>
        cases hmarshal
        obtain ⟨entry', hentry', -⟩ := Option.map_eq_some_iff.mp hunmarshal
        have htext : sampleResponseText entry'.2 = sampleRequestText entry.2 := by
          simpa using List.find?_some hentry'
        exact absurd htext.symm (sample_texts_apart entry (List.mem_of_find?_eq_some hentry) entry'
          (List.mem_of_find?_eq_some hentry'))
    · cases hmarshal
  response_as_request := by
    intro res data req hmarshal hunmarshal
    obtain ⟨entry, hentry, rfl⟩ := Option.map_eq_some_iff.mp hmarshal
    obtain ⟨entry', hentry', -⟩ := Option.map_eq_some_iff.mp hunmarshal
    have htext : sampleRequestText entry'.2 = sampleResponseText entry.2 := by
      simpa using List.find?_some hentry'
    exact absurd htext (sample_texts_apart entry' (List.mem_of_find?_eq_some hentry') entry
      (List.mem_of_find?_eq_some hentry))

def sampleDeployment : Deployment Unit where
  codec := sampleWire
  client := sampleHost 0
  handlers addr :=
    if addr = sampleHost 0 ∨ addr = sampleHost 1 ∨ addr = sampleHost 2 then
      some fun _ res _ => ({ res with claims := [sampleClaim] }, true)
    else none

def sampleExchange : Exchange FutureStore.table := new

def sampleDoEvents : List (DoEvent Unit) :=
  [.start 0 (sampleHost 1) (sampleRequest 1).query (sampleNumber 1),
    .start 1 (sampleHost 2) (sampleRequest 2).query (sampleNumber 2),
    .send 0 none, .send 1 none, .accept 1, .accept 0, .accept 0, .reply 0 (), .reply 0 (),
    -- Another node sends the first response too.
    .inject ⟨sampleHost 3, sampleHost 0, sampleResponseText "AQAAAAAAAAAAAAAAAAAAAA=="⟩,
    .receive 0 4, .receive 0 2, .receive 1 3, .succeed 1, .succeed 0,
    .await 0, .finish 0, .await 1, .finish 1, .receive 1 3,
    -- The client's node answers a request of its own.
    .inject ⟨sampleHost 3, sampleHost 0, sampleRequestText "AQAAAAAAAAAAAAAAAAAAAA=="⟩,
    .accept 5, .reply 1 ()]

theorem replies_match_sample :
    ∃ trace s, Runs (Exchange.step sampleDeployment) (lawful sampleDeployment) sampleExchange
        trace s ∧ trace.map Prod.fst = sampleDoEvents ∧
      trace.filterMap (fun entry => entry.2.outcome) =
        [.inl 1, .inl 0, .inr (sampleNumber 1), .inr (sampleNumber 2)] ∧
      RepliesMatch sampleDeployment trace s := by
  have hreplay : (replay (Exchange.step sampleDeployment) (lawful sampleDeployment) sampleExchange
      sampleDoEvents).map (fun result => result.2.filterMap fun entry => entry.2.outcome) =
      some [.inl 1, .inl 0, .inr (sampleNumber 1), .inr (sampleNumber 2)] := by
    decide +kernel
  obtain ⟨trace, s, hevents, run, houtcomes⟩ := exists_run_of_map hreplay
  exact ⟨trace, s, run, hevents, houtcomes, replies_match run⟩

end Inet256.Dns256.Exchange
