import Inet256.Dns256.Replies
import Inet256.Dns256.Resolver

/-!
# Resolutions over the network

Any number of resolutions run at once and ask servers through one client.  Each
makes its lookups one after the other, while the loops of all of them read each
other's replies.  Whatever comes in between, a resolution ends as the loop of the
resolver does with the answers that were given to it.  A redirect on which a
decoder panics ends the process of the client, and all resolutions with it.
-/

namespace Inet256.Dns256

open Inet256.Foundation
open Inet256.Foundation.Json (stringBytes)

/-! ## One resolution -/

inductive ResolvePhase where
  | ready (hops : Nat) (sources : List (Authority Addr))
  /-- The call of `Do` is to answer the request to the target. -/
  | asking (call : Nat) (target : Authority Addr) (hops : Nat) (sources : List (Authority Addr))
  | done (result : Go (List Claim))

def ResolvePhase.panicked : ResolvePhase → Bool
  | .done (.error (.panic _)) => true
  | _ => false

structure Resolution where
  query : Query
  opts : List ResolveOpt
  /-- The lookups and what `Do` returned for them. -/
  asked : List (Lookup Addr × Except String Response)
  phase : ResolvePhase

namespace Resolution

def start (r : Resolver Addr) (query : Query) (opts : List ResolveOpt) : Resolution :=
  ⟨query, opts, [], .ready (resolveConfig opts).maxHops.toNat r.roots.reverse⟩

def lookups (run : Resolution) : List (Lookup Addr) := run.asked.map Prod.fst

/-- A round of the loop from where the answer is known. -/
def next (r : Resolver Addr) (query : Query) (target : Authority Addr) (hops : Nat)
    (sources : List (Authority Addr)) : Except String Response → ResolvePhase
  | .error err => .done (fail err)
  | .ok res =>
      if !res.isRedirect then .done (.ok res.claims)
      else
        match r.redirect (Resolver.request query target).query target res.claims sources with
        | .error fault => .done (.error fault)
        | .ok sources => .ready hops sources

def answer (r : Resolver Addr) (run : Resolution) (target : Authority Addr) (hops : Nat)
    (sources : List (Authority Addr)) (result : Except String Response) : Resolution :=
  { run with
    asked := run.asked ++ [(⟨target, Resolver.request run.query target⟩, result)]
    phase := next r run.query target hops sources result }

end Resolution

/-! ## All resolutions -/

structure Resolutions (F : FutureStore ReqKey Response) where
  exchange : Exchange F
  running : GoMap Nat Resolution
  /-- A resolution has panicked. -/
  crashed : Bool

inductive ResolveEvent (τ : Type) where
  | net (event : DoEvent τ)
  | begin (n : Nat) (query : Query) (opts : List ResolveOpt)
  | ask (n call : Nat) (id : RequestID)
  | take (n : Nat)
  | stop (n : Nat)

namespace Resolutions

variable {F : FutureStore ReqKey Response} {τ : Type} (D : Deployment τ) (r : Resolver Addr)

def new : Resolutions F := ⟨Exchange.new, ∅, false⟩

def set (s : Resolutions F) (n : Nat) (run : Resolution) : Resolutions F :=
  { s with
    running := s.running.insert n run
    crashed := s.crashed || run.phase.panicked }

/-- What the resolution does after `Do` has been called: it may have returned at once. -/
def called (run : Resolution) (call : Nat) (target : Authority Addr) (hops : Nat)
    (sources : List (Authority Addr)) : DoSeen → Resolution
  | .returned result => run.answer r target hops sources result
  | _ => { run with phase := .asking call target hops sources }

def act (s : Resolutions F) : ResolveEvent τ → Option (Resolutions F × DoSeen)
  | .net event => do
      let (exchange, seen) ← s.exchange.step D event
      some ({ s with exchange }, seen)
  | .begin n query opts =>
      match s.running.lookup n with
      | some _ => none
      | none => some (s.set n (Resolution.start r query opts), .nothing)
  | .ask n call id =>
      match s.running.lookup n with
      | some run =>
          match run.phase with
          | .ready (hops + 1) (target :: sources) => do
              let query := (Resolver.request run.query target).query
              let (exchange, seen) ← s.exchange.step D (.start call target.lookup query id)
              some ({ s with exchange }.set n (called r run call target hops sources seen), seen)
          | _ => none
      | none => none
  | .take n =>
      match s.running.lookup n with
      | some run =>
          match run.phase with
          | .asking call target hops sources =>
              match s.exchange.phases.lookup call with
              | some (.returned result) =>
                  some (s.set n (run.answer r target hops sources result), .nothing)
              | _ => none
          | _ => none
      | none => none
  | .stop n =>
      match s.running.lookup n with
      | some run =>
          match run.phase with
          | .ready _ [] => some (s.set n { run with phase := .done (.ok []) }, .nothing)
          | .ready 0 (_ :: _) =>
              some (s.set n { run with phase := .done (fail "max hops exceeded") }, .nothing)
          | _ => none
      | none => none

/-- Nothing happens after a panic. -/
def step (s : Resolutions F) (event : ResolveEvent τ) : Option (Resolutions F × DoSeen) :=
  if s.crashed then none else s.act D r event

/-- As for the exchange: numbers are fresh, and only other nodes send what they like. -/
def lawful (s : Resolutions F) : ResolveEvent τ → Prop
  | .net event => Exchange.lawful D s.exchange event
  | .ask _ _ id => Exchange.fresh D s.exchange id
  | _ => True

instance (s : Resolutions F) (event : ResolveEvent τ) : Decidable (s.lawful D event) :=
  match event with
  | .net event => inferInstanceAs (Decidable (Exchange.lawful D s.exchange event))
  | .ask _ _ id => inferInstanceAs (Decidable (Exchange.fresh D s.exchange id))
  | .begin _ _ _ => isTrue trivial
  | .take _ => isTrue trivial
  | .stop _ => isTrue trivial

end Resolutions

/-! ## What a resolution still has to do -/

/-- What the resolver reads of a response. -/
def Response.content (res : Response) : Bool × List Claim := (res.isRedirect, res.claims)

def Same (x y : Except String Response) : Prop :=
  x.map Response.content = y.map Response.content

/-- The world answers the lookups as they were answered. -/
def Agrees (world : World Addr) (asked : List (Lookup Addr × Except String Response)) : Prop :=
  ∀ before lookup result after, asked = before ++ (lookup, result) :: after →
    Same (world (before.map Prod.fst) lookup.target.lookup lookup.request) result

theorem Agrees.of_append {world : World Addr}
    {asked more : List (Lookup Addr × Except String Response)} (h : Agrees world (asked ++ more)) :
    Agrees world asked := by
  rintro before lookup result after rfl
  exact h before lookup result (after ++ more) (by simp)

theorem Agrees.last {world : World Addr}
    {asked : List (Lookup Addr × Except String Response)} {lookup : Lookup Addr}
    {result : Except String Response} (h : Agrees world (asked ++ [(lookup, result)])) :
    Same (world (asked.map Prod.fst) lookup.target.lookup lookup.request) result :=
  h asked lookup result [] rfl

namespace Resolution

variable {r : Resolver Addr} {world : World Addr}

/-- The rest of the loop in a world. -/
def rest (r : Resolver Addr) (world : World Addr) (run : Resolution) : Resolved Addr :=
  match run.phase with
  | .ready hops sources => r.loop world run.query hops sources run.lookups
  | .asking _ target hops sources =>
      r.loop world run.query (hops + 1) (target :: sources) run.lookups
  | .done result => ⟨result, run.lookups⟩

theorem rest_answer {run : Resolution} {target : Authority Addr} {hops : Nat}
    {sources : List (Authority Addr)} {result : Except String Response}
    (h : Same (world run.lookups target.lookup (Resolver.request run.query target)) result) :
    (run.answer r target hops sources result).rest r world =
      r.loop world run.query (hops + 1) (target :: sources) run.lookups := by
  have hlookups : (run.answer r target hops sources result).lookups =
      run.lookups ++ [⟨target, Resolver.request run.query target⟩] := by
    simp [lookups, answer]
  rw [Resolver.loop, rest, hlookups]
  generalize world run.lookups target.lookup (Resolver.request run.query target) = x at h
  cases x with
  | error err =>
      cases result with
      | error err' =>
          cases h
          rfl
      | ok res => cases h
  | ok given =>
      cases result with
      | error err => cases h
      | ok res =>
          obtain ⟨hredirect, hclaims⟩ : given.isRedirect = res.isRedirect ∧
              given.claims = res.claims := by
            simpa [Same, Except.map, Response.content] using h
          simp only [answer, next, hredirect, hclaims]
          cases hanswer : res.isRedirect with
          | false => rfl
          | true =>
              simp only [Bool.not_true, Bool.false_eq_true, if_false]
              cases r.redirect (Resolver.request run.query target).query target res.claims
                sources <;> rfl

end Resolution

/-! ## The exchange -/

namespace Exchange

variable {F : FutureStore ReqKey Response} {τ : Type} {D : Deployment τ} {s s' : Exchange F}

/-- A call of `Do` begins with the query it was given, or returns an error at once. -/
theorem start_cases {n : Nat} {dst : Addr} {query : Query} {id : RequestID} {seen : DoSeen}
    (h : s.step D (.start n dst query id) = some (s', seen)) :
    (seen = .started ∧ ∃ c, s'.calls.lookup n = some c ∧ c.dst = dst ∧
      c.request = ⟨id, query⟩) ∨ ∃ err, seen = .returned (.error err) := by
  have hseen : seen = .started ∨ ∃ err, seen = .returned (.error err) := by
    simp only [Exchange.step] at h
    split at h
    · have hstart := congrArg Prod.snd (Option.some.inj h)
      unfold Exchange.start at hstart
      cases hdata : D.codec.marshalRequest ⟨id, query⟩ with
      | error err =>
          rw [hdata] at hstart
          exact Or.inr ⟨err, hstart.symm⟩
      | ok data =>
          rw [hdata] at hstart
          exact Or.inl hstart.symm
    · cases h
  rcases hseen with rfl | herr
  · exact Or.inl ⟨rfl, started_step h⟩
  · exact Or.inr herr

theorem Answered.mono {sent sent' : List Message} {dst : Addr} {req : Request} {res : Response}
    (h : Answered D sent dst req res) (hsent : sent <+: sent') : Answered D sent' dst req res := by
  obtain ⟨data, m, hdata, hm, hfrom⟩ := h
  exact ⟨data, m, hdata, hsent.subset hm, hfrom⟩

end Exchange

/-! ## What holds of every resolution -/

open Exchange (Answered)

/--
The lookups are answered by the servers they are made at, and in every world that answers them so
the resolver is where the resolution is.
-/
structure Resolution.Follows {F : FutureStore ReqKey Response} {τ : Type} (D : Deployment τ)
    (r : Resolver Addr) (x : Exchange F) (run : Resolution) : Prop where
  asking : ∀ call target hops sources, run.phase = .asking call target hops sources →
    ∃ c, x.calls.lookup call = some c ∧ c.dst = target.lookup ∧
      c.request.query = (Resolver.request run.query target).query
  answered : ∀ lookup res, (lookup, .ok res) ∈ run.asked →
    ∃ id, Answered D x.sent lookup.target.lookup ⟨id, lookup.request.query⟩ res
  failed : ∀ lookup err, (lookup, .error err) ∈ run.asked → run.phase = .done (fail err)
  same : ∀ world, Agrees world run.asked → r.resolve world run.query run.opts = run.rest r world

namespace Resolution.Follows

variable {F : FutureStore ReqKey Response} {τ : Type} {D : Deployment τ} {r : Resolver Addr}
  {x x' : Exchange F} {run : Resolution}

theorem start (query : Query) (opts : List ResolveOpt) :
    Follows D r x (Resolution.start r query opts) where
  asking := nofun
  answered := by simp [Resolution.start]
  failed := by simp [Resolution.start]
  same world _ := rfl

theorem mono (h : Follows D r x run) (hkeeps : Exchange.Keeps x x') : Follows D r x' run where
  asking call target hops sources hphase := by
    obtain ⟨c, hc, hsame⟩ := h.asking call target hops sources hphase
    exact ⟨c, hkeeps.calls call c hc, hsame⟩
  answered lookup res hmem := by
    obtain ⟨id, hanswered⟩ := h.answered lookup res hmem
    exact ⟨id, hanswered.mono hkeeps.sent⟩
  failed := h.failed
  same := h.same

/-- The loop comes to the lookup, and `Do` has begun with it. -/
theorem ask (h : Follows D r x run) {target : Authority Addr} {hops : Nat}
    {sources : List (Authority Addr)} (hphase : run.phase = .ready (hops + 1) (target :: sources))
    {call : Nat} {c : DoCall} (hc : x.calls.lookup call = some c) (hdst : c.dst = target.lookup)
    (hquery : c.request.query = (Resolver.request run.query target).query) :
    Follows D r x { run with phase := .asking call target hops sources } where
  asking call' target' hops' sources' hphase' := by
    cases hphase'
    exact ⟨c, hc, hdst, hquery⟩
  answered := h.answered
  failed lookup err hmem := by
    have hdone := h.failed lookup err hmem
    rw [hphase] at hdone
    cases hdone
  same world hagrees := by
    rw [h.same world hagrees, Resolution.rest, hphase]
    rfl

theorem answer (h : Follows D r x run) {target : Authority Addr} {hops : Nat}
    {sources : List (Authority Addr)} {result : Except String Response}
    (hresult : ∀ res, result = .ok res → ∃ id, Answered D x.sent target.lookup
      ⟨id, (Resolver.request run.query target).query⟩ res)
    (hgoing : ∀ err, run.phase ≠ .done (fail err))
    (hrest : ∀ world, run.rest r world =
      r.loop world run.query (hops + 1) (target :: sources) run.lookups) :
    Follows D r x (run.answer r target hops sources result) where
  asking call target' hops' sources' hphase := by
    simp only [Resolution.answer, Resolution.next] at hphase
    split at hphase
    · cases hphase
    · split at hphase
      · cases hphase
      · split at hphase <;> cases hphase
  answered lookup res hmem := by
    rcases List.mem_append.mp hmem with hold | hnew
    · exact h.answered lookup res hold
    · cases List.mem_singleton.mp hnew
      exact hresult res rfl
  failed lookup err hmem := by
    rcases List.mem_append.mp hmem with hold | hnew
    · exact absurd (h.failed lookup err hold) (hgoing err)
    · cases List.mem_singleton.mp hnew
      rfl
  same world hagrees := by
    have hbefore := h.same world hagrees.of_append
    rw [rest_answer hagrees.last, ← hrest world, ← hbefore]
    rfl

theorem stop (h : Follows D r x run) {result : Go (List Claim)} {hops : Nat}
    {sources : List (Authority Addr)} (hphase : run.phase = .ready hops sources)
    (hrest : ∀ world, run.rest r world = ⟨result, run.lookups⟩) :
    Follows D r x { run with phase := .done result } where
  asking := nofun
  answered := h.answered
  failed lookup err hmem := by
    have hdone := h.failed lookup err hmem
    rw [hphase] at hdone
    cases hdone
  same world hagrees := by
    rw [h.same world hagrees, hrest world]
    rfl

end Resolution.Follows

namespace Resolutions

variable {F : FutureStore ReqKey Response} {τ : Type} {D : Deployment τ} {r : Resolver Addr}
  {s s' : Resolutions F}

structure Inv (D : Deployment τ) (r : Resolver Addr) (s : Resolutions F) : Prop where
  sound : Exchange.Sound D s.exchange
  follows : ∀ n run, s.running.lookup n = some run → run.Follows D r s.exchange

theorem inv_new : Inv D r (new : Resolutions F) where
  sound := Exchange.sound_new
  follows := by simp [new]

theorem Inv.set (inv : Inv D r s) (n : Nat) {run : Resolution}
    (hrun : run.Follows D r s.exchange) : Inv D r (s.set n run) where
  sound := inv.sound
  follows := by
    intro m other hother
    rcases GoMap.lookup_insert_cases hother with ⟨-, rfl⟩ | ⟨-, hold⟩
    · exact hrun
    · exact inv.follows m other hold

theorem Inv.net (inv : Inv D r s) {event : DoEvent τ} {x : Exchange F} {seen : DoSeen}
    (hlawful : Exchange.lawful D s.exchange event)
    (hstep : s.exchange.step D event = some (x, seen)) : Inv D r { s with exchange := x } where
  sound := (inv.sound.step hlawful hstep).1
  follows n run hrun :=
    (inv.follows n run hrun).mono (inv.sound.step hlawful hstep).2

theorem Inv.ask (inv : Inv D r s) {n call : Nat} {id : RequestID} {seen : DoSeen}
    (hid : Exchange.fresh D s.exchange id)
    (h : s.act D r (.ask n call id) = some (s', seen)) : Inv D r s' := by
  simp only [Resolutions.act] at h
  split at h
  · next run hrun =>
      split at h
      · next hops target sources hphase =>
          obtain ⟨⟨x, seen⟩, hstep, hnext⟩ := Option.bind_eq_some_iff.mp h
          cases hnext
          have hstart : Exchange.lawful D s.exchange (.start call target.lookup
              (Resolver.request run.query target).query id) := hid
          have hinv := inv.net hstart hstep
          have hfollows := hinv.follows n run hrun
          refine hinv.set n ?_
          rcases Exchange.start_cases hstep with ⟨rfl, c, hc, hdst, hreq⟩ | ⟨err, rfl⟩
          · exact hfollows.ask hphase hc hdst (by rw [hreq])
          · refine hfollows.answer nofun (by simp [hphase]) fun world => ?_
            rw [Resolution.rest, hphase]
      · cases h
  · cases h

theorem Inv.take (inv : Inv D r s) {n : Nat} {seen : DoSeen}
    (h : s.act D r (.take n) = some (s', seen)) : Inv D r s' := by
  simp only [Resolutions.act] at h
  split at h
  · next run hrun =>
      split at h
      · next call target hops sources hphase =>
          split at h
          · next result hresult =>
              cases h
              have hfollows := inv.follows n run hrun
              obtain ⟨c, hc, hdst, hquery⟩ := hfollows.asking call target hops sources hphase
              refine inv.set n (hfollows.answer ?_ (by simp [hphase]) fun world => ?_)
              · rintro res rfl
                have hanswered := inv.sound.answered hc
                  (inv.sound.futures.results call c _ res hc hresult rfl)
                rw [← hdst, ← hquery]
                exact ⟨c.request.id, hanswered⟩
              · rw [Resolution.rest, hphase]
          · cases h
      · cases h
  · cases h

theorem Inv.stop (inv : Inv D r s) {n : Nat} {seen : DoSeen}
    (h : s.act D r (.stop n) = some (s', seen)) : Inv D r s' := by
  simp only [Resolutions.act] at h
  split at h
  · next run hrun =>
      have hfollows := inv.follows n run hrun
      split at h
      · next hops hphase =>
          cases h
          refine inv.set n (hfollows.stop hphase fun world => ?_)
          rw [Resolution.rest, hphase]
          cases hops <;> rfl
      · next target sources hphase =>
          cases h
          refine inv.set n (hfollows.stop hphase fun world => ?_)
          rw [Resolution.rest, hphase]
          rfl
      · cases h
  · cases h

theorem Inv.step {event : ResolveEvent τ} {seen : DoSeen} (inv : Inv D r s)
    (hlawful : s.lawful D event) (h : s.step D r event = some (s', seen)) : Inv D r s' := by
  rw [Resolutions.step] at h
  split at h
  · cases h
  · cases event with
    | net event =>
        obtain ⟨⟨x, seen⟩, hstep, hnext⟩ := Option.bind_eq_some_iff.mp h
        cases hnext
        exact inv.net hlawful hstep
    | begin n query opts =>
        simp only [Resolutions.act] at h
        split at h
        · cases h
        · cases h
          exact inv.set n (.start query opts)
    | ask n call id => exact inv.ask hlawful h
    | take n => exact inv.take h
    | stop n => exact inv.stop h

/-! ## Finished resolutions -/

/-- A world in which the lookups are answered in their order. -/
def recorded (asked : List (Lookup Addr × Except String Response)) : World Addr :=
  fun log _ _ => (asked[log.length]?.map Prod.snd).getD (.error "not asked")

theorem agrees_recorded (asked : List (Lookup Addr × Except String Response)) :
    Agrees (recorded asked) asked := by
  rintro before lookup result after rfl
  simp [recorded, Same]

/-- What arrives from a server depends on the query only. -/
def Plain (D : Deployment τ) (f : Addr → Query → Response) : Prop :=
  ∀ addr handler id query data payload res, D.handlers addr = some handler →
    D.codec.marshalRequest ⟨id, query⟩ = .ok data → Exchange.Handles D handler data payload →
    D.codec.unmarshalResponse payload = some res → res.content = (f addr query).content

def plainWorld (f : Addr → Query → Response) : World Addr :=
  fun _ addr req => .ok (f addr req.query)

/--
Every response that the resolution used was made for its lookup by the server it asked.  With these
answers the resolver by itself makes the same lookups and has the same result; and if all servers
answer by the query alone, claims that were found are the ones they define.
-/
structure Sequential (D : Deployment τ) (r : Resolver Addr) (x : Exchange F) (run : Resolution)
    (result : Go (List Claim)) : Prop where
  answered : ∀ lookup res, (lookup, .ok res) ∈ run.asked →
    ∃ id, Answered D x.sent lookup.target.lookup ⟨id, lookup.request.query⟩ res
  world : ∃ world, Agrees world run.asked ∧
    r.resolve world run.query run.opts = ⟨result, run.lookups⟩
  plain : ∀ f, Plain D f →
    (∀ lookup ∈ run.lookups, (D.handlers lookup.target.lookup).isSome = true) →
    ∀ claims, result = .ok claims →
      r.resolve (plainWorld f) run.query run.opts = ⟨.ok claims, run.lookups⟩

theorem agrees_plain {x : Exchange F} {run : Resolution} (h : run.Follows D r x)
    {claims : List Claim} (hdone : run.phase = .done (.ok claims)) {f : Addr → Query → Response}
    (hplain : Plain D f)
    (hserved : ∀ lookup ∈ run.lookups, (D.handlers lookup.target.lookup).isSome = true) :
    Agrees (plainWorld f) run.asked := by
  intro before lookup result after hasked
  have hmem : (lookup, result) ∈ run.asked := by simp [hasked]
  cases result with
  | error err =>
      have hfailed := h.failed lookup err hmem
      rw [hdone] at hfailed
      cases hfailed
  | ok res =>
      obtain ⟨id, data, m, hdata, -, -, -, hres, hhandles⟩ := h.answered lookup res hmem
      obtain ⟨handler, hhandler⟩ := Option.isSome_iff_exists.mp
        (hserved lookup (List.mem_map_of_mem hmem))
      have hcontent := hplain lookup.target.lookup handler id lookup.request.query data m.payload
        res hhandler hdata (hhandles handler hhandler) hres
      exact congrArg Except.ok hcontent.symm

theorem resolutions_sequential {trace : List (ResolveEvent τ × DoSeen)}
    (runs : Runs (Resolutions.step D r) (lawful D) (new : Resolutions F) trace s) :
    ∀ n run result, s.running.lookup n = some run → run.phase = .done result →
      Sequential D r s.exchange run result := by
  have inv : Inv D r s := runs.invariant inv_new
    fun _ _ _ _ inv hlawful hstep => inv.step hlawful hstep
  intro n run result hrun hdone
  have hfollows := inv.follows n run hrun
  have hsame : ∀ world, Agrees world run.asked →
      r.resolve world run.query run.opts = ⟨result, run.lookups⟩ := by
    intro world hagrees
    rw [hfollows.same world hagrees, Resolution.rest, hdone]
  refine ⟨hfollows.answered, ⟨recorded run.asked, agrees_recorded _, hsame _ (agrees_recorded _)⟩,
    ?_⟩
  rintro f hplain hserved claims rfl
  exact hsame _ (agrees_plain hfollows hdone hplain hserved)

/-! ### Two resolutions, each of which reads the other's reply -/

/-- The number of claims that were found. -/
def found (s : Resolutions F) (n : Nat) : Option (Go Nat) :=
  match s.running.lookup n with
  | some ⟨_, _, _, .done result⟩ => some (result.map List.length)
  | _ => none

open Exchange (sampleHost sampleNumber sampleClaim sampleDeployment)

def sampleSharedResolver : Resolver Addr where
  codecs := sampleCodecs
  roots := [newINET256Root (sampleHost 1)]
  makeLookup := newINET256Parser sampleCodecs
  showLookup := fun _ => "0x0"

def sampleResolveEvents : List (ResolveEvent Unit) :=
  [.begin 0 ⟨[stringBytes "a"], anyRecord⟩ [], .begin 1 ⟨[stringBytes "a"], anyRecord⟩ [],
    .ask 0 0 (sampleNumber 1), .ask 1 1 (sampleNumber 2),
    .net (.send 0 none), .net (.send 1 none), .net (.accept 1), .net (.accept 0),
    .net (.reply 0 ()), .net (.reply 0 ()), .net (.receive 0 2), .net (.receive 1 3),
    .net (.succeed 1), .net (.succeed 0), .net (.await 0), .net (.finish 0), .take 0,
    .net (.await 1), .net (.finish 1), .take 1]

theorem sampleDeployment_plain :
    Plain sampleDeployment fun _ _ => ⟨RequestID.zero, false, [sampleClaim]⟩ := by
  intro addr handler id query data payload res _ _ _ hres
  obtain ⟨entry, -, rfl⟩ := Option.map_eq_some_iff.mp hres
  rfl

theorem resolutions_sequential_sample :
    ∃ (trace : List (ResolveEvent Unit × DoSeen)) (s : Resolutions FutureStore.table),
      trace.map Prod.fst = sampleResolveEvents ∧
      found s 0 = some (.ok 1) ∧ found s 1 = some (.ok 1) ∧
      (∀ n run result, s.running.lookup n = some run → run.phase = .done result →
        Sequential sampleDeployment sampleSharedResolver s.exchange run result) ∧
      Plain sampleDeployment fun _ _ => ⟨RequestID.zero, false, [sampleClaim]⟩ := by
  have hreplay : (replay (Resolutions.step sampleDeployment sampleSharedResolver)
      (lawful sampleDeployment) (new : Resolutions FutureStore.table) sampleResolveEvents).map
        (fun result => (found result.1 0, found result.1 1)) =
      some (some (.ok 1), some (.ok 1)) := by
    decide +kernel
  obtain ⟨trace, s, hevents, runs, hfound⟩ := exists_run_of_map hreplay
  obtain ⟨hfirst, hsecond⟩ := Prod.mk.inj hfound
  exact ⟨trace, s, hevents, hfirst, hsecond, resolutions_sequential runs, sampleDeployment_plain⟩

end Resolutions

end Inet256.Dns256
