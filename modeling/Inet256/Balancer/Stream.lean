import Inet256.Foundation.Runs
import Inet256.Foundation.Runtime

/-!
# The stream balancer

Any number of frontend connections are served at once.  Each picks the backend
with the fewest active connections, is counted there, opens a connection to it
and copies in both directions; the two loops finish in either order and each
closes the side it writes to.  Backends are added and removed meanwhile, but not
while a connection picks one.
-/

namespace Inet256.Balancer

open Inet256.Foundation

/-! ## One connection -/

/-- How far `serveFrontendConn` has come.  Entries of the table are known by their number;
from `counted` to `leaving` the connection is counted at its entry. -/
inductive Phase where
  | accepted
  | picking (todo : List Nat) (best : Option (Nat × Int))
  | picked (ent : Nat)
  | counted (ent : Nat)
  | plumbing (ent : Nat) (frontDone backDone : Bool) (err : Option String)
  | leaving (ent : Nat) (err : Option String)
  | returned (err : Option String)
  deriving DecidableEq

structure Conn where
  phase : Phase
  frontClosed : Bool
  /-- Nothing as long as no backend connection is opened. -/
  backClosed : Option Bool
  deriving DecidableEq

inductive Side where
  | front
  | back
  deriving DecidableEq

inductive ConnEvent where
  | pick (order : List Nat)
  | load
  | endPick
  | add
  | openBackend (result : Except String Unit)
  | copied (side : Side) (err : Option String)
  | wait
  | leave

/-- One round of the loop over the backends. -/
def better (best : Option (Nat × Int)) (ent : Nat) (active : Int) : Option (Nat × Int) :=
  match best with
  | none => some (ent, active)
  | some (best, minActive) =>
      if active < minActive then some (ent, active) else some (best, minActive)

def Conn.goTo (conn : Conn) (phase : Phase) : Conn := { conn with phase := phase }

/-- The connection and the counters after one step.  A map is iterated in any order. -/
def connStep (backends : List (GoString × Nat)) (active : List Int) (conn : Conn)
    (event : ConnEvent) : Option (Conn × List Int) :=
  match conn.phase, event with
  | .accepted, .pick order =>
      if backends = [] then
        some (conn.goTo (.returned (some "no backends available")), active)
      else if order.isPerm (backends.map Prod.snd) then
        some (conn.goTo (.picking order none), active)
      else none
  | .picking (ent :: todo) best, .load =>
      active[ent]?.map fun n => (conn.goTo (.picking todo (better best ent n)), active)
  | .picking [] (some (ent, _)), .endPick => some (conn.goTo (.picked ent), active)
  | .picked ent, .add => some (conn.goTo (.counted ent), active.modify ent (· + 1))
  | .counted ent, .openBackend (.error err) =>
      some (conn.goTo (.leaving ent (some ("could not connect to backend " ++ err))), active)
  | .counted ent, .openBackend (.ok ()) =>
      some ({ conn with phase := .plumbing ent false false none, backClosed := some false }, active)
  | .plumbing ent false backDone err, .copied .front err' =>
      some ({ conn with
        phase := .plumbing ent true backDone (err.or err')
        frontClosed := true }, active)
  | .plumbing ent frontDone false err, .copied .back err' =>
      some ({ conn with
        phase := .plumbing ent frontDone true (err.or err')
        backClosed := some true }, active)
  | .plumbing ent true true err, .wait => some (conn.goTo (.leaving ent err), active)
  | .leaving ent err, .leave => some (conn.goTo (.returned err), active.modify ent (· - 1))
  | _, _ => none

/-! ## The balancer -/

structure State where
  backends : List (GoString × Nat)
  /-- Numbers of 64 bits in the source; each is at most the number of connections. -/
  active : List Int
  conns : List Conn

def newStreamBalancer : State := ⟨[], [], []⟩

inductive Event where
  | addBackend (k : GoString)
  | removeBackend (k : GoString)
  | accept
  | conn (c : Nat) (event : ConnEvent)

def Phase.isPicking : Phase → Bool
  | .picking _ _ => true
  | _ => false

/-- Someone holds the lock for reading. -/
def State.locked (s : State) : Bool := s.conns.any fun conn => conn.phase.isPicking

/-- The observation is the error that a call returns. -/
def step (s : State) : Event → Option (State × Option String)
  | .addBackend k =>
      if s.locked then none
      else if s.backends.any fun b => b.1 == k then some (s, some "backend already exists")
      else
        some ({ s with
          backends := s.backends ++ [(k, s.active.length)]
          active := s.active ++ [0] }, none)
  | .removeBackend k =>
      if s.locked then none
      else if !s.backends.any fun b => b.1 == k then some (s, some "backend does not exist")
      else some ({ s with backends := s.backends.filter fun b => b.1 != k }, none)
  | .accept => some ({ s with conns := s.conns ++ [⟨.accepted, false, none⟩] }, none)
  | .conn c event =>
      match s.conns[c]? with
      | none => none
      | some conn =>
          match connStep s.backends s.active conn event with
          | none => none
          | some (conn', active) =>
              some ({ s with active := active, conns := s.conns.set c conn' }, none)

/-! ## What one step does -/

/-- The entry at which a connection is counted. -/
def Phase.counting : Phase → Option Nat
  | .counted ent => some ent
  | .plumbing ent _ _ _ => some ent
  | .leaving ent _ => some ent
  | _ => none

def Phase.entries : Phase → List Nat
  | .picking todo best => todo ++ (best.map Prod.fst).toList
  | .picked ent => [ent]
  | .counted ent => [ent]
  | .plumbing ent _ _ _ => [ent]
  | .leaving ent _ => [ent]
  | _ => []

/-- Both sides are closed, or there is only the frontend connection and it is open. -/
def Conn.Settled (conn : Conn) : Prop :=
  conn.backClosed = none ∧ conn.frontClosed = false ∨
    conn.backClosed = some true ∧ conn.frontClosed = true

def Conn.Sound (conn : Conn) : Prop :=
  match conn.phase with
  | .plumbing _ frontDone backDone _ =>
      conn.backClosed = some backDone ∧ conn.frontClosed = frontDone
  | .leaving _ _ => conn.Settled
  | .returned _ => conn.Settled
  | _ => conn.backClosed = none ∧ conn.frontClosed = false

/-- The counters change only where the connection enters or leaves an entry. -/
inductive Move (active : List Int) (conn conn' : Conn) : List Int → Prop where
  | stays (h : conn'.phase.counting = conn.phase.counting) : Move active conn conn' active
  | enters (ent : Nat) (h : conn.phase.counting = none) (h' : conn'.phase.counting = some ent) :
      Move active conn conn' (active.modify ent (· + 1))
  | leaves (ent : Nat) (h : conn.phase.counting = some ent) (h' : conn'.phase.counting = none) :
      Move active conn conn' (active.modify ent (· - 1))

theorem fst_better (best : Option (Nat × Int)) (ent : Nat) (active : Int) :
    ∀ e ∈ ((better best ent active).map Prod.fst).toList,
      e = ent ∨ e ∈ (best.map Prod.fst).toList := by
  cases best with
  | none => simp [better]
  | some entry =>
      obtain ⟨best, minActive⟩ := entry
      by_cases h : active < minActive
      · simp [better, h]
      · simp [better, h]

variable {backends : List (GoString × Nat)} {active active' : List Int} {conn conn' : Conn}
  {event : ConnEvent}

theorem connStep_eq_some (h : connStep backends active conn event = some (conn', active')) :
    Move active conn conn' active' ∧ (conn.Sound → conn'.Sound) ∧
      ∀ ent ∈ conn'.phase.entries, ent ∈ conn.phase.entries ∨ ent ∈ backends.map Prod.snd := by
  obtain ⟨phase, frontClosed, backClosed⟩ := conn
  unfold connStep at h
  split at h
  · next order hphase =>
      cases hphase
      split at h
      · cases h
        exact ⟨.stays rfl, Or.inl, by simp [Conn.goTo, Phase.entries]⟩
      · split at h
        · next hperm =>
            cases h
            refine ⟨.stays rfl, id, fun ent hent => Or.inr ?_⟩
            have horder : ent ∈ order := by simpa [Conn.goTo, Phase.entries] using hent
            exact (List.isPerm_iff.1 hperm).mem_iff.1 horder
        · cases h
  · next ent todo best hphase =>
      cases hphase
      obtain ⟨n, -, hn⟩ := Option.map_eq_some_iff.1 h
      cases hn
      refine ⟨.stays rfl, id, fun e he => Or.inl ?_⟩
      rcases List.mem_append.1 he with he | he
      · simp [Phase.entries, he]
      · rcases fst_better best ent n e he with rfl | he
        · simp [Phase.entries]
        · exact List.mem_append_right _ he
  · next ent _ hphase =>
      cases hphase
      cases h
      exact ⟨.stays rfl, id, fun e he => Or.inl he⟩
  · next ent hphase =>
      cases hphase
      cases h
      exact ⟨.enters ent rfl rfl, id, fun e he => Or.inl he⟩
  · next ent err hphase =>
      cases hphase
      cases h
      exact ⟨.stays rfl, Or.inl, fun e he => Or.inl he⟩
  · next ent hphase =>
      cases hphase
      cases h
      exact ⟨.stays rfl, fun hsound => ⟨rfl, hsound.2⟩, fun e he => Or.inl he⟩
  · next ent backDone err err' hphase =>
      cases hphase
      cases h
      exact ⟨.stays rfl, fun hsound => ⟨hsound.1, rfl⟩, fun e he => Or.inl he⟩
  · next ent frontDone err err' hphase =>
      cases hphase
      cases h
      exact ⟨.stays rfl, fun hsound => ⟨rfl, hsound.2⟩, fun e he => Or.inl he⟩
  · next ent err hphase =>
      cases hphase
      cases h
      exact ⟨.stays rfl, Or.inr, fun e he => Or.inl he⟩
  · next ent err hphase =>
      cases hphase
      cases h
      refine ⟨.leaves ent rfl rfl, id, by simp [Conn.goTo, Phase.entries]⟩
  · cases h

def ConnEvent.opens : ConnEvent → Bool
  | .openBackend (.ok ()) => true
  | _ => false

theorem isSome_backClosed_of_connStep
    (h : connStep backends active conn event = some (conn', active')) (hsound : conn.Sound) :
    conn'.backClosed.isSome = true ↔ conn.backClosed.isSome = true ∨ event.opens = true := by
  obtain ⟨phase, frontClosed, backClosed⟩ := conn
  unfold connStep at h
  split at h
  · split at h
    · cases h
      simp [Conn.goTo, ConnEvent.opens]
    · split at h
      · cases h
        simp [Conn.goTo, ConnEvent.opens]
      · cases h
  · obtain ⟨n, -, hn⟩ := Option.map_eq_some_iff.1 h
    cases hn
    simp [Conn.goTo, ConnEvent.opens]
  · cases h
    simp [Conn.goTo, ConnEvent.opens]
  · cases h
    simp [Conn.goTo, ConnEvent.opens]
  · cases h
    simp [Conn.goTo, ConnEvent.opens]
  · cases h
    simp [ConnEvent.opens]
  · cases h
    simp [ConnEvent.opens]
  · next hphase =>
      -- the backend connection that is closed was opened before
      cases hphase
      cases h
      obtain ⟨rfl, -⟩ : backClosed = some false ∧ _ := hsound
      simp
  · cases h
    simp [Conn.goTo, ConnEvent.opens]
  · cases h
    simp [Conn.goTo, ConnEvent.opens]
  · cases h

/-! ## What every run keeps -/

def countsAt (ent : Nat) (conn : Conn) : Bool := conn.phase.counting == some ent

/-- Every counter is the number of connections that are counted there. -/
def State.Counts (s : State) : Prop :=
  ∀ (ent : Nat) (n : Int), s.active[ent]? = some n → n = s.conns.countP (countsAt ent)

theorem State.Counts.bounds {s : State} (h : s.Counts) (ent : Nat) :
    0 ≤ s.active.getD ent 0 ∧ s.active.getD ent 0 ≤ s.conns.length := by
  rw [List.getD_eq_getElem?_getD]
  cases hn : s.active[ent]? with
  | none => simp
  | some n =>
      have hle := List.countP_le_length (p := countsAt ent) (l := s.conns)
      rw [Option.getD_some, h ent n hn]
      omega

theorem Phase.mem_entries {phase : Phase} {ent : Nat} (h : phase.counting = some ent) :
    ent ∈ phase.entries := by
  cases phase <;> simp_all [Phase.counting, Phase.entries]

theorem Move.length (h : Move active conn conn' active') : active'.length = active.length := by
  cases h with
  | stays _ => rfl
  | enters ent _ _ => exact List.length_modify ..
  | leaves ent _ _ => exact List.length_modify ..

theorem countP_set_of_getElem? {conns : List Conn} {c : Nat} (hconn : conns[c]? = some conn)
    (ent : Nat) :
    ((conns.set c conn').countP (countsAt ent) : Int) =
      conns.countP (countsAt ent) - (if countsAt ent conn then 1 else 0) +
        if countsAt ent conn' then 1 else 0 := by
  obtain ⟨hc, rfl⟩ := List.getElem?_eq_some_iff.1 hconn
  rw [List.countP_set hc]
  by_cases hcounts : countsAt ent conns[c] = true
  · have hpos : 0 < conns.countP (countsAt ent) :=
      List.countP_pos_iff.2 ⟨conns[c], List.getElem_mem hc, hcounts⟩
    simp only [if_pos hcounts]
    split <;> omega
  · simp only [if_neg hcounts]
    split <;> omega

theorem State.Counts.move {s : State} (h : s.Counts) {c : Nat} (hconn : s.conns[c]? = some conn)
    (hmove : Move s.active conn conn' active') :
    State.Counts { s with active := active', conns := s.conns.set c conn' } := by
  intro ent n hn
  rw [countP_set_of_getElem? hconn]
  cases hmove with
  | stays hsame =>
      have hcounts : countsAt ent conn' = countsAt ent conn := by rw [countsAt, countsAt, hsame]
      rw [hcounts, h ent n hn]
      exact (Int.sub_add_cancel _ _).symm
  | enters entered hbefore hafter =>
      simp only [List.getElem?_modify, Option.map_eq_map, Option.map_eq_some_iff] at hn
      obtain ⟨m, hm, rfl⟩ := hn
      have hcount := h ent m hm
      by_cases hent : entered = ent
      · simp [countsAt, hbefore, hafter, hent, hcount]
      · simp [countsAt, hbefore, hafter, hent, hcount]
  | leaves left hbefore hafter =>
      simp only [List.getElem?_modify, Option.map_eq_map, Option.map_eq_some_iff] at hn
      obtain ⟨m, hm, rfl⟩ := hn
      have hcount := h ent m hm
      by_cases hent : left = ent
      · simp [countsAt, hbefore, hafter, hent, hcount]
      · simp [countsAt, hbefore, hafter, hent, hcount]

structure Inv (s : State) : Prop where
  sound : ∀ conn ∈ s.conns, conn.Sound
  known : ∀ conn ∈ s.conns, ∀ ent ∈ conn.phase.entries, ent < s.active.length
  backends : ∀ ent ∈ s.backends.map Prod.snd, ent < s.active.length
  counts : s.Counts

theorem inv_newStreamBalancer : Inv newStreamBalancer := by
  constructor <;> simp [newStreamBalancer, State.Counts]

namespace Inv

variable {s : State}

theorem addBackend (h : Inv s) (k : GoString) :
    Inv { s with
      backends := s.backends ++ [(k, s.active.length)]
      active := s.active ++ [0] } where
  sound := h.sound
  known := by
    intro conn hconn ent hent
    rw [List.length_append]
    exact Nat.lt_add_right _ (h.known conn hconn ent hent)
  backends := by
    intro ent hent
    rw [List.map_append, List.mem_append] at hent
    rw [List.length_append, List.length_singleton]
    rcases hent with hent | hent
    · exact Nat.lt_succ_of_lt (h.backends ent hent)
    · rw [List.mem_singleton.1 hent]
      exact Nat.lt_succ_self _
  counts := by
    intro ent n hn
    rcases getElem?_concat_cases hn with hold | ⟨rfl, rfl⟩
    · exact h.counts ent n hold
    · -- nobody can be counted at an entry that did not exist
      have hzero : s.conns.countP (countsAt s.active.length) = 0 := by
        rw [List.countP_eq_zero]
        intro conn hconn hcounts
        have hent := Phase.mem_entries (beq_iff_eq.1 hcounts)
        exact Nat.lt_irrefl _ (h.known conn hconn _ hent)
      rw [hzero]
      rfl

theorem removeBackend (h : Inv s) (k : GoString) :
    Inv { s with backends := s.backends.filter fun b => b.1 != k } where
  sound := h.sound
  known := h.known
  backends := by
    intro ent hent
    obtain ⟨b, hb, rfl⟩ := List.mem_map.1 hent
    exact h.backends b.2 (List.mem_map_of_mem (List.mem_of_mem_filter hb))
  counts := h.counts

theorem accept (h : Inv s) : Inv { s with conns := s.conns ++ [⟨.accepted, false, none⟩] } where
  sound := by
    intro conn hconn
    rcases List.mem_append.1 hconn with hconn | hconn
    · exact h.sound conn hconn
    · rw [List.mem_singleton.1 hconn]
      exact ⟨rfl, rfl⟩
  known := by
    intro conn hconn
    rcases List.mem_append.1 hconn with hconn | hconn
    · exact h.known conn hconn
    · rw [List.mem_singleton.1 hconn]
      simp [Phase.entries]
  backends := h.backends
  counts := by
    intro ent n hn
    rw [h.counts ent n hn, List.countP_append]
    rfl

theorem connection (h : Inv s) {c : Nat} {conn conn' : Conn} (hconn : s.conns[c]? = some conn)
    {event : ConnEvent} {active : List Int}
    (hstep : connStep s.backends s.active conn event = some (conn', active)) :
    Inv { s with active := active, conns := s.conns.set c conn' } := by
  obtain ⟨hmove, hsound, hentries⟩ := connStep_eq_some hstep
  have hmem := List.mem_of_getElem? hconn
  refine ⟨?_, ?_, ?_, h.counts.move hconn hmove⟩
  · intro other hother
    rcases List.mem_or_eq_of_mem_set hother with hother | rfl
    · exact h.sound other hother
    · exact hsound (h.sound conn hmem)
  · intro other hother ent hent
    rw [hmove.length]
    rcases List.mem_or_eq_of_mem_set hother with hother | rfl
    · exact h.known other hother ent hent
    · rcases hentries ent hent with hent | hent
      · exact h.known conn hmem ent hent
      · exact h.backends ent hent
  · intro ent hent
    rw [hmove.length]
    exact h.backends ent hent

theorem step {s' : State} {event : Event} {err : Option String} (h : Inv s)
    (hstep : step s event = some (s', err)) : Inv s' := by
  cases event with
  | addBackend k =>
      rw [Balancer.step] at hstep
      split at hstep
      · cases hstep
      · split at hstep
        · cases hstep
          exact h
        · cases hstep
          exact h.addBackend k
  | removeBackend k =>
      rw [Balancer.step] at hstep
      split at hstep
      · cases hstep
      · split at hstep
        · cases hstep
          exact h
        · cases hstep
          exact h.removeBackend k
  | accept =>
      cases hstep
      exact h.accept
  | conn c event =>
      rw [Balancer.step] at hstep
      split at hstep
      · cases hstep
      · next conn hconn =>
          split at hstep
          · cases hstep
          · next conn' active hstep' =>
              cases hstep
              exact h.connection hconn hstep'

end Inv

/-! ## Connections that have returned -/

/-- A backend was picked for the connection, and `Open` has returned a connection to it. -/
def Opened (trace : List (Event × Option String)) (c : Nat) : Prop :=
  ∃ err, (Event.conn c (.openBackend (.ok ())), err) ∈ trace

def Event.opensFor (c : Nat) : Event → Bool
  | .conn other event => decide (other = c) && event.opens
  | _ => false

theorem opened_concat {trace : List (Event × Option String)} {event : Event}
    {err : Option String} {c : Nat} :
    Opened (trace ++ [(event, err)]) c ↔ Opened trace c ∨ event.opensFor c = true := by
  have hnew : (∃ e, (Event.conn c (.openBackend (.ok ())), e) = (event, err)) ↔
      event.opensFor c = true := by
    constructor
    · rintro ⟨e, h⟩
      cases h
      simp [Event.opensFor, ConnEvent.opens]
    · intro h
      unfold Event.opensFor at h
      split at h
      · next other conn =>
          rw [Bool.and_eq_true, decide_eq_true_eq] at h
          obtain ⟨rfl, hopens⟩ := h
          unfold ConnEvent.opens at hopens
          split at hopens
          · exact ⟨err, rfl⟩
          · cases hopens
      · cases h
  simp only [Opened, List.mem_append, List.mem_singleton, exists_or, hnew]

/-- What is known of the backend connections from the trace. -/
structure Backed (trace : List (Event × Option String)) (s : State) : Prop where
  conns : ∀ c conn, s.conns[c]? = some conn → (conn.backClosed.isSome = true ↔ Opened trace c)
  unused : ∀ c, s.conns.length ≤ c → ¬ Opened trace c

theorem Backed.quiet {trace : List (Event × Option String)} {s s' : State} {event : Event}
    {err : Option String} (h : Backed trace s) (hconns : s'.conns = s.conns)
    (hevent : ∀ c, event.opensFor c = false) : Backed (trace ++ [(event, err)]) s' where
  conns c conn hconn := by
    rw [hconns] at hconn
    simpa [opened_concat, hevent c] using h.conns c conn hconn
  unused c hc := by
    rw [hconns] at hc
    simpa [opened_concat, hevent c] using h.unused c hc

theorem Backed.accept {trace : List (Event × Option String)} {s : State} {err : Option String}
    (h : Backed trace s) :
    Backed (trace ++ [(.accept, err)])
      { s with conns := s.conns ++ [⟨.accepted, false, none⟩] } where
  conns c conn hconn := by
    rcases getElem?_concat_cases hconn with hold | ⟨rfl, rfl⟩
    · simpa [opened_concat, Event.opensFor] using h.conns c conn hold
    · simpa [opened_concat, Event.opensFor] using h.unused _ (Nat.le_refl _)
  unused c hc := by
    rw [List.length_append] at hc
    simpa [opened_concat, Event.opensFor] using h.unused c (by omega)

theorem Backed.connection {trace : List (Event × Option String)} {s : State}
    {err : Option String} (h : Backed trace s) {c : Nat} {conn conn' : Conn} {event : ConnEvent}
    {active : List Int} (hconn : s.conns[c]? = some conn) (hsound : conn.Sound)
    (hstep : connStep s.backends s.active conn event = some (conn', active)) :
    Backed (trace ++ [(.conn c event, err)])
      { s with active := active, conns := s.conns.set c conn' } where
  conns other found hfound := by
    rcases eq_or_ne c other with rfl | hne
    · rw [List.getElem?_set_self (List.getElem?_eq_some_iff.1 hconn).1] at hfound
      cases hfound
      rw [isSome_backClosed_of_connStep hstep hsound, h.conns c conn hconn, opened_concat]
      simp [Event.opensFor]
    · rw [List.getElem?_set_ne hne] at hfound
      simpa [opened_concat, Event.opensFor, hne] using h.conns other found hfound
  unused other hother := by
    rw [List.length_set] at hother
    have hne : c ≠ other := by
      have := (List.getElem?_eq_some_iff.1 hconn).1
      omega
    simpa [opened_concat, Event.opensFor, hne] using h.unused other hother

theorem Backed.step {trace : List (Event × Option String)} {s s' : State} {event : Event}
    {err : Option String} (h : Backed trace s) (hinv : Inv s)
    (hstep : step s event = some (s', err)) : Backed (trace ++ [(event, err)]) s' := by
  cases event with
  | addBackend k =>
      rw [Balancer.step] at hstep
      split at hstep
      · cases hstep
      · split at hstep <;> cases hstep <;> exact h.quiet rfl fun _ => rfl
  | removeBackend k =>
      rw [Balancer.step] at hstep
      split at hstep
      · cases hstep
      · split at hstep <;> cases hstep <;> exact h.quiet rfl fun _ => rfl
  | accept =>
      cases hstep
      exact h.accept
  | conn c event =>
      rw [Balancer.step] at hstep
      split at hstep
      · cases hstep
      · next conn hconn =>
          split at hstep
          · cases hstep
          · next conn' active hstep' =>
              cases hstep
              exact h.connection hconn (hinv.sound conn (List.mem_of_getElem? hconn)) hstep'

/-- Everything a connection held is given back. -/
def Released (s : State) (conn : Conn) : Prop :=
  conn.frontClosed = true ∧ conn.backClosed ≠ some false ∧
    conn.phase.counting = none ∧ s.Counts

/--
Whatever happens, a connection that has returned is not counted any more and leaves no backend
connection open.  Its frontend connection is closed exactly if its `openBackend` succeeded.
-/
theorem returned_released_iff {trace : List (Event × Option String)} {s : State}
    (run : Runs step anyEvent newStreamBalancer trace s) {c : Nat} {conn : Conn}
    (hconn : s.conns[c]? = some conn) {err : Option String} (hphase : conn.phase = .returned err) :
    (conn.backClosed ≠ some false ∧ conn.phase.counting = none ∧ s.Counts) ∧
      (Released s conn ↔ Opened trace c) := by
  obtain ⟨hbacked, hinv⟩ : Backed trace s ∧ Inv s := by
    refine run.history (motive := fun trace s => Backed trace s ∧ Inv s) ?_ ?_
    · exact ⟨⟨by simp [newStreamBalancer], by simp [Opened]⟩, inv_newStreamBalancer⟩
    · rintro trace s event s' err - ⟨hbacked, hinv⟩ - hstep
      exact ⟨hbacked.step hinv hstep, hinv.step hstep⟩
  have hcounting : conn.phase.counting = none := by
    rw [hphase]
    rfl
  have hsettled : conn.Settled := by
    have hsound := hinv.sound conn (List.mem_of_getElem? hconn)
    rwa [Conn.Sound, hphase] at hsound
  rw [← hbacked.conns c conn hconn]
  rcases hsettled with ⟨hback, hfront⟩ | ⟨hback, hfront⟩
  · simp [Released, hback, hfront, hcounting, hinv.counts]
  · simp [Released, hback, hfront, hcounting, hinv.counts]

/-! ### Connections that end -/

/-- A connection that is served to its end. -/
def serveEvents (c : Nat) : List Event :=
  [.conn c (.pick [0]), .conn c .load, .conn c .endPick, .conn c .add,
   .conn c (.openBackend (.ok ())), .conn c (.copied .back none),
   .conn c (.copied .front (some "reset")), .conn c .wait, .conn c .leave]

theorem returned_released_served :
    ∃ trace s, Runs step anyEvent newStreamBalancer trace s ∧ ∃ conn, s.conns[0]? = some conn ∧
      (conn.backClosed ≠ some false ∧ conn.phase.counting = none ∧ s.Counts) ∧
      (Released s conn ↔ Opened trace 0) := by
  have hreplay : (replay step anyEvent newStreamBalancer
      (.addBackend [107] :: .accept :: serveEvents 0)).map (fun r => r.1.conns) =
        some [⟨.returned (some "reset"), true, some true⟩] := by decide
  obtain ⟨trace, s, -, run, hconns⟩ := exists_run_of_map hreplay
  have hconn : s.conns[0]? = some ⟨.returned (some "reset"), true, some true⟩ := by
    rw [hconns]
    rfl
  exact ⟨trace, s, run, _, hconn, returned_released_iff run hconn rfl⟩

theorem exists_unreleased {events : List Event} {conn : Conn}
    (hreplay : (replay step anyEvent newStreamBalancer events).map (fun r => r.1.conns) =
      some [conn]) (hopen : conn.frontClosed = false) :
    ∃ trace s, trace.map Prod.fst = events ∧ Runs step anyEvent newStreamBalancer trace s ∧
      s.conns = [conn] ∧ ¬ Released s conn := by
  obtain ⟨trace, s, htrace, run, hconns⟩ := exists_run_of_map hreplay
  exact ⟨trace, s, htrace, run, hconns, fun h => absurd h.1 (by simp [hopen])⟩

/-- Without a backend, and with one that cannot be opened, the frontend connection is left open. -/
theorem frontend_left_open :
    (∃ trace s, trace.map Prod.fst = [.accept, .conn 0 (.pick [])] ∧
      Runs step anyEvent newStreamBalancer trace s ∧
      s.conns = [⟨.returned (some "no backends available"), false, none⟩] ∧
      ¬ Released s ⟨.returned (some "no backends available"), false, none⟩) ∧
    ∃ trace s, trace.map Prod.fst =
        [.addBackend [107], .accept, .conn 0 (.pick [0]), .conn 0 .load, .conn 0 .endPick,
         .conn 0 .add, .conn 0 (.openBackend (.error "refused")), .conn 0 .leave] ∧
      Runs step anyEvent newStreamBalancer trace s ∧
      s.conns = [⟨.returned (some "could not connect to backend refused"), false, none⟩] ∧
      ¬ Released s ⟨.returned (some "could not connect to backend refused"), false, none⟩ :=
  ⟨exists_unreleased (by decide) rfl, exists_unreleased (by decide) rfl⟩

end Inet256.Balancer
