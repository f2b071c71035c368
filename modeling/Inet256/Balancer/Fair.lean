import Inet256.Balancer.Stream
import Inet256.Foundation.Level

/-!
# Even load

Connections read the counters of the backends without stopping the others, so a
connection may be counted at a backend that is no longer the least loaded one.
While connections only come, this costs one connection for each that is choosing
at the same time, and no more.
-/

namespace Inet256.Balancer

open Inet256.Foundation

def State.count (s : State) (ent : Nat) : Int := s.active.getD ent 0

/-- The counters of all backends at one moment. -/
def State.activeCounts (s : State) : List (GoString × Int) :=
  s.backends.map fun b => (b.1, s.count b.2)

def Phase.isChoosing : Phase → Bool
  | .picking _ _ => true
  | .picked _ => true
  | _ => false

def Conn.isChoosing (conn : Conn) : Bool := conn.phase.isChoosing

def State.choosing (s : State) : Nat := s.conns.countP Conn.isChoosing

/-- The backends are fixed before the first connection, none ends, and few choose at a time. -/
def filling (limit : Nat) (s : State) : Event → Prop
  | .addBackend _ => s.conns = []
  | .removeBackend _ => s.conns = []
  | .accept => True
  | .conn _ (.pick _) => s.choosing < limit
  | .conn _ .leave => False
  | .conn _ _ => True

instance (limit : Nat) (s : State) (event : Event) : Decidable (filling limit s event) := by
  unfold filling
  split <;> infer_instance

/-! ## What a connection has read -/

/-- Every backend is still to be read, or showed no less than the reading. -/
def Covers (backends : List (GoString × Nat)) (active : List Int) (todo : List Nat)
    (reading : Option (Nat × Int)) : Prop :=
  ∀ b ∈ backends, b.2 ∈ todo ∨ ∃ ent n, reading = some (ent, n) ∧ n ≤ active.getD b.2 0

/-- The reading with which a connection chooses. -/
def Chooses (backends : List (GoString × Nat)) (active : List Int) :
    Phase → Option (Nat × Int) → Prop
  | .picking todo best, reading => reading = best ∧ Covers backends active todo best
  | .picked ent, reading =>
      (∃ n, reading = some (ent, n)) ∧ Covers backends active [] reading
  | _, reading => reading = none

variable {backends : List (GoString × Nat)} {active active' : List Int} {conn conn' : Conn}
  {event : ConnEvent} {todo : List Nat} {reading : Option (Nat × Int)} {phase : Phase}

theorem Covers.mono (h : Covers backends active todo reading)
    (hmono : ∀ ent : Nat, active.getD ent 0 ≤ active'.getD ent 0) :
    Covers backends active' todo reading := by
  intro b hb
  rcases h b hb with htodo | ⟨ent, n, hreading, hn⟩
  · exact Or.inl htodo
  · exact Or.inr ⟨ent, n, hreading, hn.trans (hmono b.2)⟩

theorem Chooses.mono (h : Chooses backends active phase reading)
    (hmono : ∀ ent : Nat, active.getD ent 0 ≤ active'.getD ent 0) :
    Chooses backends active' phase reading := by
  cases phase with
  | picking todo best => exact ⟨h.1, h.2.mono hmono⟩
  | picked ent => exact ⟨h.1, h.2.mono hmono⟩
  | _ => exact h

theorem Chooses.isChoosing (h : Chooses backends active phase reading)
    (hsome : reading.isSome = true) : phase.isChoosing = true := by
  cases phase with
  | picking todo best => rfl
  | picked ent => rfl
  | _ =>
      rw [show reading = none from h] at hsome
      cases hsome

/-- One round of the loop keeps the lesser of what is kept and what is read. -/
theorem better_cases (best : Option (Nat × Int)) (ent : Nat) (n : Int) :
    (better best ent n = some (ent, n) ∧ ∀ least ∈ best, n ≤ least.2) ∨
      (better best ent n = best ∧ ∃ least ∈ best, least.2 ≤ n) := by
  cases best with
  | none => exact Or.inl ⟨rfl, by simp⟩
  | some least =>
      unfold better
      dsimp only
      split
      · next hless => exact Or.inl ⟨rfl, by rintro _ ⟨⟩; exact hless.le⟩
      · next hless => exact Or.inr ⟨rfl, least, rfl, by omega⟩

theorem Covers.load {ent : Nat} {n : Int} {best : Option (Nat × Int)}
    (h : Covers backends active (ent :: todo) best) (hn : active.getD ent 0 = n) :
    Covers backends active todo (better best ent n) := by
  intro b hb
  rcases better_cases best ent n with ⟨hnew, hleast⟩ | ⟨hold, ⟨kept, least⟩, hbest, hle⟩
  · rcases h b hb with htodo | ⟨kept, least, rfl, hshown⟩
    · rcases List.mem_cons.mp htodo with hent | htodo
      · exact Or.inr ⟨ent, n, hnew, by rw [hent, hn]⟩
      · exact Or.inl htodo
    · exact Or.inr ⟨ent, n, hnew, (hleast _ rfl).trans hshown⟩
  · rw [hold]
    rcases h b hb with htodo | hshown
    · rcases List.mem_cons.mp htodo with hent | htodo
      · exact Or.inr ⟨kept, least, hbest, by rw [hent, hn]; exact hle⟩
      · exact Or.inl htodo
    · exact Or.inr hshown

/-- What a step of a connection does to its reading and to the counters. -/
inductive Rereads (backends : List (GoString × Nat)) (active : List Int)
    (reading : Option (Nat × Int)) : Option (Nat × Int) → List Int → Prop where
  | keeps : Rereads backends active reading reading active
  | reads (ent : Nat) : Rereads backends active reading (some (ent, active.getD ent 0)) active
  | enters {ent : Nat} {n : Int} (chosen : reading = some (ent, n))
      (known : ent < active.length) (least : ∀ b ∈ backends, n ≤ active.getD b.2 0) :
      Rereads backends active reading none (active.modify ent (· + 1))

theorem rereads_of_connStep (h : connStep backends active conn event = some (conn', active'))
    (hleave : event ≠ .leave) (hknown : ∀ ent ∈ conn.phase.entries, ent < active.length)
    (hchooses : Chooses backends active conn.phase reading) :
    ∃ reading', Rereads backends active reading reading' active' ∧
      Chooses backends active' conn'.phase reading' := by
  obtain ⟨phase, frontClosed, backClosed⟩ := conn
  unfold connStep at h
  split at h
  · next order hphase =>
      cases hphase
      obtain rfl : reading = none := hchooses
      split at h
      · cases h
        exact ⟨none, .keeps, rfl⟩
      · split at h
        · next hperm =>
            cases h
            refine ⟨none, .keeps, rfl, fun b hb => Or.inl ?_⟩
            exact (List.isPerm_iff.1 hperm).mem_iff.2 (List.mem_map_of_mem hb)
        · cases h
  · next ent todo best hphase =>
      cases hphase
      obtain ⟨rfl, hcovers⟩ := hchooses
      obtain ⟨n, hn, h⟩ := Option.map_eq_some_iff.1 h
      cases h
      have hshown : active.getD ent 0 = n := by rw [List.getD_eq_getElem?_getD, hn]; rfl
      refine ⟨better reading ent n, ?_, rfl, hcovers.load hshown⟩
      rcases better_cases reading ent n with ⟨hnew, -⟩ | ⟨hold, -⟩
      · rw [hnew, ← hshown]
        exact .reads ent
      · rw [hold]
        exact .keeps
  · next ent n hphase =>
      cases hphase
      cases h
      obtain ⟨rfl, hcovers⟩ := hchooses
      exact ⟨_, .keeps, ⟨n, rfl⟩, hcovers⟩
  · next ent hphase =>
      cases hphase
      cases h
      obtain ⟨⟨n, rfl⟩, hcovers⟩ := hchooses
      refine ⟨none, .enters rfl (hknown ent (by simp [Phase.entries])) fun b hb => ?_, rfl⟩
      rcases hcovers b hb with htodo | ⟨ent, n, hreading, hn⟩
      · cases htodo
      · cases hreading
        exact hn
  · next hphase =>
      cases hphase
      cases h
      exact ⟨_, .keeps, hchooses⟩
  · next hphase =>
      cases hphase
      cases h
      exact ⟨_, .keeps, hchooses⟩
  · next hphase =>
      cases hphase
      cases h
      exact ⟨_, .keeps, hchooses⟩
  · next hphase =>
      cases hphase
      cases h
      exact ⟨_, .keeps, hchooses⟩
  · next hphase =>
      cases hphase
      cases h
      exact ⟨_, .keeps, hchooses⟩
  · exact absurd rfl hleave
  · cases h

/-- Only a connection that picks begins to choose. -/
theorem isChoosing_of_connStep
    (h : connStep backends active conn event = some (conn', active'))
    (hpick : ∀ order, event ≠ .pick order) (hchoosing : conn'.phase.isChoosing = true) :
    conn.phase.isChoosing = true := by
  obtain ⟨phase, frontClosed, backClosed⟩ := conn
  unfold connStep at h
  split at h
  · exact absurd rfl (hpick _)
  · next hphase =>
      rw [hphase]
      rfl
  · next hphase =>
      rw [hphase]
      rfl
  · next hphase =>
      rw [hphase]
      rfl
  · cases h
    cases hchoosing
  · cases h
    cases hchoosing
  · cases h
    cases hchoosing
  · cases h
    cases hchoosing
  · cases h
    cases hchoosing
  · cases h
    cases hchoosing
  · cases h

/-! ## What every run keeps -/

variable {s : State} {limit : Nat} {readings : List (Conn × Option (Nat × Int))}

/-- Each connection with its reading. -/
structure Fair (limit : Nat) (s : State) (readings : List (Conn × Option (Nat × Int))) :
    Prop where
  conns : readings.map Prod.fst = s.conns
  chooses : ∀ entry ∈ readings, Chooses s.backends s.active entry.1.phase entry.2
  crowd : s.choosing ≤ limit
  level : Level limit (s.backends.map Prod.snd) s.count (readings.map Prod.snd)

theorem Fair.countP_isSome_le (fair : Fair limit s readings) :
    (readings.map Prod.snd).countP Option.isSome ≤ limit := by
  refine le_trans ?_ fair.crowd
  unfold State.choosing
  rw [← fair.conns, List.countP_map, List.countP_map]
  exact List.countP_mono_left fun entry hentry hsome =>
    (fair.chooses entry hentry).isChoosing hsome

theorem fair_of_conns_eq_nil (inv : Inv s) (hconns : s.conns = []) : Fair limit s [] where
  conns := hconns.symm
  chooses := by simp
  crowd := by simp [State.choosing, hconns]
  level := by
    refine .of_eq_zero fun ent => ?_
    unfold State.count
    rw [List.getD_eq_getElem?_getD]
    cases hn : s.active[ent]? with
    | none => rfl
    | some n =>
        have hcount := inv.counts ent n hn
        rw [hconns] at hcount
        exact hcount

theorem Fair.accept (fair : Fair limit s readings) :
    Fair limit { s with conns := s.conns ++ [⟨.accepted, false, none⟩] }
      (readings ++ [(⟨.accepted, false, none⟩, none)]) where
  conns := by
    rw [List.map_append, fair.conns]
    rfl
  chooses := by
    intro entry hentry
    rcases List.mem_append.mp hentry with hold | hnew
    · exact fair.chooses entry hold
    · rw [List.mem_singleton.mp hnew]
      rfl
  crowd := by
    have hcrowd := fair.crowd
    unfold State.choosing at hcrowd ⊢
    rw [List.countP_append]
    exact hcrowd
  level := by
    rw [List.map_append]
    exact fair.level.accept

theorem crowd_step {c : Nat} (hcrowd : s.choosing ≤ limit) (hconn : s.conns[c]? = some conn)
    (hfilling : filling limit s (.conn c event))
    (hstep : connStep s.backends s.active conn event = some (conn', active')) :
    State.choosing { s with active := active', conns := s.conns.set c conn' } ≤ limit := by
  by_cases hpick : ∃ order, event = .pick order
  · obtain ⟨order, rfl⟩ := hpick
    exact (countP_set_le_succ _ _ _ _).trans hfilling
  · have hold := isChoosing_of_connStep hstep fun order h => hpick ⟨order, h⟩
    exact (countP_set_le_of_imp hconn hold).trans hcrowd

theorem getD_modify {ent : Nat} (hent : ent < active.length) (e : Nat) :
    (active.modify ent (· + 1)).getD e 0 =
      Function.update (fun e => active.getD e 0) ent (active.getD ent 0 + 1) e := by
  rw [List.getD_eq_getElem?_getD, List.getElem?_modify]
  by_cases he : e = ent
  · subst he
    rw [Function.update_self, List.getD_eq_getElem?_getD, List.getElem?_eq_getElem hent]
    simp
  · rw [Function.update_of_ne he, List.getD_eq_getElem?_getD]
    simp [Ne.symm he]

theorem Rereads.mono {reading' : Option (Nat × Int)}
    (h : Rereads backends active reading reading' active') (e : Nat) :
    active.getD e 0 ≤ active'.getD e 0 := by
  cases h with
  | keeps => exact le_rfl
  | reads ent => exact le_rfl
  | @enters ent n _ known _ =>
      rw [getD_modify known]
      by_cases he : e = ent
      · subst he
        rw [Function.update_self]
        omega
      · rw [Function.update_of_ne he]

theorem Fair.connection (fair : Fair limit s readings) (inv : Inv s) {c : Nat}
    (hconn : s.conns[c]? = some conn) (hfilling : filling limit s (.conn c event))
    (hstep : connStep s.backends s.active conn event = some (conn', active')) :
    ∃ readings', Fair limit { s with active := active', conns := s.conns.set c conn' }
      readings' := by
  have hleave : event ≠ .leave := by
    rintro rfl
    exact hfilling
  obtain ⟨⟨_, reading⟩, hentry, rfl⟩ : ∃ entry, readings[c]? = some entry ∧ entry.1 = conn := by
    rw [← fair.conns, List.getElem?_map] at hconn
    exact Option.map_eq_some_iff.mp hconn
  have hchooses := fair.chooses _ (List.mem_of_getElem? hentry)
  have hknown := inv.known _ (List.mem_of_getElem? hconn)
  obtain ⟨reading', hrereads, hchooses'⟩ := rereads_of_connStep hstep hleave hknown hchooses
  refine ⟨readings.set c (conn', reading'), ?_, ?_, crowd_step fair.crowd hconn hfilling hstep,
    ?_⟩
  · rw [List.map_set, fair.conns]
  · intro entry hentry
    rcases List.mem_or_eq_of_mem_set hentry with hold | rfl
    · exact (fair.chooses entry hold).mono hrereads.mono
    · exact hchooses'
  · have hreading : (readings.map Prod.snd)[c]? = some reading := by
      rw [List.getElem?_map, hentry]
      rfl
    rw [List.map_set]
    cases hrereads with
    | keeps =>
        obtain ⟨hc, hget⟩ := List.getElem?_eq_some_iff.mp hreading
        rw [← hget, List.set_getElem_self]
        exact fair.level
    | reads ent => exact fair.level.read ent
    | @enters ent n chosen known least =>
        subst chosen
        have hcount : State.count { s with
            active := s.active.modify ent (· + 1), conns := s.conns.set c conn' } =
            Function.update s.count ent (s.count ent + 1) := funext (getD_modify known)
        rw [hcount]
        refine fair.level.enter hreading ?_ fair.countP_isSome_le
        intro f hf
        obtain ⟨b, hb, rfl⟩ := List.mem_map.mp hf
        exact least b hb

theorem Fair.step (fair : Fair limit s readings) (inv : Inv s) {event : Event} {s' : State}
    {err : Option String} (hfilling : filling limit s event)
    (hstep : step s event = some (s', err)) : ∃ readings', Fair limit s' readings' := by
  have inv' := inv.step hstep
  cases event with
  | addBackend k =>
      rw [Balancer.step] at hstep
      split at hstep
      · cases hstep
      · split at hstep
        · cases hstep
          exact ⟨readings, fair⟩
        · cases hstep
          exact ⟨[], fair_of_conns_eq_nil inv' hfilling⟩
  | removeBackend k =>
      rw [Balancer.step] at hstep
      split at hstep
      · cases hstep
      · split at hstep
        · cases hstep
          exact ⟨readings, fair⟩
        · cases hstep
          exact ⟨[], fair_of_conns_eq_nil inv' hfilling⟩
  | accept =>
      cases hstep
      exact ⟨_, fair.accept⟩
  | conn c event =>
      rw [Balancer.step] at hstep
      split at hstep
      · cases hstep
      · next conn hconn =>
          split at hstep
          · cases hstep
          · next conn' active hstep' =>
              cases hstep
              exact fair.connection inv hconn hfilling hstep'

/--
While connections only come, the counts of any two backends differ by no more
than the number of connections that choose at the same time.  No count passes the number of
connections, so that 64 bits are enough for it.
-/
theorem active_counts_level {trace : List (Event × Option String)}
    (run : Runs step (filling limit) newStreamBalancer trace s) {k k' : GoString} {n n' : Int}
    (hk : (k, n) ∈ s.activeCounts) (hk' : (k', n') ∈ s.activeCounts) :
    n ≤ n' + limit ∧ 0 ≤ n ∧ n ≤ s.conns.length := by
  have hinv : Inv s ∧ ∃ readings, Fair limit s readings := by
    refine run.invariant (motive := fun s => Inv s ∧ ∃ readings, Fair limit s readings) ?_ ?_
    · exact ⟨inv_newStreamBalancer, [], fair_of_conns_eq_nil inv_newStreamBalancer rfl⟩
    · rintro s event s' err ⟨inv, readings, fair⟩ hfilling hstep
      exact ⟨inv.step hstep, fair.step inv hfilling hstep⟩
  obtain ⟨inv, readings, fair⟩ := hinv
  obtain ⟨b, hb, hcount⟩ := List.mem_map.mp hk
  obtain ⟨b', hb', hcount'⟩ := List.mem_map.mp hk'
  obtain ⟨-, rfl⟩ := Prod.mk.inj hcount
  obtain ⟨-, rfl⟩ := Prod.mk.inj hcount'
  exact ⟨fair.level.le b.2 (List.mem_map_of_mem hb'), inv.counts.bounds b.2⟩

/-- Two connections choose at the same time and both take the first backend. -/
def sampleArrivals : List Event :=
  [.addBackend [97], .addBackend [98], .accept, .accept,
    .conn 0 (.pick [0, 1]), .conn 1 (.pick [0, 1]), .conn 0 .load, .conn 1 .load,
    .conn 0 .load, .conn 1 .load, .conn 0 .endPick, .conn 1 .endPick, .conn 0 .add, .conn 1 .add]

theorem active_counts_level_crowded :
    ∃ trace s, trace.map Prod.fst = sampleArrivals ∧
      Runs step (filling 2) newStreamBalancer trace s ∧
      s.activeCounts = [([97], 2), ([98], 0)] ∧
      (2 : Int) ≤ 0 + (2 : Nat) ∧ (0 : Int) ≤ 2 ∧ (2 : Int) ≤ s.conns.length := by
  have hreplay : (replay step (filling 2) newStreamBalancer sampleArrivals).map
      (fun result => result.1.activeCounts) = some [([97], 2), ([98], 0)] := by
    decide +kernel
  obtain ⟨trace, s, hevents, run, hcounts⟩ := exists_run_of_map hreplay
  have hfirst : ([97], 2) ∈ s.activeCounts := by simp [hcounts]
  have hsecond : ([98], 0) ∈ s.activeCounts := by simp [hcounts]
  exact ⟨trace, s, hevents, run, hcounts, active_counts_level run hfirst hsecond⟩

end Inet256.Balancer
