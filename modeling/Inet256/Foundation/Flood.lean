import Mathlib.Logic.Function.Basic
import Mathlib.Logic.Relation
import Mathlib.Data.Set.Insert
import Mathlib.Order.Basic
import Mathlib.Data.Fintype.Card

/-!
# Numbered announcements

An abstract flooding protocol.  Nodes announce destinations under sequence
numbers; a node that hears an announcement newer than its own route adopts the
teller as its next hop.  A node may repeat any announcement that is not newer
than its own route, and may invent announcements only for its own address.
Announcements are never withdrawn from the set of those that may still be
heard, which covers delay, loss, reordering and duplication at once.

The next hops towards a destination never form a cycle: along them the numbers
do not decrease, and where they stay equal the next hop adopted earlier.

An announcement spreads along the graph: as long as every neighbour of a node
that knows either knows as well or is being told, the only way for a node that
can be reached not to know is that somebody on the way to it is still being told.
-/

namespace Inet256.Foundation.Flood

variable {I A : Type}

structure Route (A : Type) where
  next : A
  number : Nat

structure News (A : Type) where
  teller : A
  dest : A
  number : Nat

structure State (I A : Type) where
  table : I → A → Option (Route A)
  news : Set (News A)

/-- The teller of an announcement is entitled to it in the given state. -/
def Entitled (addr : I → A) (s : State I A) (n : News A) : Prop :=
  n.teller = n.dest ∨
    ∃ i route, addr i = n.teller ∧ s.table i n.dest = some route ∧
      n.number ≤ route.number

section Adopt

variable [DecidableEq I] [DecidableEq A]

def setEntry {β : Type} (f : I → A → β) (i : I) (d : A) (value : β) : I → A → β :=
  Function.update f i (Function.update (f i) d value)

theorem setEntry_apply {β : Type} (f : I → A → β) (i j : I) (d e : A) (value : β) :
    setEntry f i d value j e = if j = i ∧ e = d then value else f j e := by
  by_cases hj : j = i
  · subst hj
    by_cases he : e = d
    · subst he
      simp [setEntry]
    · simp [setEntry, he]
  · simp [setEntry, hj]

def State.adopt (s : State I A) (i : I) (n : News A) : State I A where
  table := setEntry s.table i n.dest (some ⟨n.teller, n.number⟩)
  news := s.news

inductive Step (addr : I → A) (s : State I A) : State I A → Prop
  | tell (more : Set (News A)) (h : ∀ n ∈ more, Entitled addr s n) :
      Step addr s { s with news := s.news ∪ more }
  | adopt (i : I) (n : News A) (hnews : n ∈ s.news)
      (hnewer : ∀ route, s.table i n.dest = some route → route.number < n.number) :
      Step addr s (s.adopt i n)

theorem table_adopt (s : State I A) (i j : I) (n : News A) (d : A) :
    (s.adopt i n).table j d =
      if j = i ∧ d = n.dest then some ⟨n.teller, n.number⟩ else s.table j d :=
  setEntry_apply s.table i j n.dest d _

end Adopt

/-! ## The invariant -/

/--
The next hop's route is newer, or equally new and adopted earlier.  The ages
are ghost data: the time of each adoption.
-/
def Follows (addr : I → A) (s : State I A) (age : I → A → Nat) (i : I) (d : A)
    (route : Route A) : Prop :=
  ∃ j route', addr j = route.next ∧ s.table j d = some route' ∧
    (route.number < route'.number ∨
      route.number = route'.number ∧ age j d < age i d)

structure Ordered (addr : I → A) (clock : Nat) (age : I → A → Nat)
    (s : State I A) : Prop where
  age_le : ∀ i d, age i d ≤ clock
  entitled : ∀ n ∈ s.news, Entitled addr s n
  follows : ∀ i d route, s.table i d = some route →
    route.next = d ∨ Follows addr s age i d route

section Preservation

variable [DecidableEq I] [DecidableEq A] {addr : I → A} {s s' : State I A}
  {age : I → A → Nat} {clock : Nat} {i j : I} {n m : News A}

theorem Entitled.adopt
    (hnewer : ∀ route, s.table i n.dest = some route → route.number < n.number)
    (h : Entitled addr s m) : Entitled addr (s.adopt i n) m := by
  rcases h with hown | ⟨j, route, haddr, hroute, hle⟩
  · exact Or.inl hown
  · right
    by_cases hji : j = i ∧ m.dest = n.dest
    · obtain ⟨rfl, hdest⟩ := hji
      refine ⟨j, ⟨n.teller, n.number⟩, haddr, ?_, ?_⟩
      · rw [table_adopt, if_pos ⟨rfl, hdest⟩]
      · rw [hdest] at hroute
        exact hle.trans (hnewer route hroute).le
    · refine ⟨j, route, haddr, ?_, hle⟩
      rw [table_adopt, if_neg hji, hroute]

/-- Adoption at a new age keeps every other pair of hops in order. -/
theorem Follows.adopt {d : A} {route : Route A}
    (hnewer : ∀ route, s.table i n.dest = some route → route.number < n.number)
    (hother : ¬ (j = i ∧ d = n.dest)) (h : Follows addr s age j d route) :
    Follows addr (s.adopt i n) (setEntry age i n.dest (clock + 1)) j d route := by
  obtain ⟨k, route', haddr, hroute', horder⟩ := h
  by_cases hki : k = i ∧ d = n.dest
  · obtain ⟨rfl, rfl⟩ := hki
    refine ⟨k, ⟨n.teller, n.number⟩, haddr, ?_, Or.inl ?_⟩
    · rw [table_adopt, if_pos ⟨rfl, rfl⟩]
    · have hlt := hnewer route' hroute'
      dsimp only
      omega
  · refine ⟨k, route', haddr, ?_, ?_⟩
    · rw [table_adopt, if_neg hki, hroute']
    · rw [setEntry_apply, setEntry_apply, if_neg hother, if_neg hki]
      exact horder

theorem Ordered.adopt (ordered : Ordered addr clock age s) (hnews : n ∈ s.news)
    (hnewer : ∀ route, s.table i n.dest = some route → route.number < n.number) :
    Ordered addr (clock + 1) (setEntry age i n.dest (clock + 1)) (s.adopt i n) where
  age_le := by
    intro j d
    have hold := ordered.age_le j d
    rw [setEntry_apply]
    split <;> omega
  entitled := fun m hm => (ordered.entitled m hm).adopt hnewer
  follows := by
    intro j d route hroute
    by_cases hji : j = i ∧ d = n.dest
    · obtain ⟨rfl, rfl⟩ := hji
      rw [table_adopt, if_pos ⟨rfl, rfl⟩] at hroute
      cases hroute
      rcases ordered.entitled n hnews with hown | ⟨k, route', haddr, hroute', hle⟩
      · exact Or.inl hown
      · right
        -- the teller already had a route this new, so it is not the adopting node
        have hk : ¬ (k = j ∧ n.dest = n.dest) := by
          rintro ⟨rfl, -⟩
          exact absurd hle (not_le.mpr (hnewer route' hroute'))
        refine ⟨k, route', haddr, ?_, ?_⟩
        · rw [table_adopt, if_neg hk, hroute']
        · have hage := ordered.age_le k n.dest
          rw [setEntry_apply, setEntry_apply, if_neg hk, if_pos ⟨rfl, rfl⟩]
          dsimp only
          omega
    · rw [table_adopt, if_neg hji] at hroute
      rcases ordered.follows j d route hroute with hown | hfollows
      · exact Or.inl hown
      · exact Or.inr (hfollows.adopt hnewer hji)

theorem Ordered.step (ordered : Ordered addr clock age s) (hstep : Step addr s s') :
    ∃ clock' age', Ordered addr clock' age' s' := by
  cases hstep with
  | tell more h =>
      refine ⟨clock, age, ordered.age_le, ?_, ordered.follows⟩
      rintro n (hn | hn)
      · exact ordered.entitled n hn
      · exact h n hn
  | adopt i n hnews hnewer => exact ⟨_, _, ordered.adopt hnews hnewer⟩

theorem Ordered.steps (ordered : ∃ clock age, Ordered addr clock age s)
    (hsteps : Relation.ReflTransGen (Step addr) s s') :
    ∃ clock age, Ordered addr clock age s' := by
  induction hsteps with
  | refl => exact ordered
  | tail _ hstep ih =>
      obtain ⟨clock, age, hordered⟩ := ih
      exact hordered.step hstep

end Preservation

theorem ordered_empty (addr : I → A) (s : State I A) (htable : ∀ i d, s.table i d = none)
    (hnews : s.news = ∅) : ∃ clock age, Ordered addr clock age s := by
  refine ⟨0, fun _ _ => 0, fun _ _ => le_rfl, ?_, ?_⟩
  · intro n hn
    rw [hnews] at hn
    cases hn
  · intro i d route hroute
    rw [htable] at hroute
    cases hroute

/-! ## No cycles -/

def Hop (addr : I → A) (s : State I A) (d : A) (i j : I) : Prop :=
  ∃ route, s.table i d = some route ∧ route.next = addr j

def Before (s : State I A) (age : I → A → Nat) (d : A) (i j : I) : Prop :=
  ∃ route route', s.table i d = some route ∧ s.table j d = some route' ∧
    (route.number < route'.number ∨
      route.number = route'.number ∧ age j d < age i d)

theorem Before.trans {s : State I A} {age : I → A → Nat} {d : A} {i j k : I}
    (first : Before s age d i j) (second : Before s age d j k) : Before s age d i k := by
  obtain ⟨route, middle, hroute, hmiddle, hfirst⟩ := first
  obtain ⟨middle', route', hmiddle', hroute', hsecond⟩ := second
  rw [hmiddle] at hmiddle'
  cases hmiddle'
  refine ⟨route, route', hroute, hroute', ?_⟩
  omega

theorem Before.irrefl {s : State I A} {age : I → A → Nat} {d : A} {i : I} :
    ¬ Before s age d i i := by
  rintro ⟨route, route', hroute, hroute', horder⟩
  rw [hroute] at hroute'
  cases hroute'
  omega

theorem Ordered.before_of_hop {addr : I → A} (haddr : Function.Injective addr)
    {clock : Nat} {age : I → A → Nat} {s : State I A} (ordered : Ordered addr clock age s)
    {d : A} {i j : I} (hdest : addr j ≠ d) (hop : Hop addr s d i j) :
    Before s age d i j := by
  obtain ⟨route, hroute, hnext⟩ := hop
  rcases ordered.follows i d route hroute with hown | ⟨k, route', hk, hroute', horder⟩
  · exact absurd (hnext.symm.trans hown) hdest
  · obtain rfl : k = j := haddr (hk.trans hnext)
    exact ⟨route, route', hroute, hroute', horder⟩

/--
A relation that leaves only nodes other than the destination, and leads to the
destination itself or along the tables, has no cycle.
-/
theorem Ordered.no_cycle {addr : I → A} (haddr : Function.Injective addr)
    {clock : Nat} {age : I → A → Nat} {s : State I A} (ordered : Ordered addr clock age s)
    {d : A} {edge : I → I → Prop}
    (hedge : ∀ i j, edge i j → addr i ≠ d ∧ (addr j = d ∨ Hop addr s d i j)) (i : I) :
    ¬ Relation.TransGen edge i i := by
  have hbefore : ∀ {j k}, Relation.TransGen edge j k → addr k ≠ d →
      Before s age d j k := by
    intro j k hpath
    induction hpath with
    | single hlast =>
        intro hdest
        rcases (hedge _ _ hlast).2 with hd | hop
        · exact absurd hd hdest
        · exact ordered.before_of_hop haddr hdest hop
    | tail _ hlast ih =>
        intro hdest
        obtain ⟨hmiddle, hd | hop⟩ := hedge _ _ hlast
        · exact absurd hd hdest
        · exact (ih hmiddle).trans (ordered.before_of_hop haddr hdest hop)
  intro hcycle
  obtain ⟨next, hfirst, -⟩ := Relation.TransGen.head'_iff.mp hcycle
  exact Before.irrefl (hbefore hcycle (hedge _ _ hfirst).1)

/-! ## No dead ends -/

/-- The destination itself, or a node with a route to it. -/
def Knows (addr : I → A) (s : State I A) (d : A) (i : I) : Prop :=
  addr i = d ∨ (s.table i d).isSome = true

/-- A route leads to a node that knows the way on. -/
theorem Ordered.next_knows {addr : I → A} {clock : Nat} {age : I → A → Nat} {s : State I A}
    (ordered : Ordered addr clock age s) {i t : I} {route : Route A}
    (hroute : s.table i (addr t) = some route) :
    ∃ j, addr j = route.next ∧ Knows addr s (addr t) j := by
  rcases ordered.follows i (addr t) route hroute with hown | ⟨j, route', hj, hroute', -⟩
  · exact ⟨t, hown.symm, Or.inl rfl⟩
  · exact ⟨j, hj, Or.inr (by rw [hroute']; rfl)⟩

/--
Along a relation without cycles on finitely many nodes, a number below their
count goes down: how many nodes can still be reached.
-/
theorem exists_rank [Fintype I] {edge : I → I → Prop}
    (acyclic : ∀ i, ¬ Relation.TransGen edge i i) :
    ∃ rank : I → Nat, (∀ i, rank i < Fintype.card I) ∧
      ∀ i j, edge i j → rank j < rank i := by
  classical
  refine ⟨fun i => (Finset.univ.filter fun j => Relation.TransGen edge i j).card, ?_, ?_⟩
  · intro i
    refine Finset.card_lt_univ_of_notMem (x := i) fun hmem => ?_
    exact acyclic i (Finset.mem_filter.mp hmem).2
  · intro i j hedge
    refine Finset.card_lt_card ⟨?_, fun hsubset => ?_⟩
    · intro k hk
      have hpath := (Finset.mem_filter.mp hk).2
      exact Finset.mem_filter.mpr ⟨Finset.mem_univ k, .head hedge hpath⟩
    · have hj := hsubset (Finset.mem_filter.mpr ⟨Finset.mem_univ j, .single hedge⟩)
      exact acyclic j (Finset.mem_filter.mp hj).2

end Inet256.Foundation.Flood

namespace Inet256.Foundation

/-! ## Spreading along a graph -/

section Graph

open Relation

variable {I : Type} {edge : I → I → Prop} {knows knows' told : I → Prop} {o i j : I}

def Spreading (edge : I → I → Prop) (knows told : I → Prop) : Prop :=
  ∀ i j, knows i → edge i j → knows j ∨ told j

theorem Spreading.frontier (spreading : Spreading edge knows told) (ho : knows o)
    (hreach : ReflTransGen edge o i) :
    knows i ∨ ∃ j, ReflTransGen edge o j ∧ ¬ knows j ∧ told j := by
  induction hreach with
  | refl => exact Or.inl ho
  | @tail i j hreach hedge ih =>
      by_cases hj : knows j
      · exact Or.inl hj
      · rcases ih with hi | hbefore
        · have htold := (spreading i j hi hedge).resolve_left hj
          exact Or.inr ⟨j, hreach.tail hedge, hj, htold⟩
        · exact Or.inr hbefore

/-! ### How many do not know -/

section Ignorant

variable [Fintype I]

open Classical in
noncomputable def ignorant (knows : I → Prop) : Nat :=
  (Finset.univ.filter fun i => ¬ knows i).card

theorem ignorant_lt (hkeep : ∀ i, knows i → knows' i) (hold : ¬ knows j) (hnew : knows' j) :
    ignorant knows' < ignorant knows := by
  classical
  refine Finset.card_lt_card (Finset.ssubset_iff_of_subset ?_ |>.mpr ⟨j, ?_, ?_⟩)
  · intro i hi
    rw [Finset.mem_filter] at hi ⊢
    exact ⟨hi.1, fun hknows => hi.2 (hkeep i hknows)⟩
  · rw [Finset.mem_filter]
    exact ⟨Finset.mem_univ j, hold⟩
  · rw [Finset.mem_filter]
    exact fun h => h.2 hnew

theorem ignorant_lt_card (ho : knows o) : ignorant knows < Fintype.card I := by
  classical
  refine Finset.card_lt_card (Finset.ssubset_iff_of_subset (Finset.filter_subset _ _) |>.mpr
    ⟨o, Finset.mem_univ o, ?_⟩)
  rw [Finset.mem_filter]
  exact fun h => h.2 ho

end Ignorant

end Graph

end Inet256.Foundation
