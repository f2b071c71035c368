import Mathlib.Data.List.AList

/-!
# Stores of futures

Futures that several callers can find under a key.  A future is settled once;
later attempts to settle it do nothing.  A key has at most one registered
future, and unregistering names the future, so that a later one under the same
key is left alone.

A store is a parameter: its operations, and the laws that its users rely on.
-/

namespace Inet256.Foundation

variable {K V : Type}

/--
A package of futures at one type of keys and values.  A future is known by its
address.  `Made` tells the addresses that are in use, and `outcome` is what
waiting for a future returns.
-/
structure FutureStore (K V : Type) where
  Store : Type
  new : Store
  get : Store → K → Option Nat
  /-- The registered future, or a new one; and whether it is new. -/
  getOrCreate : Store → K → Store × Nat × Bool
  delete : Store → K → Nat → Store
  /-- Settle a future, unless it is settled; and whether it was not. -/
  settle : Store → Nat → V → Store × Bool
  /-- The registered futures, in the order in which a loop visits them. -/
  entries : Store → List (K × Nat)
  outcome : Store → Nat → Option V
  Made : Store → Nat → Prop
  get_new : ∀ key, get new key = none
  mem_entries : ∀ s key future, (key, future) ∈ entries s ↔ get s key = some future
  made_of_get : ∀ s key future, get s key = some future → Made s future
  /-- No future is registered under two keys. -/
  get_inj : ∀ s key key' future, get s key = some future → get s key' = some future → key = key'
  outcome_of_not_made : ∀ s future, ¬ Made s future → outcome s future = none
  outcome_new : ∀ future, outcome new future = none
  getOrCreate_of_some : ∀ s key future, get s key = some future →
    getOrCreate s key = (s, future, false)
  created_of_none : ∀ s key, get s key = none → (getOrCreate s key).2.2 = true
  not_made_created : ∀ s key, get s key = none → ¬ Made s (getOrCreate s key).2.1
  made_getOrCreate : ∀ s key future,
    Made (getOrCreate s key).1 future ↔ future = (getOrCreate s key).2.1 ∨ Made s future
  get_getOrCreate_self : ∀ s key,
    get (getOrCreate s key).1 key = some (getOrCreate s key).2.1
  get_getOrCreate_of_ne : ∀ s key other, other ≠ key →
    get (getOrCreate s key).1 other = get s other
  outcome_getOrCreate : ∀ s key future, outcome (getOrCreate s key).1 future = outcome s future
  get_delete_self : ∀ s key future, get s key = some future →
    get (delete s key future) key = none
  /-- Another future stays, under the key or under any other. -/
  get_delete_of_ne : ∀ s key other future, ¬ (other = key ∧ get s key = some future) →
    get (delete s key future) other = get s other
  made_delete : ∀ s key future other, Made (delete s key future) other ↔ Made s other
  outcome_delete : ∀ s key future other, outcome (delete s key future) other = outcome s other
  get_settle : ∀ s future value key, get (settle s future value).1 key = get s key
  made_settle : ∀ s future value other, Made (settle s future value).1 other ↔ Made s other
  outcome_settle : ∀ s future value other, Made s future →
    outcome (settle s future value).1 other =
      if other = future ∧ outcome s future = none then some value else outcome s other
  settled_iff : ∀ s future value, Made s future →
    ((settle s future value).2 = true ↔ outcome s future = none)

namespace FutureStore

variable {F : FutureStore K V} {s : F.Store}

/-- What is registered stays so when another key gets its future. -/
theorem get_getOrCreate_of_some {key other : K} {future : Nat}
    (h : F.get s other = some future) : F.get (F.getOrCreate s key).1 other = some future := by
  by_cases hother : other = key
  · subst hother
    rw [F.getOrCreate_of_some s other future h]
    exact h
  · rw [F.get_getOrCreate_of_ne s key other hother, h]

/-- A future is registered afterwards if it was before, or is the one of the key. -/
theorem get_of_getOrCreate {key other : K} {future : Nat}
    (h : F.get (F.getOrCreate s key).1 other = some future) :
    (other = key ∧ future = (F.getOrCreate s key).2.1) ∨ F.get s other = some future := by
  by_cases hother : other = key
  · subst hother
    rw [F.get_getOrCreate_self] at h
    exact Or.inl ⟨rfl, (Option.some.inj h).symm⟩
  · rw [F.get_getOrCreate_of_ne s key other hother] at h
    exact Or.inr h

/-- The future of the key is new and open, or was registered under it. -/
theorem getOrCreate_cases (s : F.Store) (key : K) :
    F.get s key = some (F.getOrCreate s key).2.1 ∨
      F.outcome s (F.getOrCreate s key).2.1 = none ∧ ¬ F.Made s (F.getOrCreate s key).2.1 := by
  cases hget : F.get s key with
  | some future =>
      rw [F.getOrCreate_of_some s key future hget]
      exact Or.inl rfl
  | none =>
      have hfresh := F.not_made_created s key hget
      exact Or.inr ⟨F.outcome_of_not_made s _ hfresh, hfresh⟩

theorem get_of_delete {key other : K} {future found : Nat}
    (h : F.get (F.delete s key future) other = some found) :
    F.get s other = some found ∧ ¬ (other = key ∧ found = future) := by
  have hkept : ¬ (other = key ∧ F.get s key = some future) := by
    rintro ⟨rfl, hget⟩
    rw [F.get_delete_self s other future hget] at h
    cases h
  rw [F.get_delete_of_ne s key other future hkept] at h
  refine ⟨h, ?_⟩
  rintro ⟨rfl, rfl⟩
  exact hkept ⟨rfl, h⟩

/-- A future has its outcome from before, or it was open and is the one that is settled. -/
theorem outcome_of_settle {future other : Nat} {value value' : V} (hmade : F.Made s future)
    (h : F.outcome (F.settle s future value).1 other = some value') :
    F.outcome s other = some value' ∨ (other = future ∧ value' = value) := by
  rw [F.outcome_settle s future value other hmade] at h
  split at h
  · next hthis => exact Or.inr ⟨hthis.1, (Option.some.inj h).symm⟩
  · exact Or.inl h

theorem isSome_outcome_settle {key : K} {future : Nat} (hget : F.get s key = some future)
    (value : V) : (F.outcome (F.settle s future value).1 future).isSome = true := by
  rw [F.outcome_settle s future value future (F.made_of_get s key future hget)]
  split
  · rfl
  · next hsettled =>
      rw [Option.isSome_iff_ne_none]
      intro hnone
      exact hsettled ⟨rfl, hnone⟩

/-- Only the key whose future is settled has a new outcome. -/
theorem key_of_outcome_settle {key key' : K} {future other : Nat} {value value' : V}
    (hget : F.get s key = some future) (hother : F.get s key' = some other)
    (hnone : F.outcome s other = none)
    (h : F.outcome (F.settle s future value).1 other = some value') : key' = key := by
  rcases outcome_of_settle (F.made_of_get s key future hget) h with hold | ⟨rfl, -⟩
  · rw [hnone] at hold
    cases hold
  · exact F.get_inj s key' key other hother hget

/-! ## What the outcomes under the keys mean -/

/-- The registered futures that are settled have outcomes that fit their keys. -/
def Explained (F : FutureStore K V) (s : F.Store) (good : K → V → Prop) : Prop :=
  ∀ key future value, F.get s key = some future → F.outcome s future = some value →
    good key value

section Explained

variable {good good' : K → V → Prop}

theorem explained_new : F.Explained F.new good := by
  intro key future value hget
  rw [F.get_new] at hget
  cases hget

theorem Explained.mono (h : F.Explained s good)
    (himp : ∀ key value, good key value → good' key value) : F.Explained s good' :=
  fun key future value hget houtcome => himp key value (h key future value hget houtcome)

theorem Explained.getOrCreate (h : F.Explained s good) (key : K) :
    F.Explained (F.getOrCreate s key).1 good := by
  intro other future value hget houtcome
  rw [F.outcome_getOrCreate] at houtcome
  rcases get_of_getOrCreate hget with ⟨rfl, rfl⟩ | hold
  · rcases getOrCreate_cases s other with hget | ⟨hnone, -⟩
    · exact h other _ value hget houtcome
    · rw [hnone] at houtcome
      cases houtcome
  · exact h other future value hold houtcome

theorem Explained.delete (h : F.Explained s good) (key : K) (future : Nat) :
    F.Explained (F.delete s key future) good := by
  intro other future' value hget houtcome
  rw [F.outcome_delete] at houtcome
  exact h other future' value (get_of_delete hget).1 houtcome

theorem Explained.settle (h : F.Explained s good) {key : K} {future : Nat} {value : V}
    (hkey : F.get s key = some future) (hgood : good key value) :
    F.Explained (F.settle s future value).1 good := by
  intro other future' value' hget houtcome
  rw [F.get_settle] at hget
  rcases outcome_of_settle (F.made_of_get s key future hkey) houtcome with hold | ⟨rfl, rfl⟩
  · exact h other future' value' hget hold
  · rw [F.get_inj s other key future' hget hkey]
    exact hgood

end Explained

/-! ## Settling what has an answer -/

def settleEntry (F : FutureStore K V) (answer : K → Option V) (done : F.Store × Bool)
    (entry : K × Nat) : F.Store × Bool :=
  match answer entry.1 with
  | some value =>
      let (store, settled) := F.settle done.1 entry.2 value
      (store, done.2 || settled)
  | none => done

/-- Settle every registered future that has an answer; and whether one was open. -/
def settleEach (F : FutureStore K V) (s : F.Store) (answer : K → Option V) : F.Store × Bool :=
  (F.entries s).foldl (F.settleEntry answer) (s, false)

section SettleEach

variable {answer : K → Option V} {done : F.Store × Bool} {entry : K × Nat}
  {entries : List (K × Nat)}

theorem get_settleEntry (key : K) :
    F.get (F.settleEntry answer done entry).1 key = F.get done.1 key := by
  unfold settleEntry
  split
  · exact F.get_settle _ _ _ key
  · rfl

theorem made_settleEntry (future : Nat) :
    F.Made (F.settleEntry answer done entry).1 future ↔ F.Made done.1 future := by
  unfold settleEntry
  split
  · exact F.made_settle _ _ _ future
  · rfl

theorem get_settleEntries (key : K) :
    F.get (entries.foldl (F.settleEntry answer) done).1 key = F.get done.1 key := by
  induction entries generalizing done with
  | nil => rfl
  | cons entry entries ih => rw [List.foldl_cons, ih, get_settleEntry]

theorem made_settleEntries (future : Nat) :
    F.Made (entries.foldl (F.settleEntry answer) done).1 future ↔ F.Made done.1 future := by
  induction entries generalizing done with
  | nil => rfl
  | cons entry entries ih => rw [List.foldl_cons, ih, made_settleEntry]

theorem get_settleEach (s : F.Store) (answer : K → Option V) (key : K) :
    F.get (F.settleEach s answer).1 key = F.get s key :=
  get_settleEntries key

theorem made_settleEach (s : F.Store) (answer : K → Option V) (future : Nat) :
    F.Made (F.settleEach s answer).1 future ↔ F.Made s future :=
  made_settleEntries future

theorem outcome_settleEntry (answer : K → Option V) (hmade : F.Made done.1 entry.2)
    (future : Nat) :
    F.outcome (F.settleEntry answer done entry).1 future =
      if future = entry.2 ∧ F.outcome done.1 future = none then answer entry.1
      else F.outcome done.1 future := by
  unfold settleEntry
  cases answer entry.1 with
  | none =>
      dsimp only
      split
      · next hnone => exact hnone.2
      · rfl
  | some value =>
      dsimp only
      rw [F.outcome_settle done.1 entry.2 value future hmade]
      by_cases hfuture : future = entry.2
      · subst hfuture
        rfl
      · simp [hfuture]

/-- A settled future keeps its outcome; an open one gets an answer to one of its keys. -/
theorem outcome_settleEntries (hmade : ∀ entry ∈ entries, F.Made done.1 entry.2)
    (future : Nat) :
    (∀ value, F.outcome done.1 future = some value →
      F.outcome (entries.foldl (F.settleEntry answer) done).1 future = some value) ∧
    (F.outcome done.1 future = none → ∀ value,
      F.outcome (entries.foldl (F.settleEntry answer) done).1 future = some value →
      ∃ entry ∈ entries, entry.2 = future ∧ answer entry.1 = some value) ∧
    (∀ entry ∈ entries, entry.2 = future → (answer entry.1).isSome = true →
      (F.outcome (entries.foldl (F.settleEntry answer) done).1 future).isSome = true) := by
  induction entries generalizing done with
  | nil =>
      refine ⟨fun _ h => h, fun hnone value h => ?_, by simp⟩
      rw [List.foldl_nil, hnone] at h
      cases h
  | cons first entries ih =>
      have hfirst := outcome_settleEntry answer (hmade first (by simp)) future
      have hrest : ∀ entry ∈ entries, F.Made (F.settleEntry answer done first).1 entry.2 :=
        fun entry hentry => (made_settleEntry _).mpr (hmade entry (by simp [hentry]))
      obtain ⟨hkeep, hfrom, hdone⟩ := ih hrest
      rw [List.foldl_cons]
      refine ⟨?_, ?_, ?_⟩
      · intro value h
        refine hkeep value ?_
        rw [hfirst, if_neg (by simp [h])]
        exact h
      · intro hnone value h
        cases hmiddle : F.outcome (F.settleEntry answer done first).1 future with
        | none =>
            obtain ⟨entry, hentry, hfuture, hanswer⟩ := hfrom hmiddle value h
            exact ⟨entry, by simp [hentry], hfuture, hanswer⟩
        | some value' =>
            rw [hkeep value' hmiddle] at h
            rw [hfirst] at hmiddle
            split at hmiddle
            · next hthis => exact ⟨first, by simp, hthis.1.symm, hmiddle.trans h⟩
            · rw [hnone] at hmiddle
              cases hmiddle
      · intro entry hentry hfuture hanswer
        rcases List.mem_cons.mp hentry with rfl | hentry
        · have hsome : (F.outcome (F.settleEntry answer done entry).1 future).isSome = true := by
            rw [hfirst]
            split
            · exact hanswer
            · next hother =>
                cases hnone : F.outcome done.1 future with
                | none => exact absurd ⟨hfuture.symm, hnone⟩ hother
                | some value => rfl
          obtain ⟨value, hvalue⟩ := Option.isSome_iff_exists.mp hsome
          rw [hkeep value hvalue]
          rfl
        · exact hdone entry hentry hfuture hanswer

theorem made_of_mem_entries (hentry : entry ∈ F.entries s) : F.Made s entry.2 :=
  F.made_of_get s entry.1 entry.2 ((F.mem_entries s entry.1 entry.2).mp hentry)

theorem outcome_settleEach_of_some {future : Nat} {value : V}
    (h : F.outcome s future = some value) :
    F.outcome (F.settleEach s answer).1 future = some value :=
  (outcome_settleEntries (fun _ => made_of_mem_entries) future).1 value h

theorem isSome_outcome_settleEach {key : K} {future : Nat} (hget : F.get s key = some future)
    (hanswer : (answer key).isSome = true) :
    (F.outcome (F.settleEach s answer).1 future).isSome = true :=
  (outcome_settleEntries (fun _ => made_of_mem_entries) future).2.2 (key, future)
    ((F.mem_entries s key future).mpr hget) rfl hanswer

theorem answer_of_outcome_settleEach {future : Nat} {value : V}
    (hnone : F.outcome s future = none)
    (h : F.outcome (F.settleEach s answer).1 future = some value) :
    ∃ key, F.get s key = some future ∧ answer key = some value := by
  obtain ⟨⟨key, _⟩, hentry, rfl, hanswer⟩ :=
    (outcome_settleEntries (fun _ => made_of_mem_entries) future).2.1 hnone value h
  exact ⟨key, (F.mem_entries s key _).mp hentry, hanswer⟩

end SettleEach

/-! ## What the outcomes of all futures mean

A future that is no longer registered can still be settled by whoever holds it.
Every future keeps the key it was made for as its label.
-/

structure Labelled (F : FutureStore K V) (s : F.Store) (label : Nat → K)
    (good : K → V → Prop) : Prop where
  registered : ∀ key future, F.get s key = some future → label future = key
  outcome : ∀ future value, F.outcome s future = some value → good (label future) value

section Labelled

variable {label : Nat → K} {good good' : K → V → Prop}

theorem labelled_new (label : Nat → K) (good : K → V → Prop) :
    F.Labelled F.new label good where
  registered := by
    intro key future hget
    rw [F.get_new] at hget
    cases hget
  outcome := by
    intro future value h
    rw [F.outcome_new] at h
    cases h

theorem Labelled.mono (h : F.Labelled s label good)
    (himp : ∀ key value, good key value → good' key value) : F.Labelled s label good' :=
  ⟨h.registered, fun future value hvalue => himp _ _ (h.outcome future value hvalue)⟩

/-- The future of the key is labelled with it, and older futures keep their labels. -/
theorem Labelled.getOrCreate (h : F.Labelled s label good) (key : K) :
    ∃ label', F.Labelled (F.getOrCreate s key).1 label' good ∧
      label' (F.getOrCreate s key).2.1 = key ∧
      ∀ future, F.Made s future → label' future = label future := by
  rcases getOrCreate_cases s key with hget | ⟨hnone, hfresh⟩
  · rw [F.getOrCreate_of_some s key _ hget]
    exact ⟨label, h, h.registered key _ hget, fun _ _ => rfl⟩
  · have hold : ∀ future, F.Made s future →
        Function.update label (F.getOrCreate s key).2.1 key future = label future := by
      intro future hmade
      refine Function.update_of_ne ?_ key label
      rintro rfl
      exact hfresh hmade
    refine ⟨Function.update label (F.getOrCreate s key).2.1 key, ⟨?_, ?_⟩,
      Function.update_self .., hold⟩
    · intro other future hother
      rcases get_of_getOrCreate hother with ⟨rfl, rfl⟩ | hother
      · exact Function.update_self ..
      · rw [hold future (F.made_of_get s other future hother)]
        exact h.registered other future hother
    · intro future value hvalue
      rw [F.outcome_getOrCreate] at hvalue
      have hmade : F.Made s future := by
        by_contra hmade
        rw [F.outcome_of_not_made s future hmade] at hvalue
        cases hvalue
      rw [hold future hmade]
      exact h.outcome future value hvalue

theorem Labelled.delete (h : F.Labelled s label good) (key : K) (future : Nat) :
    F.Labelled (F.delete s key future) label good where
  registered := fun other future' hget => h.registered other future' (get_of_delete hget).1
  outcome := by
    intro future' value hvalue
    rw [F.outcome_delete] at hvalue
    exact h.outcome future' value hvalue

theorem Labelled.settle (h : F.Labelled s label good) {future : Nat} {value : V}
    (hmade : F.Made s future) (hgood : good (label future) value) :
    F.Labelled (F.settle s future value).1 label good where
  registered := by
    intro key other hget
    rw [F.get_settle] at hget
    exact h.registered key other hget
  outcome := by
    intro other value' hvalue
    rcases outcome_of_settle hmade hvalue with hold | ⟨rfl, rfl⟩
    · exact h.outcome other value' hold
    · exact hgood

theorem Labelled.settleEach (h : F.Labelled s label good) {answer : K → Option V}
    (hgood : ∀ key value, answer key = some value → good key value) :
    F.Labelled (F.settleEach s answer).1 label good where
  registered := by
    intro key future hget
    rw [get_settleEach] at hget
    exact h.registered key future hget
  outcome := by
    intro future value hvalue
    cases hold : F.outcome s future with
    | some value' =>
        rw [outcome_settleEach_of_some hold] at hvalue
        cases hvalue
        exact h.outcome future value hold
    | none =>
        obtain ⟨key, hget, hanswer⟩ := answer_of_outcome_settleEach hold hvalue
        rw [h.registered key future hget]
        exact hgood key value hanswer

end Labelled

end FutureStore

/-! ## A store

Futures are numbered as they are made.
-/

structure FutureTable (K V : Type) where
  registered : AList fun _ : K => Nat
  outcome : Nat → Option V
  made : Nat
  registered_lt : ∀ entry ∈ registered.entries, entry.2 < made
  outcome_of_le : ∀ future, made ≤ future → outcome future = none
  registered_inj : ∀ entry ∈ registered.entries, ∀ entry' ∈ registered.entries,
    entry.2 = entry'.2 → entry.1 = entry'.1

namespace FutureTable

variable [DecidableEq K]

def get (t : FutureTable K V) (key : K) : Option Nat := t.registered.lookup key

theorem get_lt (t : FutureTable K V) {key : K} {future : Nat} (h : t.get key = some future) :
    future < t.made :=
  t.registered_lt ⟨key, future⟩ (AList.mem_lookup_iff.mp h)

theorem get_inj (t : FutureTable K V) {key key' : K} {future : Nat}
    (h : t.get key = some future) (h' : t.get key' = some future) : key = key' :=
  t.registered_inj ⟨key, future⟩ (AList.mem_lookup_iff.mp h) ⟨key', future⟩
    (AList.mem_lookup_iff.mp h') rfl

theorem get_of_mem_insert (t : FutureTable K V) {key : K} {entry : (_ : K) × Nat}
    (h : entry ∈ (t.registered.insert key t.made).entries) :
    (entry.1 = key ∧ entry.2 = t.made) ∨ t.get entry.1 = some entry.2 := by
  have hlookup : (t.registered.insert key t.made).lookup entry.1 = some entry.2 :=
    AList.mem_lookup_iff.mpr h
  by_cases hkey : entry.1 = key
  · rw [hkey, AList.lookup_insert] at hlookup
    exact Or.inl ⟨hkey, (Option.some.inj hlookup).symm⟩
  · rw [AList.lookup_insert_ne hkey] at hlookup
    exact Or.inr hlookup

def create (t : FutureTable K V) (key : K) : FutureTable K V where
  registered := t.registered.insert key t.made
  outcome := t.outcome
  made := t.made + 1
  registered_lt := by
    intro entry hentry
    rcases t.get_of_mem_insert hentry with ⟨-, hnew⟩ | hold
    · omega
    · exact Nat.lt_succ_of_lt (t.get_lt hold)
  outcome_of_le := fun future h => t.outcome_of_le future (Nat.le_of_succ_le h)
  registered_inj := by
    intro entry hentry entry' hentry' heq
    rcases t.get_of_mem_insert hentry with ⟨hkey, hnew⟩ | hold <;>
      rcases t.get_of_mem_insert hentry' with ⟨hkey', hnew'⟩ | hold'
    · rw [hkey, hkey']
    · have hlt := t.get_lt hold'
      omega
    · have hlt := t.get_lt hold
      omega
    · rw [heq] at hold
      exact t.get_inj hold hold'

def getOrCreate (t : FutureTable K V) (key : K) : FutureTable K V × Nat × Bool :=
  match t.get key with
  | some future => (t, future, false)
  | none => (t.create key, t.made, true)

theorem get_of_mem_erase (t : FutureTable K V) {key : K} {entry : (_ : K) × Nat}
    (h : entry ∈ (t.registered.erase key).entries) : t.get entry.1 = some entry.2 := by
  have hlookup : (t.registered.erase key).lookup entry.1 = some entry.2 :=
    AList.mem_lookup_iff.mpr h
  by_cases hkey : entry.1 = key
  · rw [hkey, AList.lookup_erase] at hlookup
    cases hlookup
  · rw [AList.lookup_erase_ne hkey] at hlookup
    exact hlookup

def unregister (t : FutureTable K V) (key : K) : FutureTable K V where
  registered := t.registered.erase key
  outcome := t.outcome
  made := t.made
  registered_lt := fun _ hentry => t.get_lt (t.get_of_mem_erase hentry)
  outcome_of_le := t.outcome_of_le
  registered_inj := by
    intro entry hentry entry' hentry' heq
    have hget := t.get_of_mem_erase hentry
    rw [heq] at hget
    exact t.get_inj hget (t.get_of_mem_erase hentry')

def delete (t : FutureTable K V) (key : K) (future : Nat) : FutureTable K V :=
  if t.get key = some future then t.unregister key else t

def settle (t : FutureTable K V) (future : Nat) (value : V) : FutureTable K V × Bool :=
  if h : future < t.made ∧ t.outcome future = none then
    ({ t with
      outcome := Function.update t.outcome future (some value)
      outcome_of_le := by
        intro other hother
        rw [Function.update_of_ne (by omega)]
        exact t.outcome_of_le other hother }, true)
  else (t, false)

end FutureTable

namespace FutureStore

variable [DecidableEq K]

def table : FutureStore K V where
  Store := FutureTable K V
  new := ⟨∅, fun _ => none, 0, by simp, fun _ _ => rfl, by simp⟩
  get := FutureTable.get
  getOrCreate := FutureTable.getOrCreate
  delete := FutureTable.delete
  settle := FutureTable.settle
  entries t := t.registered.entries.map fun entry => (entry.1, entry.2)
  outcome := FutureTable.outcome
  Made t future := future < t.made
  get_new _ := rfl
  mem_entries := by
    intro t key future
    rw [FutureTable.get, ← Option.mem_def, AList.mem_lookup_iff, List.mem_map]
    constructor
    · rintro ⟨entry, hentry, heq⟩
      cases heq
      exact hentry
    · intro hentry
      exact ⟨⟨key, future⟩, hentry, rfl⟩
  made_of_get t _ _ := t.get_lt
  get_inj t _ _ _ := t.get_inj
  outcome_of_not_made t future h := t.outcome_of_le future (Nat.le_of_not_lt h)
  outcome_new _ := rfl
  getOrCreate_of_some := by
    intro t key future h
    rw [FutureTable.getOrCreate, h]
  created_of_none := by
    intro t key h
    rw [FutureTable.getOrCreate, h]
  not_made_created := by
    intro t key h
    rw [FutureTable.getOrCreate, h]
    exact Nat.lt_irrefl t.made
  made_getOrCreate := by
    intro t key future
    unfold FutureTable.getOrCreate
    cases hget : t.get key with
    | some found =>
        have hlt := t.get_lt hget
        constructor
        · exact Or.inr
        · rintro (rfl | hmade)
          · exact hlt
          · exact hmade
    | none => exact Nat.lt_succ_iff_lt_or_eq.trans or_comm
  get_getOrCreate_self := by
    intro t key
    unfold FutureTable.getOrCreate
    cases hget : t.get key with
    | some found => exact hget
    | none => exact AList.lookup_insert _
  get_getOrCreate_of_ne := by
    intro t key other hother
    unfold FutureTable.getOrCreate
    cases t.get key with
    | some found => rfl
    | none => exact AList.lookup_insert_ne hother
  outcome_getOrCreate := by
    intro t key future
    unfold FutureTable.getOrCreate
    cases t.get key <;> rfl
  get_delete_self := by
    intro t key future h
    rw [FutureTable.delete, if_pos h]
    exact AList.lookup_erase key t.registered
  get_delete_of_ne := by
    intro t key other future h
    unfold FutureTable.delete
    split
    · next hget => exact AList.lookup_erase_ne fun hother => h ⟨hother, hget⟩
    · rfl
  made_delete := by
    intro t key future other
    unfold FutureTable.delete
    split <;> rfl
  outcome_delete := by
    intro t key future other
    unfold FutureTable.delete
    split <;> rfl
  get_settle := by
    intro t future value key
    unfold FutureTable.settle
    split <;> rfl
  made_settle := by
    intro t future value other
    unfold FutureTable.settle
    split <;> rfl
  outcome_settle := by
    intro t future value other hmade
    unfold FutureTable.settle
    by_cases hnone : t.outcome future = none
    · by_cases hother : other = future
      · subst hother
        simp [hmade, hnone]
      · simp [hmade, hnone, hother]
    · simp [hnone]
  settled_iff := by
    intro t future value hmade
    unfold FutureTable.settle
    split
    · next h => exact iff_of_true rfl h.2
    · next h => exact iff_of_false Bool.false_ne_true fun hnone => h ⟨hmade, hnone⟩

end FutureStore

end Inet256.Foundation
