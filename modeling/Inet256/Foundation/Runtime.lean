import Inet256.Foundation.Bytes
import Mathlib.Data.Finmap

/-!
# Maps, time and JSON

What the development uses of the language and its standard library beyond
bytes.  Strings are any bytes; maps are finite maps without an iteration order;
instants are counted from the zero time in nanoseconds and durations saturate at
64 bits; a JSON codec for one type of struct is any pair of functions of which
the decoder inverts the encoder.
-/

namespace Inet256.Foundation

abbrev GoString := Bytes

/-! ## Maps -/

abbrev GoMap (α β : Type) := Finmap fun _ : α => β

namespace GoMap

variable {α β : Type}

/-- The entries that a range loop leaves when it deletes the others. -/
def filter (keep : α → β → Bool) (table : GoMap α β) : GoMap α β where
  entries := table.entries.filter fun entry => keep entry.1 entry.2
  nodupKeys := by
    apply Multiset.nodup_keys.mp
    exact Multiset.nodup_of_le
      (Multiset.map_le_map (Multiset.filter_le _ table.entries))
      (Multiset.nodup_keys.mpr table.nodupKeys)

variable [DecidableEq α]

/-- A range loop visits every key once, in any order. -/
structure Ranges (table : GoMap α β) (order : List α) : Prop where
  nodup : order.Nodup
  mem_iff : ∀ key, key ∈ order ↔ ∃ value, table.lookup key = some value

instance (table : GoMap α β) (order : List α) : Decidable (table.Ranges order) :=
  decidable_of_iff (order.Nodup ∧ order.toFinset = table.keys) <| by
    have hkeys : order.toFinset = table.keys ↔
        ∀ key, key ∈ order ↔ ∃ value, table.lookup key = some value := by
      simp only [Finset.ext_iff, List.mem_toFinset, Finmap.mem_keys, Finmap.mem_iff]
    rw [hkeys]
    exact ⟨fun h => ⟨h.1, h.2⟩, fun h => ⟨h.nodup, h.mem_iff⟩⟩

theorem lookup_insert_eq (table : GoMap α β) (key other : α) (value : β) :
    (table.insert key value).lookup other =
      if other = key then some value else table.lookup other := by
  by_cases h : other = key
  · subst h
    rw [if_pos rfl, Finmap.lookup_insert]
  · rw [if_neg h, Finmap.lookup_insert_of_ne _ h]

theorem lookup_erase_eq (table : GoMap α β) (key other : α) :
    (table.erase key).lookup other =
      if other = key then none else table.lookup other := by
  by_cases h : other = key
  · subst h
    rw [if_pos rfl, Finmap.lookup_erase]
  · rw [if_neg h, Finmap.lookup_erase_ne h]

theorem lookup_insert_update (table : GoMap α β) (key : α) (value : β) :
    (fun other => (table.insert key value).lookup other) =
      Function.update (fun other => table.lookup other) key (some value) := by
  funext other
  rw [lookup_insert_eq, Function.update_apply]

theorem lookup_erase_update (table : GoMap α β) (key : α) :
    (fun other => (table.erase key).lookup other) =
      Function.update (fun other => table.lookup other) key none := by
  funext other
  rw [lookup_erase_eq, Function.update_apply]

theorem lookup_insert_cases {table : GoMap α β} {key other : α} {value found : β}
    (h : (table.insert key value).lookup other = some found) :
    (other = key ∧ found = value) ∨ (other ≠ key ∧ table.lookup other = some found) := by
  rw [lookup_insert_eq] at h
  split at h
  · next hsame => exact Or.inl ⟨hsame, (Option.some.inj h).symm⟩
  · next hne => exact Or.inr ⟨hne, h⟩

/-- What a map has stays under its key when an absent key is added. -/
theorem lookup_insert_of_absent {table : GoMap α β} {key other : α} {value found : β}
    (hkey : table.lookup key = none) (h : table.lookup other = some found) :
    (table.insert key value).lookup other = some found := by
  have hne : other ≠ key := by
    rintro rfl
    rw [hkey] at h
    cases h
  rw [lookup_insert_eq, if_neg hne, h]

/-- No key is lost when another is added or written over. -/
theorem exists_lookup_insert {table : GoMap α β} {other : α} {found : β}
    (h : table.lookup other = some found) (key : α) (value : β) :
    ∃ kept, (table.insert key value).lookup other = some kept := by
  rw [lookup_insert_eq]
  split
  · exact ⟨value, rfl⟩
  · exact ⟨found, h⟩

theorem lookup_erase_cases {table : GoMap α β} {key other : α} {found : β}
    (h : (table.erase key).lookup other = some found) :
    other ≠ key ∧ table.lookup other = some found := by
  rw [lookup_erase_eq] at h
  split at h
  · cases h
  · next hne => exact ⟨hne, h⟩

/-- What a map has under another key stays when a key is deleted. -/
theorem lookup_erase_of_ne {table : GoMap α β} {key other : α} {found : β} (hne : other ≠ key)
    (h : table.lookup other = some found) : (table.erase key).lookup other = some found := by
  rw [lookup_erase_eq, if_neg hne, h]

/-- No two keys have values that agree in `f`. -/
def Distinct {γ : Type} (table : GoMap α β) (f : β → γ) : Prop :=
  ∀ key key' value value', table.lookup key = some value → table.lookup key' = some value' →
    f value = f value' → key = key'

@[simp] theorem distinct_empty {γ : Type} (f : β → γ) : (∅ : GoMap α β).Distinct f := by
  intro key key' value value' hkey
  simp at hkey

theorem Distinct.insert {γ : Type} {table : GoMap α β} {f : β → γ} (h : table.Distinct f)
    {added : β} (hnew : ∀ key value, table.lookup key = some value → f value ≠ f added)
    (key : α) : GoMap.Distinct (table.insert key added) f := by
  intro first second value value' hfirst hsecond heq
  rcases lookup_insert_cases hfirst with ⟨rfl, rfl⟩ | ⟨-, hold⟩
  · rcases lookup_insert_cases hsecond with ⟨rfl, -⟩ | ⟨-, hold'⟩
    · rfl
    · exact absurd heq.symm (hnew second value' hold')
  · rcases lookup_insert_cases hsecond with ⟨-, rfl⟩ | ⟨-, hold'⟩
    · exact absurd heq (hnew first value hold)
    · exact h first second value value' hold hold' heq

theorem lookup_filter_iff {table : GoMap α β} {keep : α → β → Bool} {key : α} {value : β} :
    (table.filter keep).lookup key = some value ↔
      table.lookup key = some value ∧ keep key value = true := by
  have hfilter := Finmap.mem_lookup_iff (s := table.filter keep) (a := key) (b := value)
  have htable := Finmap.mem_lookup_iff (s := table) (a := key) (b := value)
  rw [Option.mem_def] at hfilter htable
  rw [hfilter, htable, filter, Multiset.mem_filter]

theorem card_insert_ne_zero (table : GoMap α β) (key : α) (value : β) :
    (table.insert key value).entries.card ≠ 0 := by
  intro hcard
  have hmem := Finmap.mem_lookup_iff.mp (Finmap.lookup_insert (b := value) (a := key) table)
  rw [Multiset.card_eq_zero.mp hcard] at hmem
  exact Multiset.notMem_zero _ hmem

theorem ranges_empty : Ranges (∅ : GoMap α β) [] where
  nodup := List.nodup_nil
  mem_iff := by simp

theorem Ranges.insert {table : GoMap α β} {order : List α} (h : table.Ranges order) {key : α}
    (hkey : key ∉ order) (value : β) : Ranges (Finmap.insert key value table) (key :: order) where
  nodup := List.nodup_cons.mpr ⟨hkey, h.nodup⟩
  mem_iff := by
    intro other
    rw [lookup_insert_eq, List.mem_cons, h.mem_iff]
    split
    · next hsame => simp [hsame]
    · next hne => simp [hne]

theorem insert_of_lookup {table : GoMap α β} {key : α} {value : β}
    (h : table.lookup key = some value) : table.insert key value = table := by
  apply Finmap.ext_lookup
  intro other
  rw [lookup_insert_eq]
  by_cases hother : other = key
  · subst hother
    rw [if_pos rfl, h]
  · rw [if_neg hother]

theorem erase_of_lookup {table : GoMap α β} {key : α} (h : table.lookup key = none) :
    table.erase key = table := by
  apply Finmap.ext_lookup
  intro other
  rw [lookup_erase_eq]
  by_cases hother : other = key
  · subst hother
    rw [if_pos rfl, h]
  · rw [if_neg hother]

end GoMap

/-! ## Time -/

structure Time where
  nanos : Int
  deriving DecidableEq, Repr

abbrev Duration := Int

def second : Duration := 1000000000

namespace Time

def zero : Time := ⟨0⟩

/-- `t.Sub(u)`, which saturates at the extreme durations. -/
def sub (t u : Time) : Duration :=
  max (-2 ^ 63) (min (2 ^ 63 - 1) (t.nanos - u.nanos))

theorem sub_nonpos_of_le {t u : Time} (h : t.nanos ≤ u.nanos) : t.sub u ≤ 0 :=
  max_le (by decide) ((min_le_right _ _).trans (Int.sub_nonpos_of_le h))

/-- `t.After(u)`. -/
def after (t u : Time) : Bool := u.nanos < t.nanos

def unixEpoch : Int := 62135596800 * 1000000000

/-- `uint64(t.UnixNano())`, with the wrap-around of both conversions. -/
def unixNano (t : Time) : UInt64 :=
  UInt64.ofNat ((t.nanos - unixEpoch) % 2 ^ 64).toNat

end Time

/-! ## JSON -/

/-- `encoding/json` at one struct type. -/
structure JsonCodec (α : Type) where
  marshal : α → Bytes
  unmarshal : Bytes → Go α
  unmarshal_marshal : ∀ value, unmarshal (marshal value) = .ok value

end Inet256.Foundation
