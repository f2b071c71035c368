import Inet256.Foundation.Runs
import Mathlib.Algebra.BigOperators.Group.Finset.Basic
import Mathlib.Algebra.Order.BigOperators.Group.Finset
import Mathlib.Algebra.Order.Group.Multiset
import Mathlib.Data.Fintype.Basic
import Mathlib.Data.List.Flatten

/-!
# Queues along runs

What is put into a queue comes out in the same order.  A component of a machine
behaves as a queue when every step takes from the front of its contents and puts
at their end; over a whole run, everything taken and what is left are then
everything that was put in.  A queue that may lose some of its contents still
gives the rest in order.
-/

namespace Inet256.Foundation

variable {σ ε ω μ : Type}

section Fifo

variable {step : σ → ε → Option (σ × ω)} {allowed : σ → ε → Prop} {start state : σ}
  {trace : List (ε × ω)} (contents : σ → List μ) (put taken : ε × ω → List μ)

/-- While nothing is lost, everything taken and what is left are everything put in. -/
theorem Runs.fifo (intact : σ → Prop)
    (hnext : ∀ trace state event state' seen, Runs step allowed start trace state →
      allowed state event → step state event = some (state', seen) → intact state' →
      intact state ∧
        taken (event, seen) ++ contents state' = contents state ++ put (event, seen))
    (run : Runs step allowed start trace state) (hintact : intact state) :
    trace.flatMap taken ++ contents state = contents start ++ trace.flatMap put := by
  induction run with
  | refl => simp
  | @next trace before after event seen run hallowed hstep ih =>
      obtain ⟨hbefore, hone⟩ := hnext _ _ _ _ _ run hallowed hstep hintact
      calc (trace ++ [(event, seen)]).flatMap taken ++ contents after
          = trace.flatMap taken ++ (taken (event, seen) ++ contents after) := by simp
        _ = (trace.flatMap taken ++ contents before) ++ put (event, seen) := by
            rw [hone, List.append_assoc]
        _ = contents start ++ (trace ++ [(event, seen)]).flatMap put := by
            rw [ih hbefore]
            simp

/-- Whatever is lost, nothing is taken that was not put in, nor in another order. -/
theorem Runs.fifo_sublist
    (hnext : ∀ trace state event state' seen, Runs step allowed start trace state →
      allowed state event → step state event = some (state', seen) →
      (taken (event, seen) ++ contents state').Sublist (contents state ++ put (event, seen)))
    (run : Runs step allowed start trace state) :
    (trace.flatMap taken ++ contents state).Sublist (contents start ++ trace.flatMap put) := by
  induction run with
  | refl => simp
  | @next trace before after event seen run hallowed hstep ih =>
      have hone := hnext _ _ _ _ _ run hallowed hstep
      have hlast := hone.append_left (trace.flatMap taken)
      rw [← List.append_assoc, ← List.append_assoc] at hlast
      have hboth := hlast.trans (ih.append_right (put (event, seen)))
      simpa using hboth

end Fifo

/-! ## Bounded queues -/

/-- What is known of a queue: its limits, its contents and the messages being handled. -/
structure QueueView (μ : Type) where
  maxLen : Nat
  mtu : Nat
  items : List μ
  handling : Nat
  closed : Bool

namespace QueueView

def empty (maxLen mtu : Nat) : QueueView μ := ⟨maxLen, mtu, [], 0, false⟩

def put (v : QueueView μ) (m : μ) : QueueView μ := { v with items := v.items ++ [m] }

def finish (v : QueueView μ) : QueueView μ := { v with handling := v.handling - 1 }

/-- Room for one more message, those being handled counted. -/
def HasRoom (v : QueueView μ) : Prop := v.items.length + v.handling < v.maxLen

instance (v : QueueView μ) : Decidable v.HasRoom := inferInstanceAs (Decidable (_ < _))

end QueueView

/--
The operations of a queue of messages with a bounded number of buffers, each for
a message of bounded size.  A receiver handles a message in its buffer and gives
the buffer back when it has finished.  Nothing is said of a message too long for
its buffer, nor of how much of its contents a queue loses when it is closed.
-/
structure MessageQueue (μ : Type) (size : μ → Nat) where
  Queue : Type
  new : (maxLen mtu : Nat) → Queue
  /-- Put a message at the end, and whether it was accepted. -/
  deliver : Queue → μ → Queue × Bool
  /-- Take the first message. -/
  receive : Queue → Option (μ × Queue)
  finish : Queue → Queue
  close : Queue → Queue
  view : Queue → QueueView μ
  view_new : ∀ maxLen mtu, view (new maxLen mtu) = .empty maxLen mtu
  view_deliver : ∀ q m, size m ≤ (view q).mtu →
    view (deliver q m).1 = if (deliver q m).2 then (view q).put m else view q
  accepted_of_room : ∀ q m, size m ≤ (view q).mtu → (view q).closed = false →
    (view q).HasRoom → (deliver q m).2 = true
  received_of_ne_nil : ∀ q, (view q).items ≠ [] → (receive q).isSome = true
  view_receive : ∀ q m q', receive q = some (m, q') → ∃ rest, (view q).items = m :: rest ∧
    view q' = { view q with items := rest, handling := (view q).handling + 1 }
  view_finish : ∀ q, view (finish q) = (view q).finish
  view_close : ∀ q, ∃ rest, rest.Sublist (view q).items ∧
    view (close q) = { view q with items := rest, closed := true }

namespace MessageQueue

variable {size : μ → Nat} (Q : MessageQueue μ size)

theorem items_deliver {q : Q.Queue} {m : μ} (h : size m ≤ (Q.view q).mtu) :
    (Q.view (Q.deliver q m).1).items =
      (Q.view q).items ++ if (Q.deliver q m).2 then [m] else [] := by
  rw [Q.view_deliver q m h]
  split <;> simp [QueueView.put]

/-- Putting a message in changes only what the queue holds. -/
theorem deliver_keeps {q : Q.Queue} {m : μ} (h : size m ≤ (Q.view q).mtu) :
    ∃ items, Q.view (Q.deliver q m).1 = { Q.view q with items } := by
  rw [Q.view_deliver q m h]
  split
  · exact ⟨_, rfl⟩
  · exact ⟨_, rfl⟩

/-- An open queue refuses a message only when all its buffers are in use. -/
theorem full_of_refused {q : Q.Queue} {m : μ} (h : size m ≤ (Q.view q).mtu)
    (hopen : (Q.view q).closed = false) (hrefused : (Q.deliver q m).2 = false) :
    (Q.view q).maxLen ≤ (Q.view q).items.length + (Q.view q).handling := by
  by_contra hroom
  rw [Q.accepted_of_room q m h hopen (Nat.lt_of_not_le hroom)] at hrefused
  cases hrefused

/-- A queue that keeps what it has when it is closed, and refuses what is too long. -/
def bounded (size : μ → Nat) : MessageQueue μ size where
  Queue := QueueView μ
  new := QueueView.empty
  deliver q m :=
    if size m ≤ q.mtu ∧ q.closed = false ∧ q.HasRoom then (q.put m, true) else (q, false)
  receive q :=
    match q.items with
    | [] => none
    | m :: rest => some (m, { q with items := rest, handling := q.handling + 1 })
  finish := QueueView.finish
  close q := { q with closed := true }
  view := id
  view_new _ _ := rfl
  view_deliver q m _ := by split <;> rfl
  accepted_of_room q m hsize hopen hroom := by
    rw [if_pos ⟨hsize, hopen, hroom⟩]
  received_of_ne_nil q h := by
    split
    · next hitems => exact absurd hitems h
    · rfl
  view_receive q m q' h := by
    split at h
    · cases h
    · next first rest hitems =>
        cases h
        exact ⟨rest, hitems, rfl⟩
  view_finish _ := rfl
  view_close q := ⟨q.items, List.Sublist.refl _, rfl⟩

end MessageQueue

/-! ## Several queues together -/

section Sums

variable {α β ι : Type}

/-- Where every entry is spread over the parts, so is the whole list. -/
theorem coe_flatMap_eq_sum (parts : Finset ι) {whole : α → List β} {part : ι → α → List β}
    {l : List α}
    (h : ∀ a ∈ l, (whole a : Multiset β) = ∑ i ∈ parts, (part i a : Multiset β)) :
    (l.flatMap whole : Multiset β) = ∑ i ∈ parts, (l.flatMap (part i) : Multiset β) := by
  induction l with
  | nil => simp
  | cons a l ih =>
      have htail := ih fun b hb => h b (List.mem_cons_of_mem a hb)
      simp only [List.flatMap_cons, ← Multiset.coe_add]
      rw [h a List.mem_cons_self, htail, Finset.sum_add_distrib]

theorem sum_coe_ite [DecidableEq ι] {parts : Finset ι} {i : ι} (hi : i ∈ parts) (l : List β) :
    (∑ j ∈ parts, ((if i = j then l else [] : List β) : Multiset β)) = l := by
  rw [Finset.sum_eq_single_of_mem i hi]
  · rw [if_pos rfl]
  · intro j _ hne
    rw [if_neg (Ne.symm hne)]
    rfl

/-- One part changes: what it had goes, and what it has now comes in its place. -/
theorem sum_update_add [Fintype ι] [DecidableEq ι] {M : Type} [AddCommMonoid M]
    (weight : ι → α → M) (f : ι → α) (i : ι) (a : α) :
    ∑ j, weight j (Function.update f i a j) + weight i (f i) =
      ∑ j, weight j (f j) + weight i a := by
  have hothers : ∑ j ∈ Finset.univ.erase i, weight j (Function.update f i a j) =
      ∑ j ∈ Finset.univ.erase i, weight j (f j) := by
    refine Finset.sum_congr rfl fun j hj => ?_
    rw [Function.update_of_ne (Finset.ne_of_mem_erase hj)]
  rw [← Finset.add_sum_erase _ _ (Finset.mem_univ i),
    ← Finset.add_sum_erase _ (fun j => weight j (f j)) (Finset.mem_univ i), hothers,
    Function.update_self, add_comm, add_comm (weight i a), ← add_assoc]

end Sums

end Inet256.Foundation
