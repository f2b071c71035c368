import Inet256.Foundation.Json
import Inet256.Foundation.Runtime
import Inet256.Pki.Codec

/-!
# The peer store

The peers of a node, with the transport addresses each of them is reached at.
Those are given as text wherever they come from outside.
-/

namespace Inet256.Discovery

open Inet256.Foundation
open Inet256.Foundation.Json

/-! ## Transport addresses as text -/

abbrev AddrParser (T : Type) := Bytes → Except String T

def parseAddrs {T : Type} (ap : AddrParser T) : List String → Except String (List T)
  | [] => .ok []
  | x :: xs => do
      let y ← ap (stringBytes x)
      let ys ← parseAddrs ap xs
      return y :: ys

end Inet256.Discovery

namespace Inet256.Peers

open Inet256.Foundation

variable {T : Type}

structure Info (T : Type) where
  addrs : List T
  deriving DecidableEq

abbrev Store (T : Type) := GoMap Addr (Info T)

namespace Store

def add (s : Store T) (id : Addr) : Store T :=
  match s.lookup id with
  | some _ => s
  | none => s.insert id ⟨[]⟩

def remove (s : Store T) (id : Addr) : Store T := s.erase id

def update (s : Store T) (id : Addr) (fn : Info T → Info T) : Store T :=
  match s.lookup id with
  | some info => s.insert id (fn info)
  | none => s

end Store

def setAddrs (s : Store T) (k : Addr) (addrs : List T) : Store T :=
  s.update k fun x => { x with addrs := addrs }

/-! ## Stores behind one another -/

/-- What can be read of a store; the peers are listed in any order. -/
structure View (T : Type) where
  get : Addr → Option (Info T)
  contains : Addr → Bool
  list : Finset Addr

def Store.view (s : Store T) : View T where
  get := s.lookup
  contains id := (s.lookup id).isSome
  list := s.keys

namespace ChainStore

/-- The result so far, and whether any store had the peer. -/
def getStep (id : Addr) (ret : List T × Bool) (s : View T) : List T × Bool :=
  match s.get id with
  | some info => (ret.1 ++ info.addrs, true)
  | none => ret

def get (ps : List (View T)) (id : Addr) : Option (Info T) :=
  let ret := ps.foldl (getStep id) ([], false)
  if ret.2 then some ⟨ret.1⟩ else none

def view (ps : List (View T)) : View T where
  get := get ps
  contains id := ps.any fun s => s.contains id
  list := ps.foldl (fun m s => m ∪ s.list) ∅

/-- The addresses that a store has for a peer, if it has the peer at all. -/
def addrsOf (id : Addr) (s : View T) : List T := ((s.get id).map Info.addrs).getD []

theorem foldl_getStep (id : Addr) (ps : List (View T)) (addrs : List T) (found : Bool) :
    ps.foldl (getStep id) (addrs, found) =
      (addrs ++ ps.flatMap (addrsOf id), found || ps.any fun s => (s.get id).isSome) := by
  induction ps generalizing addrs found with
  | nil => simp
  | cons s ps ih =>
      rw [List.foldl_cons, getStep]
      cases hget : s.get id with
      | none => simp [ih, addrsOf, hget]
      | some info => simp [ih, addrsOf, hget]

theorem get_eq (ps : List (View T)) (id : Addr) :
    get ps id = if ps.any (fun s => (s.get id).isSome) then
      some ⟨ps.flatMap (addrsOf id)⟩ else none := by
  simp [get, foldl_getStep]

theorem mem_foldl_list (id : Addr) (ps : List (View T)) (m : Finset Addr) :
    id ∈ ps.foldl (fun m s => m ∪ s.list) m ↔ id ∈ m ∨ ∃ s ∈ ps, id ∈ s.list := by
  induction ps generalizing m with
  | nil => simp
  | cons s ps ih =>
      rw [List.foldl_cons, ih, Finset.mem_union, List.exists_mem_cons_iff, or_assoc]

end ChainStore

/-- The three ways to ask for a peer agree. -/
structure View.Agrees (s : View T) : Prop where
  contains : ∀ id, s.contains id = (s.get id).isSome
  list : ∀ id, id ∈ s.list ↔ (s.get id).isSome = true

theorem Store.agrees (s : Store T) : s.view.Agrees where
  contains _ := rfl
  list id := by
    rw [Option.isSome_iff_exists]
    exact Finmap.mem_keys.trans Finmap.mem_iff

theorem ChainStore.agrees {ps : List (View T)} (h : ∀ s ∈ ps, s.Agrees) :
    (ChainStore.view ps).Agrees := by
  have hget : ∀ id, ((ChainStore.view ps).get id).isSome = ps.any fun s => (s.get id).isSome := by
    intro id
    change (ChainStore.get ps id).isSome = _
    rw [get_eq]
    split
    · next hany => exact hany.symm
    · next hany => exact (Bool.eq_false_iff.mpr hany).symm
  constructor
  · intro id
    change (ps.any fun s => s.contains id) = _
    rw [hget, Bool.eq_iff_iff, List.any_eq_true, List.any_eq_true]
    refine exists_congr fun s => and_congr_right fun hs => ?_
    rw [(h s hs).contains]
  · intro id
    rw [hget, List.any_eq_true]
    refine (mem_foldl_list id ps ∅).trans ?_
    simp only [Finset.notMem_empty, false_or]
    exact exists_congr fun s => and_congr_right fun hs => (h s hs).list id

end Inet256.Peers
