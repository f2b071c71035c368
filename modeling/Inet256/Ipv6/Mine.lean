import Inet256.Foundation.Runs
import Inet256.Ipv6.AddrMap
import Inet256.Pki.Signature

/-!
# Mining addresses

`MineAddr` lets workers generate keys until one of them has an address with
enough leading zeros, or until it is cancelled.  Every worker keeps the best
address it has seen, beginning with one that no key belongs to.  When all
workers have returned, the best of their addresses is looked for.
-/

namespace Inet256.Ipv6

open Inet256.Foundation
open Inet256.Bitstr
open Inet256.Crypto

variable {P : Primitives}

def checkEvery : Nat := 1000

/-- What is relied on of `kademlia`: it counts the leading zero bits of an address. -/
structure Kademlia where
  leadingZeros : Bytes → Int
  leadingZeros_addr : ∀ a : Addr, leadingZeros a.toList = addrZeros a

def leading0s (K : Kademlia) (x : Bytes) : Int := K.leadingZeros x

theorem leading0s_addr (K : Kademlia) (a : Addr) : leading0s K a.toList = addrZeros a :=
  K.leadingZeros_addr a

def allOnes : Addr := List.Vector.replicate 32 0xff

theorem addrZeros_allOnes : addrZeros allOnes = 0 := by
  decide +kernel

/-! ## The workers -/

inductive WorkerPhase where
  /-- The next round of the inner loop is round `j`. -/
  | searching (j : Nat)
  | returned (err : Option String)
  deriving DecidableEq

/-- A worker with its elements of `addrs` and `privKeys`. -/
structure Worker (P : Primitives) where
  addr : Addr
  privKey : Option (PrivateKey P)
  phase : WorkerPhase

inductive WorkerEvent (P : Primitives) where
  /-- `GenerateKey` returns. -/
  | generate (answer : Except String (PublicKey P × PrivateKey P))
  | check

namespace Worker

def start : Worker P := ⟨allOnes, none, .searching 0⟩

/-- Round `j` with a new key. -/
def consider (K : Kademlia) (goal : Int) (w : Worker P) (j : Nat) (addr : Addr)
    (privKey : PrivateKey P) : Worker P :=
  if leading0s K addr.toList > leading0s K w.addr.toList then
    if leading0s K addr.toList ≥ goal then ⟨addr, some privKey, .returned none⟩
    else ⟨addr, some privKey, .searching (j + 1)⟩
  else { w with phase := .searching (j + 1) }

/-- `done` is the error of the context, if it is done. -/
def step (K : Kademlia) (goal : Int) (done : Option String) (w : Worker P) :
    WorkerEvent P → Option (Worker P)
  | .generate answer =>
      match w.phase with
      | .returned _ => none
      | .searching j =>
          if j < checkEvery then
            match answer with
            -- the worker panics
            | .error _ => none
            | .ok (pubKey, privKey) =>
                match newID pubKey with
                | .error _ => none
                | .ok addr => some (w.consider K goal j addr privKey)
          else none
  | .check =>
      match w.phase with
      | .returned _ => none
      | .searching j =>
          if j < checkEvery then none
          else
            match done with
            | some err => some { w with phase := .returned (some err) }
            | none => some { w with phase := .searching 0 }

end Worker

structure Mine (P : Primitives) where
  workers : List (Worker P)
  done : Option String
  /-- The first error that a worker has returned. -/
  err : Option String

inductive MineEvent (P : Primitives) where
  | worker (i : Nat) (event : WorkerEvent P)
  /-- The context of the caller is done. -/
  | cancel (err : String)

/-- What `MineAddr` returns. -/
structure Mined (P : Primitives) where
  addr : Addr
  privKey : Option (PrivateKey P)
  err : Option String

/-- The final loop over `addrs`, from index `i` on. -/
def pickLoop (K : Kademlia) (goal : Int) :
    List Addr → (i : Nat) → (maxLz : Int) → (maxI : Nat) → Nat
  | [], _, _, maxI => maxI
  | addr :: addrs, i, maxLz, maxI =>
      let lz := leading0s K addr.toList
      if lz < goal then pickLoop K goal addrs (i + 1) maxLz maxI
      else if lz > maxLz then pickLoop K goal addrs (i + 1) lz i
      else pickLoop K goal addrs (i + 1) maxLz maxI

namespace Mine

def start (n : Nat) : Mine P := ⟨List.replicate n .start, none, none⟩

/-- A worker goes on; if it returns nil it has called `cf`, and `eg` keeps the first error. -/
def replace (m : Mine P) (i : Nat) (w : Worker P) : Mine P where
  workers := m.workers.set i w
  done := match w.phase with
    | .returned none => m.done.or (some "context canceled")
    | _ => m.done
  err := match w.phase with
    | .returned (some err) => m.err.or (some err)
    | _ => m.err

def step (K : Kademlia) (goal : Int) (m : Mine P) : MineEvent P → Option (Mine P × Unit)
  | .worker i event => do
      let w ← m.workers[i]?
      let w' ← w.step K goal m.done event
      return (m.replace i w', ())
  | .cancel err =>
      match m.done with
      | some _ => none
      | none => some ({ m with done := some err }, ())

/-- A generated public key is the one of the private key. -/
def lawfulKeys (_ : Mine P) : MineEvent P → Prop
  | .worker _ (.generate (.ok (pubKey, privKey))) => pubKey = privKey.public
  | _ => True

def finish (K : Kademlia) (goal : Int) (m : Mine P) : Mined P :=
  let addrs := m.workers.map Worker.addr
  let maxI := pickLoop K goal addrs 0 (-1) addrs.length
  match m.workers[maxI]? with
  | some w => ⟨w.addr, w.privKey, none⟩
  | none => ⟨List.Vector.replicate 32 0, none, m.err⟩

end Mine

def WorkerPhase.isReturned : WorkerPhase → Bool
  | .searching _ => false
  | .returned _ => true

/-- `eg.Wait` returns when all workers have returned. -/
def Mine.mineAddr (K : Kademlia) (goal : Int) (m : Mine P) : Option (Mined P) :=
  if m.workers.all fun w => w.phase.isReturned then some (m.finish K goal) else none

/-! ## The final loop -/

/-- What the loop has found among the addresses before its index. -/
structure Picked (goal : Int) (addrs : List Addr) (len maxI : Nat) (maxLz : Int) : Prop where
  found : (maxI = len ∧ maxLz = -1) ∨
    ∃ addr, addrs[maxI]? = some addr ∧ maxLz = addrZeros addr ∧ goal ≤ maxLz
  most : ∀ addr ∈ addrs, goal ≤ addrZeros addr → (addrZeros addr : Int) ≤ maxLz

theorem picked_nil (goal : Int) (n : Nat) : Picked goal [] n n (-1) where
  found := Or.inl ⟨rfl, rfl⟩
  most := by simp

variable {K : Kademlia} {goal maxLz : Int} {addrs : List Addr} {addr : Addr} {n maxI : Nat}

theorem Picked.keep (h : Picked goal addrs n maxI maxLz)
    (haddr : goal ≤ addrZeros addr → (addrZeros addr : Int) ≤ maxLz) :
    Picked goal (addrs ++ [addr]) n maxI maxLz where
  found := by
    rcases h.found with hnone | ⟨best, hbest, hfound⟩
    · exact Or.inl hnone
    · exact Or.inr ⟨best, getElem?_concat_of_some hbest, hfound⟩
  most := by
    intro other hother
    rcases List.mem_append.mp hother with hother | hother
    · exact h.most other hother
    · rw [List.mem_singleton.mp hother]
      exact haddr

theorem Picked.take (h : Picked goal addrs n maxI maxLz) (hgoal : goal ≤ addrZeros addr)
    (hmore : maxLz < addrZeros addr) :
    Picked goal (addrs ++ [addr]) n addrs.length (addrZeros addr) where
  found := Or.inr ⟨addr, by simp, rfl, hgoal⟩
  most := by
    intro other hother hother'
    rcases List.mem_append.mp hother with hother | hother
    · exact (h.most other hother hother').trans hmore.le
    · rw [List.mem_singleton.mp hother]

theorem pickLoop_picked (rest : List Addr) (h : Picked goal addrs n maxI maxLz) :
    ∃ maxLz', Picked goal (addrs ++ rest) n (pickLoop K goal rest addrs.length maxLz maxI)
      maxLz' := by
  induction rest generalizing addrs maxI maxLz with
  | nil => exact ⟨maxLz, by simpa [pickLoop] using h⟩
  | cons addr rest ih =>
      -- the invariant speaks of the addresses before the index
      have hnext : addrs.length + 1 = (addrs ++ [addr]).length := by simp
      rw [pickLoop, hnext, List.append_cons, leading0s_addr]
      split
      · next hless => exact ih (h.keep fun hgoal => absurd hgoal (not_le.mpr hless))
      · next hgoal =>
          split
          · next hmore => exact ih (h.take (not_lt.mp hgoal) hmore)
          · next hmore => exact ih (h.keep fun _ => not_lt.mp hmore)

theorem pickLoop_all (K : Kademlia) (goal : Int) (addrs : List Addr) :
    ∃ maxLz, Picked goal addrs addrs.length (pickLoop K goal addrs 0 (-1) addrs.length) maxLz :=
  pickLoop_picked addrs (picked_nil goal addrs.length)

namespace Mine

theorem finish_cases (K : Kademlia) (goal : Int) (m : Mine P) :
    (∃ w ∈ m.workers, m.finish K goal = ⟨w.addr, w.privKey, none⟩ ∧
      goal ≤ addrZeros w.addr ∧
      ∀ other ∈ m.workers, addrZeros other.addr ≤ addrZeros w.addr) ∨
    (m.finish K goal = ⟨List.Vector.replicate 32 0, none, m.err⟩ ∧
      ∀ w ∈ m.workers, (addrZeros w.addr : Int) < goal) := by
  obtain ⟨maxLz, hpicked⟩ := pickLoop_all K goal (m.workers.map Worker.addr)
  have hmost : ∀ w ∈ m.workers, goal ≤ addrZeros w.addr →
      (addrZeros w.addr : Int) ≤ maxLz :=
    fun w hw => hpicked.most w.addr (List.mem_map_of_mem hw)
  rcases hpicked.found with ⟨hnone, rfl⟩ | ⟨addr, haddr, rfl, hgoal⟩
  · right
    have hlookup : m.workers[(m.workers.map Worker.addr).length]? = none := by simp
    refine ⟨by simp only [finish, hnone, hlookup], ?_⟩
    intro w hw
    have := hmost w hw
    omega
  · left
    rw [List.getElem?_map] at haddr
    obtain ⟨w, hw, rfl⟩ := Option.map_eq_some_iff.mp haddr
    refine ⟨w, List.mem_of_getElem? hw, by simp only [finish, hw], hgoal, ?_⟩
    intro other hother
    have := hmost other hother
    omega

end Mine

/-! ## One round -/

variable {w w' : Worker P} {done : Option String} {event : WorkerEvent P}

theorem Worker.consider_eq (K : Kademlia) (goal : Int) (w : Worker P) (j : Nat) (addr : Addr)
    (key : PrivateKey P) :
    w.consider K goal j addr key =
      if addrZeros w.addr < addrZeros addr then
        if goal ≤ addrZeros addr then ⟨addr, some key, .returned none⟩
        else ⟨addr, some key, .searching (j + 1)⟩
      else { w with phase := .searching (j + 1) } := by
  simp only [Worker.consider, leading0s_addr, gt_iff_lt, ge_iff_le, Int.ofNat_lt]

/-- A worker adopts a better address, with which it returns if that meets the goal, or keeps the
one it has. -/
inductive Worker.Moves (goal : Int) (w w' : Worker P) : WorkerEvent P → Prop
  | adopts (pubKey : PublicKey P) (privKey : PrivateKey P) (addr : Addr)
      (hid : newID pubKey = .ok addr) (hmore : addrZeros w.addr < addrZeros addr)
      (haddr : w'.addr = addr) (hkey : w'.privKey = some privKey)
      (hphase : w'.phase = .returned none ↔ goal ≤ addrZeros addr) :
      Moves goal w w' (.generate (.ok (pubKey, privKey)))
  | passes (pubKey : PublicKey P) (privKey : PrivateKey P) (addr : Addr)
      (hid : newID pubKey = .ok addr) (hless : addrZeros addr ≤ addrZeros w.addr)
      (haddr : w'.addr = w.addr) (hkey : w'.privKey = w.privKey)
      (hphase : w'.phase ≠ .returned none) :
      Moves goal w w' (.generate (.ok (pubKey, privKey)))
  | checks (haddr : w'.addr = w.addr) (hkey : w'.privKey = w.privKey)
      (hphase : w'.phase ≠ .returned none) : Moves goal w w' .check

theorem Worker.moves_of_consider {j : Nat} {pubKey : PublicKey P} {privKey : PrivateKey P}
    (hid : newID pubKey = .ok addr) :
    Worker.Moves goal w (w.consider K goal j addr privKey)
      (.generate (.ok (pubKey, privKey))) := by
  rw [Worker.consider_eq]
  split
  · next hmore =>
      split
      · next hgoal => exact .adopts pubKey privKey addr hid hmore rfl rfl (by simp [hgoal])
      · next hgoal => exact .adopts pubKey privKey addr hid hmore rfl rfl (by simp [hgoal])
  · next hmore => exact .passes pubKey privKey addr hid (not_lt.mp hmore) rfl rfl (by simp)

theorem Worker.moves_of_step (h : w.step K goal done event = some w') :
    Worker.Moves goal w w' event := by
  cases event with
  | generate answer =>
      simp only [Worker.step] at h
      split at h
      · cases h
      · split at h
        · split at h
          · cases h
          · split at h
            · cases h
            · next hid =>
                cases h
                exact Worker.moves_of_consider hid
        · cases h
  | check =>
      simp only [Worker.step] at h
      split at h
      · cases h
      · split at h
        · cases h
        · split at h
          · cases h
            exact .checks rfl rfl (by simp)
          · cases h
            exact .checks rfl rfl (by simp)

/-- The best addresses only get better. -/
theorem Worker.Moves.addrZeros_le (h : Worker.Moves goal w w' event) :
    addrZeros w.addr ≤ addrZeros w'.addr := by
  cases h with
  | adopts _ _ _ _ hmore haddr =>
      rw [haddr]
      exact hmore.le
  | passes _ _ _ _ _ haddr => rw [haddr]
  | checks haddr => rw [haddr]

/-! ## What the workers hold -/

/-- The placeholder without a key, or the address of a key with a leading zero. -/
def Worker.Candidate (w : Worker P) : Prop :=
  (w.privKey = none ∧ w.addr = allOnes) ∨
    ∃ key, w.privKey = some key ∧ newID key.public = .ok w.addr ∧ 0 < addrZeros w.addr

theorem Worker.Candidate.key_of_pos {w : Worker P} (h : w.Candidate)
    (hpos : 0 < addrZeros w.addr) :
    ∃ key, w.privKey = some key ∧ newID key.public = .ok w.addr := by
  rcases h with ⟨-, haddr⟩ | ⟨key, hkey, hid, -⟩
  · rw [haddr, addrZeros_allOnes] at hpos
    exact absurd hpos (lt_irrefl 0)
  · exact ⟨key, hkey, hid⟩

theorem Worker.Candidate.pos_of_key {w : Worker P} (h : w.Candidate) {key : PrivateKey P}
    (hkey : w.privKey = some key) : 0 < addrZeros w.addr := by
  rcases h with ⟨hnone, -⟩ | ⟨-, -, -, hpos⟩
  · cases hkey.symm.trans hnone
  · exact hpos

structure Worker.Sound (goal : Int) (w : Worker P) : Prop where
  candidate : w.Candidate
  reached : w.phase = .returned none → goal ≤ addrZeros w.addr

theorem Worker.sound_start : (Worker.start : Worker P).Sound goal where
  candidate := Or.inl ⟨rfl, rfl⟩
  reached := by simp [Worker.start]

/-- A worker holds what it has adopted, and returns with it only if it meets the goal. -/
theorem Worker.Sound.moves (sound : w.Sound goal)
    (hkeys : ∀ pubKey privKey, event = .generate (.ok (pubKey, privKey)) →
      pubKey = privKey.public)
    (h : Worker.Moves goal w w' event) : w'.Sound goal := by
  have hkeeps : w'.addr = w.addr → w'.privKey = w.privKey → w'.Candidate := by
    intro haddr hkey
    rw [Worker.Candidate, haddr, hkey]
    exact sound.candidate
  cases h with
  | adopts pubKey privKey addr hid hmore haddr hkey hphase =>
      rw [hkeys pubKey privKey rfl] at hid
      refine ⟨Or.inr ⟨privKey, hkey, ?_, ?_⟩, ?_⟩
      · rw [haddr]
        exact hid
      · rw [haddr]
        exact Nat.zero_lt_of_lt hmore
      · rw [haddr]
        exact hphase.mp
  | passes _ _ _ _ _ haddr hkey hphase =>
      exact ⟨hkeeps haddr hkey, fun hreturned => absurd hreturned hphase⟩
  | checks haddr hkey hphase =>
      exact ⟨hkeeps haddr hkey, fun hreturned => absurd hreturned hphase⟩

/-! ## What was tried -/

/-- The address and the key of a round, if there is one. -/
def MineEvent.candidate : MineEvent P → Option (Addr × PrivateKey P)
  | .worker _ (.generate (.ok (pubKey, privKey))) =>
      (newID pubKey).toOption.map fun addr => (addr, privKey)
  | _ => none

/-- All addresses that were looked at, by any of the workers. -/
def tried (trace : List (MineEvent P × Unit)) : List (Addr × PrivateKey P) :=
  trace.filterMap fun entry => entry.1.candidate

theorem tried_concat (trace : List (MineEvent P × Unit)) (event : MineEvent P) (seen : Unit) :
    tried (trace ++ [(event, seen)]) = tried trace ++ event.candidate.toList := by
  rw [tried, List.filterMap_append]
  cases h : event.candidate <;> simp [tried, h]

namespace Mine

structure Sound (goal : Int) (n : Nat) (m : Mine P) : Prop where
  length : m.workers.length = n
  workers : ∀ w ∈ m.workers, w.Sound goal
  /-- The error of a worker is not lost. -/
  err : ∀ w ∈ m.workers, ∀ err, w.phase = .returned (some err) → m.err ≠ none

variable {m m' : Mine P} {trace : List (MineEvent P × Unit)}

theorem sound_start : (start n : Mine P).Sound goal n where
  length := by simp [start]
  workers := by
    intro w hw
    obtain rfl := List.eq_of_mem_replicate hw
    exact Worker.sound_start
  err := by
    intro w hw
    obtain rfl := List.eq_of_mem_replicate hw
    simp [Worker.start]

theorem Sound.replace (sound : m.Sound goal n) (i : Nat) (hw : w.Sound goal) :
    (m.replace i w).Sound goal n where
  length := by simpa [Mine.replace] using sound.length
  workers := by
    intro other hother
    rcases List.mem_or_eq_of_mem_set hother with hother | rfl
    · exact sound.workers other hother
    · exact hw
  err := by
    intro other hother err hphase
    unfold Mine.replace
    dsimp only
    rcases List.mem_or_eq_of_mem_set hother with hother | rfl
    · have hold := sound.err other hother err hphase
      split
      · intro hnone
        exact hold (Option.or_eq_none_iff.mp hnone).1
      · exact hold
    · simp [hphase]

theorem step_worker {i : Nat} {event : WorkerEvent P} {seen : Unit}
    (h : m.step K goal (.worker i event) = some (m', seen)) :
    ∃ w w', m.workers[i]? = some w ∧ w.step K goal m.done event = some w' ∧
      m' = m.replace i w' := by
  simp only [step, Option.bind_eq_bind, Option.bind_eq_some_iff, Option.pure_def,
    Option.some.injEq, Prod.mk.injEq] at h
  obtain ⟨w, hw, w', hw', rfl, -⟩ := h
  exact ⟨w, w', hw, hw', rfl⟩

theorem Sound.step {event : MineEvent P} {seen : Unit} (sound : m.Sound goal n)
    (hlawful : m.lawfulKeys event) (h : m.step K goal event = some (m', seen)) :
    m'.Sound goal n := by
  cases event with
  | worker i event =>
      obtain ⟨w, w', hw, hstep, rfl⟩ := step_worker h
      have hsound := sound.workers w (List.mem_of_getElem? hw)
      refine sound.replace i (hsound.moves ?_ (Worker.moves_of_step hstep))
      rintro pubKey privKey rfl
      exact hlawful
  | cancel err =>
      simp only [Mine.step] at h
      split at h
      · cases h
      · cases h
        exact ⟨sound.length, sound.workers, sound.err⟩

theorem sound_of_run (run : Runs (step K goal) lawfulKeys (start n) trace m) : m.Sound goal n :=
  run.invariant sound_start fun _ _ _ _ sound hlawful hstep => sound.step hlawful hstep

/-- Workers that all return, none of them with an error, have all reached the goal. -/
theorem Sound.eq_nil (sound : m.Sound goal n)
    (hreturned : ∀ w ∈ m.workers, w.phase.isReturned = true) (herr : m.err = none)
    (hbelow : ∀ w ∈ m.workers, (addrZeros w.addr : Int) < goal) : m.workers = [] := by
  rw [List.eq_nil_iff_forall_not_mem]
  intro w hw
  cases hphase : w.phase with
  | searching j =>
      have := hreturned w hw
      simp [hphase, WorkerPhase.isReturned] at this
  | returned err =>
      cases err with
      | none => exact absurd ((sound.workers w hw).reached hphase) (not_le.mpr (hbelow w hw))
      | some err => exact sound.err w hw err hphase herr

structure Kept (goal : Int) (trace : List (MineEvent P × Unit)) (m : Mine P) : Prop where
  better : ∀ entry ∈ tried trace, ∃ w ∈ m.workers,
    addrZeros entry.1 ≤ addrZeros w.addr
  held : ∀ w ∈ m.workers, ∀ key, w.privKey = some key → (w.addr, key) ∈ tried trace
  met : ∀ w ∈ m.workers, w.privKey.isSome = true → goal ≤ addrZeros w.addr →
    m.done ≠ none

theorem kept_start : Kept goal [] (start n : Mine P) := by
  constructor
  · simp [tried]
  all_goals
    intro w hw
    obtain rfl := List.eq_of_mem_replicate hw
    simp [Worker.start]

theorem done_replace (i : Nat) (h : m.done ≠ none) : (m.replace i w).done ≠ none := by
  unfold Mine.replace
  dsimp only
  split
  · simp
  · exact h

theorem done_replace_of_returned (i : Nat) (h : w.phase = .returned none) :
    (m.replace i w).done ≠ none := by
  simp [Mine.replace, h]

/-- Replacing a worker by one with a better address loses no address. -/
theorem exists_mem_set {workers : List (Worker P)} {i : Nat} (hw : workers[i]? = some w)
    (hle : addrZeros w.addr ≤ addrZeros w'.addr) {zeros : Nat}
    (h : ∃ other ∈ workers, zeros ≤ addrZeros other.addr) :
    ∃ other ∈ workers.set i w', zeros ≤ addrZeros other.addr := by
  obtain ⟨other, hother, hzeros⟩ := h
  obtain ⟨j, hj⟩ := List.mem_iff_getElem?.mp hother
  have hi : i < workers.length := (List.getElem?_eq_some_iff.mp hw).1
  rcases eq_or_ne i j with rfl | hne
  · cases hw.symm.trans hj
    exact ⟨w', List.mem_set hi w', hzeros.trans hle⟩
  · refine ⟨other, List.mem_iff_getElem?.mpr ⟨j, ?_⟩, hzeros⟩
    rw [List.getElem?_set_ne hne, hj]

theorem Kept.worker {i : Nat} {event : WorkerEvent P} (kept : Kept goal trace m)
    (hw : m.workers[i]? = some w) (moves : Worker.Moves goal w w' event) (seen : Unit) :
    Kept goal (trace ++ [(.worker i event, seen)]) (m.replace i w') where
  better := by
    have hi : i < m.workers.length := (List.getElem?_eq_some_iff.mp hw).1
    intro entry hentry
    rw [tried_concat] at hentry
    rcases List.mem_append.mp hentry with hold | hnew
    · exact exists_mem_set hw moves.addrZeros_le (kept.better entry hold)
    · refine ⟨w', List.mem_set hi w', ?_⟩
      cases moves with
      | adopts pubKey privKey addr hid _ haddr =>
          obtain rfl : (addr, privKey) = entry := by
            simpa [MineEvent.candidate, hid, Except.toOption, eq_comm] using hnew
          rw [haddr]
      | passes pubKey privKey addr hid hless haddr =>
          obtain rfl : (addr, privKey) = entry := by
            simpa [MineEvent.candidate, hid, Except.toOption, eq_comm] using hnew
          rw [haddr]
          exact hless
      | checks => simp [MineEvent.candidate] at hnew
  held := by
    intro other hother key hkey
    rw [tried_concat, List.mem_append]
    rcases List.mem_or_eq_of_mem_set hother with hold | rfl
    · exact Or.inl (kept.held other hold key hkey)
    · cases moves with
      | adopts pubKey privKey addr hid _ haddr hadopted =>
          obtain rfl : privKey = key := Option.some.inj (hadopted.symm.trans hkey)
          exact Or.inr (by simp [MineEvent.candidate, hid, Except.toOption, haddr])
      | passes _ _ _ _ _ haddr hsame =>
          rw [haddr]
          exact Or.inl (kept.held w (List.mem_of_getElem? hw) key (hsame.symm.trans hkey))
      | checks haddr hsame =>
          rw [haddr]
          exact Or.inl (kept.held w (List.mem_of_getElem? hw) key (hsame.symm.trans hkey))
  met := by
    intro other hother hkey hgoal
    rcases List.mem_or_eq_of_mem_set hother with hold | rfl
    · exact done_replace i (kept.met other hold hkey hgoal)
    · cases moves with
      | adopts _ _ _ _ _ haddr _ hreturns =>
          rw [haddr] at hgoal
          exact done_replace_of_returned i (hreturns.mpr hgoal)
      | passes _ _ _ _ _ haddr hsame =>
          rw [haddr] at hgoal
          rw [hsame] at hkey
          exact done_replace i (kept.met w (List.mem_of_getElem? hw) hkey hgoal)
      | checks haddr hsame =>
          rw [haddr] at hgoal
          rw [hsame] at hkey
          exact done_replace i (kept.met w (List.mem_of_getElem? hw) hkey hgoal)

theorem Kept.step {event : MineEvent P} {seen : Unit} (kept : Kept goal trace m)
    (h : m.step K goal event = some (m', seen)) : Kept goal (trace ++ [(event, seen)]) m' := by
  cases event with
  | worker i event =>
      obtain ⟨w, w', hw, hstep, rfl⟩ := step_worker h
      exact kept.worker hw (Worker.moves_of_step hstep) seen
  | cancel err =>
      simp only [Mine.step] at h
      split at h
      · cases h
      · cases h
        have htried : tried (trace ++ [(MineEvent.cancel err, ())]) = tried trace := by
          simp [tried_concat, MineEvent.candidate]
        refine ⟨?_, ?_, fun _ _ _ _ => nofun⟩
        · rw [htried]
          exact kept.better
        · rw [htried]
          exact kept.held

theorem kept_of_run (run : Runs (step K goal) lawfulKeys (start n) trace m) : Kept goal trace m :=
  run.history kept_start fun _ _ _ _ _ _ kept _ hstep => kept.step hstep

/-- The workers hold an address with a leading zero exactly if one was tried. -/
theorem Kept.exists_pos_iff (kept : Kept goal trace m) (sound : m.Sound goal n) :
    (∃ w ∈ m.workers, 0 < addrZeros w.addr) ↔ ∃ entry ∈ tried trace, 0 < addrZeros entry.1 := by
  constructor
  · rintro ⟨w, hw, hpos⟩
    obtain ⟨key, hkey, -⟩ := (sound.workers w hw).candidate.key_of_pos hpos
    exact ⟨(w.addr, key), kept.held w hw key hkey, hpos⟩
  · rintro ⟨entry, hentry, hpos⟩
    obtain ⟨w, hw, hle⟩ := kept.better entry hentry
    exact ⟨w, hw, hpos.trans_le hle⟩

/-! ## The result -/

/-- The key belongs to the address, which has enough zeros and as many as any worker's. -/
structure Usable (goal : Int) (m : Mine P) (r : Mined P) : Prop where
  key : ∃ key, r.privKey = some key ∧ newID key.public = .ok r.addr
  enough : goal ≤ addrZeros r.addr
  most : ∀ w ∈ m.workers, addrZeros w.addr ≤ addrZeros r.addr

/--
Where `MineAddr` returns no error, the result is usable exactly if some worker has generated a
key whose address has a leading zero.
-/
theorem mineAddr_usable_iff (run : Runs (step K goal) lawfulKeys (start n) trace m) {r : Mined P}
    (hreturn : m.mineAddr K goal = some r) (hnil : r.err = none) :
    (Usable goal m r ↔ ∃ entry ∈ tried trace, 0 < addrZeros entry.1) ∧
      (1 ≤ goal → 0 < n → Usable goal m r) := by
  have sound := sound_of_run run
  rw [← (kept_of_run run).exists_pos_iff sound]
  unfold mineAddr at hreturn
  split at hreturn
  · next hall =>
      obtain rfl := Option.some.inj hreturn
      rcases m.finish_cases K goal with ⟨w, hw, hfinish, hgoal, hmost⟩ | ⟨hfinish, hbelow⟩
      · rw [hfinish]
        have hcandidate := (sound.workers w hw).candidate
        -- the worker's address is usable if it is not the placeholder
        have husable : 0 < addrZeros w.addr →
            Usable goal m ⟨w.addr, w.privKey, none⟩ :=
          fun hpos => ⟨hcandidate.key_of_pos hpos, hgoal, hmost⟩
        refine ⟨⟨?_, ?_⟩, fun hone _ => husable (by omega)⟩
        · rintro ⟨⟨key, hkey, -⟩, -, -⟩
          exact ⟨w, hw, hcandidate.pos_of_key hkey⟩
        · rintro ⟨other, hother, hpos⟩
          exact husable (hpos.trans_le (hmost other hother))
      · rw [hfinish] at hnil ⊢
        -- no address meets the goal, so a nil error means that there was no worker
        have hnone : m.workers = [] := sound.eq_nil (by simpa using hall) hnil hbelow
        have hzero : n = 0 := by rw [← sound.length, hnone, List.length_nil]
        refine ⟨⟨?_, ?_⟩, fun _ hpos => absurd hpos (by omega)⟩
        · rintro ⟨⟨key, hkey, -⟩, -, -⟩
          cases hkey
        · rintro ⟨w, hw, -⟩
          rw [hnone] at hw
          cases hw
  · cases hreturn

/-! ### One worker -/

/-- Primitives whose hash begins with the byte of the key. -/
def minePrimitives : Primitives :=
  { samplePrimitives with shake256 := fun input n => copyTo n input.reverse }

def sampleKademlia : Kademlia where
  leadingZeros x := leadingZeros (msbOrder.bits x 256)
  leadingZeros_addr _ := rfl

def mineKey (byte : UInt8) : PrivateKey minePrimitives := .base (false, byte)

def mineAddrOf (byte : UInt8) : Addr := copyTo 32 (byte :: (writeTag [] signAlgoEd25519).reverse)

def mineKeyEvent (byte : UInt8) : MineEvent minePrimitives :=
  .worker 0 (.generate (.ok ((mineKey byte).public, mineKey byte)))

theorem newID_mineKey (byte : UInt8) : newID (mineKey byte).public = .ok (mineAddrOf byte) := rfl

theorem mineAddr_usable_iff_sample :
    ∃ m, Runs (step sampleKademlia 7) lawfulKeys (start 1) [(mineKeyEvent 1, ())] m ∧
      m.mineAddr sampleKademlia 7 = some ⟨mineAddrOf 1, some (mineKey 1), none⟩ ∧
      Usable 7 m ⟨mineAddrOf 1, some (mineKey 1), none⟩ := by
  have hzeros : addrZeros (mineAddrOf 1) = 7 := by decide +kernel
  have hstep : step sampleKademlia 7 (start 1) (mineKeyEvent 1) =
      some (⟨[⟨mineAddrOf 1, some (mineKey 1), .returned none⟩], some "context canceled", none⟩,
        ()) := by
    simp [step, start, Worker.start, mineKeyEvent, Worker.step, checkEvery, newID_mineKey,
      Worker.consider_eq, addrZeros_allOnes, hzeros, replace]
  have hreturn : mineAddr sampleKademlia 7 (⟨[⟨mineAddrOf 1, some (mineKey 1), .returned none⟩],
      some "context canceled", none⟩ : Mine minePrimitives) =
      some ⟨mineAddrOf 1, some (mineKey 1), none⟩ := by
    simp [mineAddr, WorkerPhase.isReturned, finish, pickLoop, leading0s_addr, hzeros]
  have run : Runs (step sampleKademlia 7) lawfulKeys (start 1) [(mineKeyEvent 1, ())] _ :=
    .single rfl hstep
  exact ⟨_, run, hreturn, (mineAddr_usable_iff run hreturn rfl).2 (by decide) (by decide)⟩

/-- Rounds whose addresses have no leading zero leave the placeholder. -/
theorem runs_without_zeros (goal : Int) (k : Nat) (h : k ≤ checkEvery) :
    Runs (step sampleKademlia goal) lawfulKeys (start 1) (List.replicate k (mineKeyEvent 255, ()))
      ⟨[⟨allOnes, none, .searching k⟩], none, none⟩ := by
  have hzeros : addrZeros (mineAddrOf 255) = 0 := by decide +kernel
  induction k with
  | zero => exact .refl
  | succ k ih =>
      have hlt : k < checkEvery := h
      rw [List.replicate_succ']
      refine (ih hlt.le).next rfl ?_
      simp [step, mineKeyEvent, Worker.step, hlt, newID_mineKey, Worker.consider_eq, hzeros,
        replace]

/-- Any address meets the goal 0, also the placeholder, which no key belongs to. -/
theorem mineAddr_without_key :
    ∃ trace m, Runs (step sampleKademlia 0) lawfulKeys (start 1 : Mine minePrimitives) trace m ∧
      m.mineAddr sampleKademlia 0 = some ⟨allOnes, none, none⟩ ∧
      ¬ Usable 0 m ⟨allOnes, none, none⟩ := by
  have hcancel : step sampleKademlia 0 (⟨[⟨allOnes, none, .searching checkEvery⟩], none, none⟩ :
      Mine minePrimitives) (.cancel "context canceled") =
      some (⟨[⟨allOnes, none, .searching checkEvery⟩], some "context canceled", none⟩, ()) := rfl
  have hcheck : step sampleKademlia 0 (⟨[⟨allOnes, none, .searching checkEvery⟩],
      some "context canceled", none⟩ : Mine minePrimitives) (.worker 0 .check) =
      some (⟨[⟨allOnes, none, .returned (some "context canceled")⟩], some "context canceled",
        some "context canceled"⟩, ()) := by
    simp [step, Worker.step, replace]
  have hrounds := runs_without_zeros 0 checkEvery le_rfl
  have hcancelled := hrounds.next (by trivial) hcancel
  refine ⟨_, _, hcancelled.next (by trivial) hcheck, ?_, ?_⟩
  · simp [mineAddr, WorkerPhase.isReturned, finish, pickLoop, leading0s_addr, addrZeros_allOnes]
  · rintro ⟨⟨key, hkey, -⟩, -, -⟩
    cases hkey

end Mine

/-! ## The end of the search -/

/-- The rounds that a worker takes at most before it returns, once the context is done. -/
def Worker.stepsLeft (w : Worker P) : Nat :=
  match w.phase with
  | .searching j => checkEvery - j + 1
  | .returned _ => 0

theorem Worker.stepsLeft_consider (K : Kademlia) (goal : Int) (w : Worker P) {j : Nat} (addr : Addr)
    (key : PrivateKey P) (hj : j < checkEvery) :
    (w.consider K goal j addr key).stepsLeft < checkEvery - j + 1 := by
  rw [Worker.consider_eq]
  split
  · split
    · exact Nat.succ_pos _
    · simp only [Worker.stepsLeft]
      omega
  · simp only [Worker.stepsLeft]
    omega

theorem Worker.stepsLeft_step {err : String} (h : w.step K goal (some err) event = some w') :
    w'.stepsLeft < w.stepsLeft := by
  cases hphase : w.phase with
  | returned err' => cases event <;> simp [Worker.step, hphase] at h
  | searching j =>
      have hleft : w.stepsLeft = checkEvery - j + 1 := by simp [Worker.stepsLeft, hphase]
      rw [hleft]
      cases event with
      | generate answer =>
          simp only [Worker.step, hphase] at h
          split at h
          · next hj =>
              split at h
              · cases h
              · split at h
                · cases h
                · cases h
                  exact Worker.stepsLeft_consider K goal w _ _ hj
          · cases h
      | check =>
          simp only [Worker.step, hphase] at h
          split at h
          · cases h
          · cases h
            exact Nat.succ_pos _

/-- The rounds that are left to all of them. -/
def stepsLeft (workers : List (Worker P)) : Nat :=
  workers.foldr (fun w n => w.stepsLeft + n) 0

theorem stepsLeft_set {workers : List (Worker P)} {i : Nat} (hw : workers[i]? = some w)
    (hless : w'.stepsLeft < w.stepsLeft) : stepsLeft (workers.set i w') < stepsLeft workers := by
  induction workers generalizing i with
  | nil => cases hw
  | cons first workers ih =>
      cases i with
      | zero =>
          obtain rfl : first = w := by simpa using hw
          simp only [List.set_cons_zero, stepsLeft, List.foldr_cons]
          omega
      | succ i =>
          have hrest := ih (by simpa using hw)
          simp only [stepsLeft] at hrest
          simp only [List.set_cons_succ, stepsLeft, List.foldr_cons]
          omega

/-- Once the context is done, the workers can only go on for finitely many steps. -/
theorem Mine.cancelled_search_ends (K : Kademlia) (goal : Int) {m : Mine P}
    (hdone : m.done ≠ none) :
    ¬ Endless (Mine.step K goal) anyEvent m := by
  refine not_endless (fun m => m.done ≠ none) (fun m => stepsLeft m.workers) hdone ?_
  intro m event m' seen hdone _ hstep
  obtain ⟨err, herr⟩ := Option.ne_none_iff_exists'.mp hdone
  cases event with
  | worker i event =>
      obtain ⟨w, w', hw, hworker, rfl⟩ := step_worker hstep
      rw [herr] at hworker
      refine ⟨?_, stepsLeft_set hw (Worker.stepsLeft_step hworker)⟩
      unfold Mine.replace
      dsimp only
      split <;> simp [herr]
  | cancel err' =>
      simp only [Mine.step, herr] at hstep
      cases hstep

/-! ## Nothing that was found is lost -/

namespace Mine

variable {m m' : Mine P} {trace : List (MineEvent P × Unit)}

/-- The address meets the goal and is not like the placeholder. -/
def Meets (goal : Int) (addr : Addr) : Prop :=
  goal ≤ addrZeros addr ∧ 0 < addrZeros addr

/--
As soon as any worker has tried an address that meets the goal, the search comes to an end.  It
returns a key that was tried, whose address meets the goal and has as many zeros as any that was
tried; without a key, no address that meets the goal was tried at all.
-/
structure Thorough (K : Kademlia) (goal : Int) (trace : List (MineEvent P × Unit)) (m : Mine P) :
    Prop where
  ends : (∃ entry ∈ tried trace, Meets goal entry.1) → ¬ Endless (Mine.step K goal) anyEvent m
  best : ∀ r key, m.mineAddr K goal = some r → r.privKey = some key →
    (r.addr, key) ∈ tried trace ∧ newID key.public = .ok r.addr ∧ Meets goal r.addr ∧
      ∀ entry ∈ tried trace, addrZeros entry.1 ≤ addrZeros r.addr
  none : ∀ r, m.mineAddr K goal = some r → r.privKey = none →
    ∀ entry ∈ tried trace, ¬ Meets goal entry.1

theorem Kept.done_of_meets (kept : Kept goal trace m) (sound : m.Sound goal n)
    (h : ∃ entry ∈ tried trace, Meets goal entry.1) : m.done ≠ none := by
  obtain ⟨entry, hentry, hgoal, hpos⟩ := h
  obtain ⟨w, hw, hle⟩ := kept.better entry hentry
  obtain ⟨key, hkey, -⟩ := (sound.workers w hw).candidate.key_of_pos (by omega)
  exact kept.met w hw (by simp [hkey]) (by omega)

theorem search_thorough (run : Runs (step K goal) lawfulKeys (start n) trace m) :
    Thorough K goal trace m := by
  have sound := sound_of_run run
  have kept := kept_of_run run
  refine ⟨fun h => cancelled_search_ends K goal (kept.done_of_meets sound h), ?_, ?_⟩
  · intro r key hreturn hkey
    unfold mineAddr at hreturn
    split at hreturn
    · obtain rfl := Option.some.inj hreturn
      rcases m.finish_cases K goal with ⟨w, hw, hfinish, hgoal, hmost⟩ | ⟨hfinish, -⟩
      · rw [hfinish] at hkey ⊢
        have hcandidate := (sound.workers w hw).candidate
        have hpos := hcandidate.pos_of_key hkey
        obtain ⟨key', hkey', hid⟩ := hcandidate.key_of_pos hpos
        cases hkey.symm.trans hkey'
        refine ⟨kept.held w hw key hkey, hid, ⟨hgoal, hpos⟩, fun entry hentry => ?_⟩
        obtain ⟨other, hother, hle⟩ := kept.better entry hentry
        exact hle.trans (hmost other hother)
      · rw [hfinish] at hkey
        cases hkey
    · cases hreturn
  · intro r hreturn hkey entry hentry ⟨hgoal, hpos⟩
    obtain ⟨other, hother, hle⟩ := kept.better entry hentry
    unfold mineAddr at hreturn
    split at hreturn
    · obtain rfl := Option.some.inj hreturn
      rcases m.finish_cases K goal with ⟨w, hw, hfinish, -, hmost⟩ | ⟨-, hbelow⟩
      · -- the placeholder is not better than an address with a zero
        rw [hfinish] at hkey
        have hbest := hmost other hother
        obtain ⟨key, hsome, -⟩ := (sound.workers w hw).candidate.key_of_pos (by omega)
        cases hkey.symm.trans hsome
      · have := hbelow other hother
        omega
    · cases hreturn

/-- Two workers: the first tries a worse key before both come to the same one. -/
def sampleMineEvents : List (MineEvent minePrimitives) :=
  [.worker 0 (.generate (.ok ((mineKey 64).public, mineKey 64))),
    .worker 1 (.generate (.ok ((mineKey 1).public, mineKey 1))),
    .worker 0 (.generate (.ok ((mineKey 1).public, mineKey 1)))]

theorem search_thorough_sample :
    ∃ (trace : List (MineEvent minePrimitives × Unit)) (m : Mine minePrimitives),
      trace.map Prod.fst = sampleMineEvents ∧
      (m.mineAddr sampleKademlia 7).map (fun r => (r.addr, r.privKey.isSome)) =
        some (mineAddrOf 1, true) ∧
      Thorough sampleKademlia 7 trace m := by
  have hreplay : (replay (Mine.step sampleKademlia 7) anyEvent (start 2) sampleMineEvents).map
      (fun result => (result.1.mineAddr sampleKademlia 7).map fun r => (r.addr, r.privKey.isSome)) =
      some (some (mineAddrOf 1, true)) := by
    decide +kernel
  obtain ⟨trace, m, hevents, run, hmined⟩ := exists_run_of_map hreplay
  have hlawful : ∀ event ∈ sampleMineEvents, ∀ m : Mine minePrimitives, m.lawfulKeys event := by
    simp [sampleMineEvents, lawfulKeys]
  have run' : Runs (Mine.step sampleKademlia 7) lawfulKeys (start 2) trace m :=
    run.restrict fun entry hentry => hlawful entry.1 (hevents ▸ List.mem_map_of_mem hentry)
  exact ⟨trace, m, hevents, hmined, search_thorough run'⟩

end Mine

end Inet256.Ipv6
