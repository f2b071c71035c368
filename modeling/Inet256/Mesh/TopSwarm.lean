import Inet256.Mesh.Multihoming

/-!
# The swarm on top of the network

Applications send and receive through a chain of two swarms: one that loops
messages to the local address back, and one that secures the routing network and
checks that the address a message comes from is the one of the key that
authenticated it.  A loop for each of them hands what it receives to a common
hub.
-/

namespace Inet256.Mesh256

open Inet256.Foundation
open Inet256.Crypto
open Inet256.Multihoming (X509PublicKey KeyConversion ConvertsTo Message publicKeyFromX509)

variable {Algo : Type}

/-! ## The identity swarm -/

/--
A message of the key-exchange swarm: the key that authenticated the session, the identity reported
for it, and the address of the insecure network it came from.
-/
structure Secured (Algo : Type) where
  key : X509PublicKey Algo
  srcID : ID
  srcAddr : Addr
  dstAddr : Addr
  payload : Bytes
  deriving DecidableEq

/-- The callback of the inner `Receive`: the outer callback is called, or the message skipped. -/
def identityCallback (msg : Secured Algo) : Option (Message Addr) :=
  if msg.srcID ≠ msg.srcAddr then none
  else some ⟨msg.srcAddr, msg.dstAddr, msg.payload⟩

inductive InnerReceive (Algo : Type) where
  | message (msg : Secured Algo)
  | failed (err : String)

/-- The calls of the callback, what was returned if anything, and what was not received. -/
structure Receiving (Algo : Type) where
  calls : List (Message Addr)
  returned : Option (Except String Unit)
  rest : List (InnerReceive Algo)

def identityReceive : List (InnerReceive Algo) → Receiving Algo
  | [] => ⟨[], none, []⟩
  | .failed err :: rest => ⟨[], some (.error err), rest⟩
  | .message msg :: rest =>
      match identityCallback msg with
      | some m => ⟨[m], some (.ok ()), rest⟩
      | none => identityReceive rest

theorem identityCallback_eq_some {msg : Secured Algo} {m : Message Addr} :
    identityCallback msg = some m ↔
      msg.srcID = msg.srcAddr ∧ m = ⟨msg.srcAddr, msg.dstAddr, msg.payload⟩ := by
  unfold identityCallback
  split
  · next hne => simp [hne]
  · next heq => simp [not_not.mp heq, eq_comm]

/--
A `Receive` that succeeds has skipped mismatches, and has called its callback with the first message
that is none, behind which nothing was received.
-/
def ReceivesFirst (inner : List (InnerReceive Algo)) : Prop :=
  ∃ (skipped : List (Secured Algo)) (msg : Secured Algo),
    inner = skipped.map .message ++ .message msg :: (identityReceive inner).rest ∧
    (∀ other ∈ skipped, other.srcID ≠ other.srcAddr) ∧ msg.srcID = msg.srcAddr ∧
    (identityReceive inner).calls = [⟨msg.srcAddr, msg.dstAddr, msg.payload⟩]

theorem identityReceive_calls {inner : List (InnerReceive Algo)}
    (h : (identityReceive inner).returned = some (.ok ())) : ReceivesFirst inner := by
  unfold ReceivesFirst
  induction inner with
  | nil => simp [identityReceive] at h
  | cons first inner ih =>
      cases first with
      | failed err => simp [identityReceive] at h
      | message msg =>
          cases hcall : identityCallback msg with
          | some m =>
              obtain ⟨hsame, rfl⟩ := identityCallback_eq_some.mp hcall
              simp only [identityReceive, hcall]
              exact ⟨[], msg, rfl, by simp, hsame, rfl⟩
          | none =>
              simp only [identityReceive, hcall] at h ⊢
              obtain ⟨skipped, last, hinner, hskipped, hlast, hcalls⟩ := ih h
              have hmismatch : msg.srcID ≠ msg.srcAddr := by
                intro hsame
                rw [identityCallback_eq_some.mpr ⟨hsame, rfl⟩] at hcall
                cases hcall
              refine ⟨msg :: skipped, last, ?_, ?_, hlast, hcalls⟩
              · rw [List.map_cons, List.cons_append, ← hinner]
              · simpa using ⟨hmismatch, hskipped⟩

/-! ## The chain -/

structure TopSwarm where
  /-- The calls of `Tell` that wait in the hub of the loopback swarm. -/
  loopback : List (Message Addr)
  /-- What the loops over both swarms hold until it is received. -/
  loopbackHeld : Option (Message Addr)
  identityHeld : Option (Message Addr)

inductive TopEvent (Algo : Type) where
  | tell (dst : Addr) (payload : Bytes)
  /-- A waiting `Tell` gives up, and the next swarm is tried. -/
  | giveUp (index : Nat)
  | loopbackReceive (index : Nat)
  | identityReceive (msg : Secured Algo)
  | receiveLoopback
  | receiveIdentity
  /-- A loop is stopped while it waits for a receiver. -/
  | stopLoopback
  | stopIdentity

inductive TopSeen where
  | nothing
  | sent (dst : Addr) (payload : Bytes)
  | skipped
  | delivered (msg : Message Addr)
  deriving DecidableEq

namespace TopSwarm

def new : TopSwarm := ⟨[], none, none⟩

def step (localAddr : Addr) (s : TopSwarm) : TopEvent Algo → Option (TopSwarm × TopSeen)
  | .tell dst payload =>
      -- `loopbackSwarm.Tell`, and after its error `identitySwarm.Tell`
      if dst = localAddr then
        some ({ s with loopback := s.loopback ++ [⟨dst, dst, payload⟩] }, .nothing)
      else some (s, .sent dst payload)
  | .giveUp index =>
      match s.loopback[index]? with
      | some m => some ({ s with loopback := s.loopback.eraseIdx index }, .sent m.dst m.payload)
      | none => none
  | .loopbackReceive index =>
      match s.loopback[index]?, s.loopbackHeld with
      | some m, none =>
          some ({ s with loopback := s.loopback.eraseIdx index, loopbackHeld := some m }, .nothing)
      | _, _ => none
  | .identityReceive msg =>
      match s.identityHeld with
      | some _ => none
      | none =>
          match identityCallback msg with
          | some m => some ({ s with identityHeld := some m }, .nothing)
          | none => some (s, .skipped)
  | .receiveLoopback =>
      s.loopbackHeld.map fun m => ({ s with loopbackHeld := none }, .delivered m)
  | .receiveIdentity =>
      s.identityHeld.map fun m => ({ s with identityHeld := none }, .delivered m)
  | .stopLoopback => s.loopbackHeld.map fun _ => ({ s with loopbackHeld := none }, .nothing)
  | .stopIdentity => s.identityHeld.map fun _ => ({ s with identityHeld := none }, .nothing)

/-! ## Where messages come from -/

/-- The node sent the message to itself. -/
def FromSelf (localAddr : Addr) (trace : List (TopEvent Algo × TopSeen)) (m : Message Addr) :
    Prop :=
  m.src = localAddr ∧ m.dst = localAddr ∧ ∃ seen, (.tell localAddr m.payload, seen) ∈ trace

theorem FromSelf.append {trace : List (TopEvent Algo × TopSeen)} {m : Message Addr}
    {localAddr : Addr} (h : FromSelf localAddr trace m) (more : List (TopEvent Algo × TopSeen)) :
    FromSelf localAddr (trace ++ more) m := by
  obtain ⟨hsrc, hdst, seen, hmem⟩ := h
  exact ⟨hsrc, hdst, seen, List.mem_append_left _ hmem⟩

variable {P : Primitives} [DecidableEq Algo]

/-- The fingerprint a session's key is given; a key that does not convert makes it panic. -/
def fingerprinter (conv : KeyConversion P Algo) (pubKey : X509PublicKey Algo) : Go ID := do
  let pubKey2 ← mustReturn (publicKeyFromX509 conv pubKey)
  newID pubKey2

/-- What is assumed of the key-exchange swarm: it reports the fingerprint of the session's key. -/
def reportsFingerprint (conv : KeyConversion P Algo) (_ : TopSwarm) : TopEvent Algo → Prop
  | .identityReceive msg => fingerprinter conv msg.key = .ok msg.srcID
  | _ => True

/-- The message was received from below, and its source is the address of the session's key. -/
def FromPeer (conv : KeyConversion P Algo) (trace : List (TopEvent Algo × TopSeen))
    (m : Message Addr) : Prop :=
  ∃ msg seen, (.identityReceive msg, seen) ∈ trace ∧
    m = ⟨msg.srcAddr, msg.dstAddr, msg.payload⟩ ∧ ConvertsTo conv msg.key m.src

theorem FromPeer.append {trace : List (TopEvent Algo × TopSeen)} {m : Message Addr}
    {conv : KeyConversion P Algo} (h : FromPeer conv trace m)
    (more : List (TopEvent Algo × TopSeen)) : FromPeer conv (trace ++ more) m := by
  obtain ⟨msg, seen, hmem, hrest⟩ := h
  exact ⟨msg, seen, List.mem_append_left _ hmem, hrest⟩

/-- Whatever is on its way to the application has one of the two origins. -/
structure Traced (localAddr : Addr) (conv : KeyConversion P Algo)
    (trace : List (TopEvent Algo × TopSeen)) (s : TopSwarm) : Prop where
  loopback : ∀ m ∈ s.loopback, FromSelf localAddr trace m
  loopbackHeld : ∀ m, s.loopbackHeld = some m → FromSelf localAddr trace m
  identityHeld : ∀ m, s.identityHeld = some m → FromPeer conv trace m

variable {localAddr : Addr} {conv : KeyConversion P Algo}
  {trace : List (TopEvent Algo × TopSeen)} {s s' : TopSwarm}

theorem Traced.append (traced : Traced localAddr conv trace s)
    (more : List (TopEvent Algo × TopSeen)) : Traced localAddr conv (trace ++ more) s where
  loopback := fun m hm => (traced.loopback m hm).append more
  loopbackHeld := fun m hm => (traced.loopbackHeld m hm).append more
  identityHeld := fun m hm => (traced.identityHeld m hm).append more

theorem convertsTo_of_fingerprinter {key : X509PublicKey Algo} {id : ID}
    (h : fingerprinter conv key = .ok id) : ConvertsTo conv key id := by
  obtain ⟨pub, hpub, hid⟩ := Go.bind_eq_ok.mp h
  exact ⟨pub, mustReturn_eq_ok.mp hpub, hid⟩

theorem Traced.step {event : TopEvent Algo} {seen : TopSeen}
    (traced : Traced localAddr conv trace s) (hreports : reportsFingerprint conv s event)
    (h : s.step localAddr event = some (s', seen)) :
    Traced localAddr conv (trace ++ [(event, seen)]) s' := by
  have kept := traced.append [(event, seen)]
  cases event with
  | tell dst payload =>
      simp only [TopSwarm.step] at h
      split at h
      · next hlocal =>
          cases h
          refine ⟨fun m hm => ?_, kept.loopbackHeld, kept.identityHeld⟩
          cases List.mem_append.mp hm with
          | inl hold => exact kept.loopback m hold
          | inr hnew =>
              rw [List.mem_singleton.mp hnew, hlocal]
              exact ⟨rfl, rfl, .nothing, by simp⟩
      · cases h
        exact kept
  | giveUp index =>
      simp only [TopSwarm.step] at h
      split at h
      · cases h
        exact ⟨fun m hm => kept.loopback m (List.mem_of_mem_eraseIdx hm), kept.loopbackHeld,
          kept.identityHeld⟩
      · cases h
  | loopbackReceive index =>
      simp only [TopSwarm.step] at h
      split at h
      · next m hm hheld =>
          cases h
          refine ⟨fun m hm => kept.loopback m (List.mem_of_mem_eraseIdx hm), ?_,
            kept.identityHeld⟩
          rintro m' ⟨⟩
          exact kept.loopback m (List.mem_of_getElem? hm)
      · cases h
  | identityReceive msg =>
      simp only [TopSwarm.step] at h
      split at h
      · cases h
      · split at h
        · next m hm =>
            cases h
            refine ⟨kept.loopback, kept.loopbackHeld, ?_⟩
            rintro m' ⟨⟩
            obtain ⟨hsame, rfl⟩ := identityCallback_eq_some.mp hm
            refine ⟨msg, .nothing, by simp, rfl, ?_⟩
            rw [← hsame]
            exact convertsTo_of_fingerprinter hreports
        · cases h
          exact kept
  | receiveLoopback =>
      obtain ⟨m, -, hequal⟩ := Option.map_eq_some_iff.mp h
      cases hequal
      exact ⟨kept.loopback, by simp, kept.identityHeld⟩
  | receiveIdentity =>
      obtain ⟨m, -, hequal⟩ := Option.map_eq_some_iff.mp h
      cases hequal
      exact ⟨kept.loopback, kept.loopbackHeld, by simp⟩
  | stopLoopback =>
      obtain ⟨m, -, hequal⟩ := Option.map_eq_some_iff.mp h
      cases hequal
      exact ⟨kept.loopback, by simp, kept.identityHeld⟩
  | stopIdentity =>
      obtain ⟨m, -, hequal⟩ := Option.map_eq_some_iff.mp h
      cases hequal
      exact ⟨kept.loopback, kept.loopbackHeld, by simp⟩

theorem traced_of_run (run : Runs (step localAddr) (reportsFingerprint conv) new trace s) :
    Traced localAddr conv trace s := by
  refine run.history (motive := Traced localAddr conv) ?_ ?_
  · exact ⟨by simp [new], by simp [new], by simp [new]⟩
  · intro trace s event s' seen _ traced hreports hstep
    exact traced.step hreports hstep

theorem Traced.delivered {event : TopEvent Algo} {m : Message Addr}
    (traced : Traced localAddr conv trace s)
    (h : s.step localAddr event = some (s', .delivered m)) :
    FromSelf localAddr trace m ∨ FromPeer conv trace m := by
  cases event with
  | tell dst payload =>
      simp only [TopSwarm.step] at h
      split at h <;> cases h
  | giveUp index =>
      simp only [TopSwarm.step] at h
      split at h <;> cases h
  | loopbackReceive index =>
      simp only [TopSwarm.step] at h
      split at h <;> cases h
  | identityReceive msg =>
      simp only [TopSwarm.step] at h
      split at h
      · cases h
      · split at h <;> cases h
  | receiveLoopback =>
      obtain ⟨held, hheld, hequal⟩ := Option.map_eq_some_iff.mp h
      cases hequal
      exact Or.inl (traced.loopbackHeld m hheld)
  | receiveIdentity =>
      obtain ⟨held, hheld, hequal⟩ := Option.map_eq_some_iff.mp h
      cases hequal
      exact Or.inr (traced.identityHeld m hheld)
  | stopLoopback =>
      obtain ⟨held, -, hequal⟩ := Option.map_eq_some_iff.mp h
      cases hequal
  | stopIdentity =>
      obtain ⟨held, -, hequal⟩ := Option.map_eq_some_iff.mp h
      cases hequal

/-- What an application receives in a run, and what becomes of messages from below. -/
structure SourceAuthentic (localAddr : Addr) (conv : KeyConversion P Algo)
    (trace : List (TopEvent Algo × TopSeen)) : Prop where
  delivered : ∀ before event m after, trace = before ++ (event, .delivered m) :: after →
    FromSelf localAddr before m ∨ FromPeer conv before m
  skipped : ∀ msg seen, (.identityReceive msg, seen) ∈ trace → msg.srcID ≠ msg.srcAddr →
    seen = .skipped
  once : ∀ inner : List (InnerReceive Algo),
    (identityReceive inner).returned = some (.ok ()) → ReceivesFirst inner

theorem top_source_authentic
    (run : Runs (step localAddr) (reportsFingerprint conv) new trace s) :
    SourceAuthentic localAddr conv trace where
  delivered := by
    intro before event m after htrace
    rw [htrace] at run
    obtain ⟨here, there, hbefore, -, hstep, -⟩ := run.middle
    exact (traced_of_run hbefore).delivered hstep
  skipped := by
    intro msg seen hmem hmismatch
    obtain ⟨before, after, htrace⟩ := List.append_of_mem hmem
    rw [htrace] at run
    obtain ⟨here, there, -, -, hstep, -⟩ := run.middle
    have hcall : identityCallback msg = none := by rw [identityCallback, if_pos hmismatch]
    simp only [TopSwarm.step, hcall] at hstep
    split at hstep
    · cases hstep
    · cases hstep
      rfl
  once _ h := identityReceive_calls h

/-! ### A forged message between genuine ones -/

instance (conv : KeyConversion P Algo) (s : TopSwarm) (event : TopEvent Algo) :
    Decidable (reportsFingerprint conv s event) := by
  unfold reportsFingerprint
  split <;> infer_instance

def samplePeerKey : X509PublicKey Bool := ⟨true, [7]⟩

/-- The address of the sample key. -/
def samplePeerID : ID :=
  (fingerprinter Multihoming.sampleConversion samplePeerKey).toOption.getD (copyTo 32 [])

def sampleTopEvents : List (TopEvent Bool) :=
  [.tell (copyTo 32 [1]) [10], .loopbackReceive 0,
    .identityReceive ⟨samplePeerKey, samplePeerID, copyTo 32 [9], copyTo 32 [1], [11]⟩,
    .identityReceive ⟨samplePeerKey, samplePeerID, samplePeerID, copyTo 32 [1], [12]⟩,
    .receiveIdentity, .receiveLoopback]

theorem top_source_authentic_sample :
    ∃ trace s, trace.map Prod.fst = sampleTopEvents ∧
      trace.map Prod.snd = [.nothing, .nothing, .skipped, .nothing,
        .delivered ⟨samplePeerID, copyTo 32 [1], [12]⟩,
        .delivered ⟨copyTo 32 [1], copyTo 32 [1], [10]⟩] ∧
      Runs (step (copyTo 32 [1])) (reportsFingerprint Multihoming.sampleConversion) new trace s ∧
      SourceAuthentic (copyTo 32 [1]) Multihoming.sampleConversion trace := by
  have hreplay : (replay (step (copyTo 32 [1]))
      (reportsFingerprint Multihoming.sampleConversion) new sampleTopEvents).map
      (fun result => result.2.map Prod.snd) = some [.nothing, .nothing, .skipped, .nothing,
        .delivered ⟨samplePeerID, copyTo 32 [1], [12]⟩,
        .delivered ⟨copyTo 32 [1], copyTo 32 [1], [10]⟩] := by
    decide +kernel
  obtain ⟨trace, s, hevents, run, hseen⟩ := exists_run_of_map hreplay
  exact ⟨trace, s, hevents, hseen, run, top_source_authentic run⟩

end TopSwarm

end Inet256.Mesh256
