import Inet256.Ipc.Ask
import Inet256.Pki.Addr
import Inet256.Routers.Network
import Inet256.Service.Nodes

/-!
# Looking for an address by its first bits

A `FindAddr` request is resolved in one of two ways.  The router looks for a
known address, comparing bytes; the network waits for new ones, comparing bit
strings.  The number of bits comes from the client, and the two sides do not
read it alike: as the end of a bit source, zero stands for all the bits, and
more bits than there are make the source panic.
-/

namespace Inet256

open Inet256.Foundation
open Inet256.Crypto
open Inet256.Bitstr

variable {P : Primitives}

/-! ## The tables

Both loops are given the order in which they visit the keys of their map.
-/

def TableAccepts (query : Bytes) (nbits : Int) (a : Addr) : Prop :=
  Addr.hasPrefix a.toList query nbits = true

/-- `Router.FindAddr`: the zero address stands for none. -/
def Beaconnet.Router.findAddr (order : List Addr) (query : Bytes) (nbits : Int) : Option Addr :=
  match order.find? fun id => Addr.hasPrefix id.toList query nbits with
  | some id => if id = copyTo 32 [] then none else some id
  | none => none

/-- `memService.findAddr`. -/
def Mem.Service.findAddr (order : List Addr) (query : Bytes) (nbits : Int) : Go Addr :=
  match order.find? fun id => Addr.hasPrefix id.toList query nbits with
  | some id => .ok id
  | none => fail "no address with prefix"

theorem tableAccepts_of_find {order : List Addr} {query : Bytes} {nbits : Int} {a : Addr}
    (h : order.find? (fun id => Addr.hasPrefix id.toList query nbits) = some a) :
    a ∈ order ∧ TableAccepts query nbits a := by
  have haccepts := List.find?_some h
  exact ⟨List.mem_of_find?_eq_some h, haccepts⟩

theorem Beaconnet.Router.findAddr_eq_some {r : Beaconnet.Router P} {order : List Addr}
    (horder : r.peerStates.Ranges order) {query : Bytes} {nbits : Int} {a : Addr}
    (h : findAddr order query nbits = some a) :
    (∃ ps, r.peerStates.lookup a = some ps) ∧ TableAccepts query nbits a := by
  unfold findAddr at h
  split at h
  · next id hfind =>
      split at h
      · cases h
      · cases h
        obtain ⟨hmem, haccepts⟩ := tableAccepts_of_find hfind
        exact ⟨(horder.mem_iff a).mp hmem, haccepts⟩
  · cases h

theorem Mem.Service.findAddr_eq_ok {s : Mem.Service P} {order : List Addr}
    (horder : s.nodes.Ranges order) {query : Bytes} {nbits : Int} {a : Addr}
    (h : findAddr order query nbits = .ok a) :
    (∃ node, s.nodes.lookup a = some node) ∧ TableAccepts query nbits a := by
  unfold findAddr at h
  split at h
  · next id hfind =>
      cases h
      obtain ⟨hmem, haccepts⟩ := tableAccepts_of_find hfind
      exact ⟨(horder.mem_iff a).mp hmem, haccepts⟩
  · cases h

namespace Routers.Network

variable {F : FutureStore BitString Addr} {G : FutureStore Addr (PublicKey P)}

/-! ## The key of a request -/

theorem findAddrKey_of_pos {query : Bytes} {n : Nat} (hpos : 0 < n)
    (h : n ≤ query.length * 8) :
    ∃ key, findAddrKey query n = .ok key ∧ key.bits = msbOrder.bits query n := by
  have hreads := BytesMSB.reads query 0 n hpos h
  rw [List.drop_zero] at hreads
  exact fromSource_of_reads hreads

theorem findAddrKey_zero (query : Bytes) :
    ∃ key, findAddrKey query 0 = .ok key ∧
      key.bits = msbOrder.bits query (query.length * 8) :=
  fromSource_of_reads (BytesMSB.reads_whole query)

/-- The key is built unless it is to have more bits than there are. -/
theorem findAddrKey_eq_ok_iff (query : Bytes) (nbits : Int) :
    (∃ key, findAddrKey query nbits = .ok key) ↔ nbits ≤ 8 * query.length := by
  constructor
  · rintro ⟨key, hkey⟩
    by_contra hmore
    -- the first bit behind the last byte is among those that are read
    have hlen : query.length * 8 <
        (BytesMSB.source { bytes := query, beginBit := 0, endBit := nbits }).len.toNat := by
      simp only [BytesMSB.source, BytesMSB.len]
      split <;> omega
    obtain ⟨bit, hbit⟩ := bitAt_of_fromSource hkey hlen
    have hnone : query[query.length * 8 / 8]? = none := by simp
    have hnot : ¬ (((query.length * 8 : Nat) : Int) + 0 < 0) := by omega
    have hnat : (((query.length * 8 : Nat) : Int) + 0).toNat = query.length * 8 := by omega
    simp only [BytesMSB.source, BytesMSB.bitAt, byteAt, if_neg hnot, hnat, hnone] at hbit
    cases hbit
  · intro h
    rcases lt_trichotomy nbits 0 with hneg | hzero | hpos
    · obtain ⟨key, hkey, -⟩ := fromSource_of_reads (BytesMSB.reads_negative query hneg)
      exact ⟨key, hkey⟩
    · subst hzero
      obtain ⟨key, hkey, -⟩ := findAddrKey_zero query
      exact ⟨key, hkey⟩
    · lift nbits to Nat using hpos.le
      have hbound : nbits ≤ query.length * 8 := by omega
      obtain ⟨key, hkey, -⟩ := findAddrKey_of_pos (by omega) hbound
      exact ⟨key, hkey⟩

/-! ## Pending requests -/

/-- The test of `handleAddr` against the key of a request. -/
def PendingAccepts (query : Bytes) (nbits : Int) (a : Addr) : Prop :=
  ∃ bits key, addrBits a = .ok bits ∧ findAddrKey query nbits = .ok key ∧
    hasPrefix bits key = true

theorem addrBits_bits (a : Addr) :
    ∃ bits, addrBits a = .ok bits ∧ bits.bits = msbOrder.bits a.toList (a.toList.length * 8) := by
  have hbound : 256 ≤ a.toList.length * 8 := by simp
  have hreads := BytesMSB.reads a.toList 0 256 (by decide) hbound
  rw [List.drop_zero] at hreads
  obtain ⟨bits, hok, hbits⟩ := fromSource_of_reads hreads
  refine ⟨bits, hok, ?_⟩
  rw [hbits, a.toList_length]

theorem pendingAccepts_iff {query : Bytes} {nbits : Int} {key : BitString}
    (hkey : findAddrKey query nbits = .ok key) (a : Addr) :
    PendingAccepts query nbits a ↔
      key.bits <+: msbOrder.bits a.toList (a.toList.length * 8) := by
  obtain ⟨bits, hok, hbits⟩ := addrBits_bits a
  rw [← hbits, ← Bitstr.hasPrefix_iff]
  constructor
  · rintro ⟨bits', key', hok', hkey', haccepts⟩
    rw [hok] at hok'
    rw [hkey] at hkey'
    cases hok'
    cases hkey'
    exact haccepts
  · intro haccepts
    exact ⟨bits, key, hok, hkey, haccepts⟩

/-- A waiting request is resolved by the addresses that its test accepts. -/
theorem handleAddr_resolves_iff {n : Network P F G} (kept : n.Kept) {call : Nat}
    {c : Call BitString} (hwaits : n.findAddr.Waits call c) {query : Bytes} {nbits : Int}
    (hkey : findAddrKey query nbits = .ok c.key) (a : Addr) :
    (∃ n' fulfilled, n.handleAddr a = .ok (n', fulfilled) ∧
      F.outcome n'.findAddr.store c.future = some a) ↔ PendingAccepts query nbits a := by
  obtain ⟨bits, n', fulfilled, hbits, hhandle, hresolves⟩ := kept.noLostWaiters.handleAddr a
  constructor
  · rintro ⟨n'', fulfilled', hhandle', houtcome⟩
    rw [Network.handleAddr, hbits] at hhandle'
    cases hhandle'
    obtain ⟨key, hget, hanswer⟩ := FutureStore.answer_of_outcome_settleEach hwaits.2 houtcome
    have hsame : key = c.key :=
      F.get_inj _ _ _ _ hget (kept.findAddr.registered call c hwaits)
    subst hsame
    split at hanswer
    · next haccepts => exact ⟨bits, c.key, hbits, hkey, haccepts⟩
    · cases hanswer
  · rintro ⟨bits', key, hbits', hkey', haccepts⟩
    rw [hbits] at hbits'
    rw [hkey] at hkey'
    cases hbits'
    cases hkey'
    exact ⟨n', fulfilled, hhandle, hresolves call c hwaits haccepts⟩

/-! ## Where the two tests agree -/

theorem tableAccepts_iff_pending {query : Bytes} {nbits : Int} (hpos : 0 < nbits)
    (h : nbits ≤ 8 * query.length) (a : Addr) :
    PendingAccepts query nbits a ↔ TableAccepts query nbits a := by
  lift nbits to Nat using hpos.le
  have hpos : 0 < nbits := by omega
  have hbound : nbits ≤ query.length * 8 := by omega
  obtain ⟨key, hkey, hbits⟩ := findAddrKey_of_pos hpos hbound
  rw [pendingAccepts_iff hkey, hbits]
  exact (Addr.hasPrefix_iff_prefix hpos hbound).symm

theorem pendingAccepts_zero (query : Bytes) (a : Addr) :
    PendingAccepts query 0 a ↔ query <+: a.toList := by
  obtain ⟨key, hkey, hbits⟩ := findAddrKey_zero query
  rw [pendingAccepts_iff hkey, hbits, bits_prefix_iff]

theorem tableAccepts_zero (query : Bytes) (a : Addr) :
    TableAccepts query 0 a ↔ query ≠ [] := by
  have hlength := a.toList_length
  unfold TableAccepts
  cases hbytes : a.toList with
  | nil => simp [hbytes] at hlength
  | cons x xs => exact Addr.hasPrefix_zero x xs query

/-- For zero bits one test compares the whole prefix and the other nothing. -/
theorem resolutions_agree_iff (query : Bytes) (nbits : Int) (hnonneg : 0 ≤ nbits)
    (hbound : nbits ≤ 8 * query.length) (a : Addr) :
    (PendingAccepts query nbits a ↔ TableAccepts query nbits a) ↔
      (nbits = 0 → query ≠ [] ∧ query <+: a.toList) := by
  rcases hnonneg.eq_or_lt with hzero | hpos
  · subst hzero
    rw [pendingAccepts_zero, tableAccepts_zero]
    constructor
    · intro hagree _
      have hne : query ≠ [] := by
        intro hnil
        subst hnil
        exact hagree.mp (List.nil_prefix) rfl
      exact ⟨hne, hagree.mpr hne⟩
    · intro h
      obtain ⟨hne, hprefix⟩ := h rfl
      exact iff_of_true hprefix hne
  · exact iff_of_true (tableAccepts_iff_pending hpos hbound a) fun hzero => by omega

theorem resolutions_agree_sample :
    PendingAccepts [255, 1] 9 (copyTo 32 [255]) ↔ TableAccepts [255, 1] 9 (copyTo 32 [255]) :=
  (resolutions_agree_iff [255, 1] 9 (by decide) (by decide) (copyTo 32 [255])).mpr
    (fun h => absurd h (by decide))

/-- Zero bits of a prefix that the address does not have: only the table accepts it. -/
theorem not_resolutions_agree :
    ¬ ∀ (query : Bytes) (nbits : Int), 0 ≤ nbits → nbits ≤ 8 * query.length → ∀ a : Addr,
      (PendingAccepts query nbits a ↔ TableAccepts query nbits a) := by
  intro h
  have hagree := h [255] 0 (by decide) (by decide) (copyTo 32 [])
  rw [pendingAccepts_zero, tableAccepts_zero] at hagree
  exact absurd (hagree.mpr (by decide)) (by decide)

/-! ## Serving a client's request

The goroutine that serves a request reads it, builds the key, asks the router
and waits.  The wait ends with the address that settled the future or with the
error of the session's context.
-/

def findAddrCall (order : List Addr) (query : Bytes) (nbits : Int) :
    Go (BitString × Option Addr) := do
  let key ← findAddrKey query nbits
  return (key, Beaconnet.Router.findAddr order query nbits)

/-- `handleAsk` on a request for an address, given how the wait ends. -/
def handleFindAddr (C : Ipc.Codecs) (node : Ipc.Node P) (order : List Addr)
    (await : BitString → Option Addr → Ipc.Result Addr) (m resBuf : Bytes) :
    Go (Bytes × Nat) := do
  let req ← Ipc.findAddrReq C m
  let (key, found) ← findAddrCall order req.prefixBytes req.nbits
  Ipc.handleAsk C { node with findAddr := fun _ _ => await key found } m resBuf

/-- The call returns: with an address, or with an error. -/
def Returns (call : Nat) (entry : NetworkEvent P × Returned P) : Prop :=
  (∃ a, entry = (.onFindAddr (.succeed call), .addr a)) ∨
    entry = (.onFindAddr (.cancel call), .nothing)

theorem step_onFindAddr {n : Network P F G} {act : Act Addr} {requests : Requests F}
    {value : Option Addr} (h : n.findAddr.act act = some (requests, value)) :
    n.step (.onFindAddr act) = some ({ n with findAddr := requests },
      value.elim .nothing .addr) := by
  simp only [Network.step, h]
  rfl

/-- A call in progress can be brought to its end. -/
theorem exists_return {n : Network P F G} {call : Nat} {c : Call BitString}
    (h : n.findAddr.calls.lookup call = some c) :
    ∃ trace n', Runs step anyEvent n trace n' ∧ ∃ entry ∈ trace, Returns call entry := by
  have hcancel : ∀ {n : Network P F G} {c : Call BitString},
      n.findAddr.calls.lookup call = some c → c.phase = .await →
      ∃ n', n.step (.onFindAddr (.cancel call)) = some (n', .nothing) := by
    intro n c hlookup hphase
    have hact : n.findAddr.act (.cancel call) = some (n.findAddr.leave call c, none) := by
      simp only [Requests.act, hlookup, hphase, if_true]
    exact ⟨_, step_onFindAddr hact⟩
  cases hphase : c.phase with
  | await =>
      obtain ⟨n', hstep⟩ := hcancel h hphase
      exact ⟨_, n', .single trivial hstep, _, List.mem_singleton_self _, Or.inr rfl⟩
  | attempt =>
      -- the router is asked once more, and then the context ends
      have hact : n.findAddr.act (.attempt call none) =
          some (n.findAddr.enter call c .await, none) := by
        simp only [Requests.act, h, hphase, if_true]
        rfl
      have hasked := step_onFindAddr hact
      have hlookup : (n.findAddr.enter call c .await).calls.lookup call =
          some { c with phase := .await } := Finmap.lookup_insert _
      obtain ⟨n', hstep⟩ := hcancel
        (n := { n with findAddr := n.findAddr.enter call c .await }) hlookup rfl
      have first : Runs step anyEvent n _ _ := .single trivial hasked
      exact ⟨_, n', first.next trivial hstep, _,
        List.mem_append_right _ (List.mem_singleton_self _), Or.inr rfl⟩

/-- A call stays in progress until it returns. -/
theorem act_keeps {s s' : Requests F} {a : Act Addr} {value : Option Addr}
    (h : s.act a = some (s', value)) {call : Nat} {c : Call BitString}
    (hc : s.calls.lookup call = some c) :
    (∃ c', s'.calls.lookup call = some c') ∨ (a = .succeed call ∧ ∃ v, value = some v) ∨
      (a = .cancel call ∧ value = none) := by
  have hleave : ∀ {other : Nat}, other ≠ call → (s.calls.erase other).lookup call = some c := by
    intro other hne
    rw [GoMap.lookup_erase_eq, if_neg hne.symm, hc]
  unfold Requests.act at h
  cases a with
  | attempt other answer =>
      dsimp only at h
      split at h
      · next c' hc' =>
          split at h
          · cases h
            have hsame : (s.settle c'.future answer).calls.lookup call = some c := by
              cases answer <;> exact hc
            exact Or.inl (GoMap.exists_lookup_insert hsame other _)
          · cases h
      · cases h
  | succeed other =>
      dsimp only at h
      split at h
      · next c' hc' =>
          split at h
          · obtain ⟨v, hv, hequal⟩ := Option.map_eq_some_iff.mp h
            cases hequal
            by_cases hsame : other = call
            · exact Or.inr (Or.inl ⟨by rw [hsame], v, rfl⟩)
            · exact Or.inl ⟨c, hleave hsame⟩
          · cases h
      · cases h
  | cancel other =>
      dsimp only at h
      split at h
      · next c' hc' =>
          split at h
          · cases h
            by_cases hsame : other = call
            · exact Or.inr (Or.inr ⟨by rw [hsame], rfl⟩)
            · exact Or.inl ⟨c, hleave hsame⟩
          · cases h
      · cases h
  | again other =>
      dsimp only at h
      split at h
      · next c' hc' =>
          split at h
          · cases h
            exact Or.inl (GoMap.exists_lookup_insert hc other _)
          · cases h
      · cases h

theorem step_keeps {n n' : Network P F G} {event : NetworkEvent P} {returned : Returned P}
    (h : n.step event = some (n', returned)) {call : Nat} {c : Call BitString}
    (hc : n.findAddr.calls.lookup call = some c) :
    (∃ c', n'.findAddr.calls.lookup call = some c') ∨ Returns call (event, returned) := by
  cases event with
  | findAddr other query nbits =>
      obtain ⟨key, -, h⟩ := Option.bind_eq_some_iff.mp h
      obtain ⟨requests, hstart, h⟩ := Option.bind_eq_some_iff.mp h
      cases h
      unfold Requests.start at hstart
      split at hstart
      · cases hstart
      · cases hstart
        exact Or.inl (GoMap.exists_lookup_insert hc other _)
  | onFindAddr act =>
      obtain ⟨⟨requests, value⟩, hact, h⟩ := Option.bind_eq_some_iff.mp h
      cases h
      rcases act_keeps hact hc with hkept | ⟨rfl, v, rfl⟩ | ⟨rfl, rfl⟩
      · exact Or.inl hkept
      · exact Or.inr (Or.inl ⟨v, rfl⟩)
      · exact Or.inr (Or.inr rfl)
  | lookupPublicKey other target =>
      rw [Network.step] at h
      split at h
      · cases h
        exact Or.inl ⟨c, hc⟩
      · obtain ⟨requests, -, h⟩ := Option.bind_eq_some_iff.mp h
        cases h
        exact Or.inl ⟨c, hc⟩
  | onLookupPublicKey act =>
      obtain ⟨⟨requests, value⟩, -, h⟩ := Option.bind_eq_some_iff.mp h
      cases h
      exact Or.inl ⟨c, hc⟩
  | handleAddr target =>
      obtain ⟨⟨handled, fulfilled⟩, hhandle, h⟩ := Option.bind_eq_some_iff.mp h
      cases h
      obtain ⟨bits, -, hequal⟩ := Go.bind_eq_ok.mp (toOption_eq_some.mp hhandle)
      cases hequal
      exact Or.inl ⟨c, hc⟩
  | handlePublicKey target key =>
      cases h
      left
      split <;> exact ⟨c, hc⟩

theorem run_keeps {n n' : Network P F G} {trace : List (NetworkEvent P × Returned P)}
    (run : Runs step anyEvent n trace n') {call : Nat} {c : Call BitString}
    (hc : n.findAddr.calls.lookup call = some c) :
    (∃ c', n'.findAddr.calls.lookup call = some c') ∨ ∃ entry ∈ trace, Returns call entry := by
  induction run with
  | refl => exact Or.inl ⟨c, hc⟩
  | @next trace before after event seen _ _ hstep ih =>
      cases ih with
      | inl hkept =>
          obtain ⟨c', hc'⟩ := hkept
          cases step_keeps hstep hc' with
          | inl hkept => exact Or.inl hkept
          | inr hreturns => exact Or.inr ⟨(event, seen), by simp, hreturns⟩
      | inr hreturned =>
          obtain ⟨entry, hmem, hreturns⟩ := hreturned
          exact Or.inr ⟨entry, List.mem_append_left _ hmem, hreturns⟩

/-- Handling a request neither panics nor gets stuck. -/
structure Handled (F : FutureStore BitString Addr) (G : FutureStore Addr (PublicKey P))
    (C : Ipc.Codecs) (query : Bytes) (nbits : Int) : Prop where
  /-- The call starts; from then on it has returned an address or an error, or can do so. -/
  ends : ∀ (n : Network P F G) (call : Nat), n.findAddr.calls.lookup call = none →
    ∃ n', n.step (.findAddr call query nbits) = some (n', .nothing) ∧
      ∀ trace n'', Runs step anyEvent n' trace n'' →
        (∃ entry ∈ trace, Returns call entry) ∨
        ∃ more last, Runs step anyEvent n'' more last ∧ ∃ entry ∈ more, Returns call entry
  /-- Whatever the call returns is written to the client, if its frame has room for it. -/
  responds : ∀ (node : Ipc.Node P) (order : List Addr)
    (await : BitString → Option Addr → Ipc.Result Addr) (reqID : Ipc.RequestID) (resBuf : Bytes),
    (∀ key found, 4 + 16 + (C.findAddrRes.marshal (await key found).response).length ≤
      resBuf.length) →
    ∃ key found buf n,
      handleFindAddr C node order await
        (Ipc.Ask.content C reqID (.findAddr query nbits)).bytes resBuf = .ok (buf, n) ∧
      slice buf 0 n = .ok (Ipc.Content.ask Ipc.mtFindAddr reqID
        (C.findAddrRes.marshal (await key found).response)).bytes

theorem step_findAddr {query : Bytes} {nbits : Int} {key : BitString}
    (hkey : findAddrKey query nbits = .ok key) {n : Network P F G} {call : Nat}
    (hfresh : n.findAddr.calls.lookup call = none) :
    ∃ n' c, n.step (.findAddr call query nbits) = some (n', .nothing) ∧
      n'.findAddr.calls.lookup call = some c := by
  have hstart : ∃ requests c, n.findAddr.start call key = some requests ∧
      requests.calls.lookup call = some c := by
    unfold Requests.start
    rw [hfresh]
    exact ⟨_, _, rfl, Finmap.lookup_insert _⟩
  obtain ⟨requests, c, hstart, hc⟩ := hstart
  refine ⟨{ n with findAddr := requests }, c, ?_, hc⟩
  simp only [Network.step, toOption_eq_some.mpr hkey, Option.bind_eq_bind, Option.bind_some,
    hstart]

theorem key_of_step {n : Network P F G} {call : Nat} {query : Bytes} {nbits : Int}
    {result : Network P F G × Returned P} (h : n.step (.findAddr call query nbits) = some result) :
    ∃ key, findAddrKey query nbits = .ok key := by
  obtain ⟨key, hkey, -⟩ := Option.bind_eq_some_iff.mp h
  exact ⟨key, toOption_eq_some.mp hkey⟩

theorem handleFindAddr_of_key {C : Ipc.Codecs} {query : Bytes} {nbits : Int} {key : BitString}
    (hkey : findAddrKey query nbits = .ok key) (node : Ipc.Node P) (order : List Addr)
    (await : BitString → Option Addr → Ipc.Result Addr) (reqID : Ipc.RequestID)
    (resBuf : Bytes) :
    handleFindAddr C node order await
        (Ipc.Ask.content C reqID (.findAddr query nbits)).bytes resBuf =
      Ipc.writeAskMessage resBuf reqID Ipc.mtFindAddr (C.findAddrRes.marshal
        (await key (Beaconnet.Router.findAddr order query nbits)).response) := by
  have hreq : Ipc.findAddrReq C (Ipc.Ask.content C reqID (.findAddr query nbits)).bytes =
      .ok ⟨query, nbits⟩ := Ipc.parseJSON_ask C.findAddrReq _ _ _
  simp only [handleFindAddr, findAddrCall, hreq, hkey, Go.ok_bind, Go.pure_eq_ok]
  rw [Ipc.handleAsk_findAddr]

/-- A request is handled exactly if it asks for no more bits than it has. -/
theorem findAddr_handled_iff (C : Ipc.Codecs) (query : Bytes) (nbits : Int) :
    Handled F G C query nbits ↔ nbits ≤ 8 * query.length := by
  rw [← findAddrKey_eq_ok_iff]
  constructor
  · intro h
    obtain ⟨n', hstep, -⟩ := h.ends (new ⟨[], List.nodup_nil⟩) 0 rfl
    exact key_of_step hstep
  · rintro ⟨key, hkey⟩
    constructor
    · intro n call hfresh
      obtain ⟨n', c, hstep, hc⟩ := step_findAddr hkey hfresh
      refine ⟨n', hstep, fun trace n'' run => ?_⟩
      cases run_keeps run hc with
      | inr hreturned => exact Or.inl hreturned
      | inl hkept =>
          obtain ⟨c', hc'⟩ := hkept
          exact Or.inr (exists_return hc')
    · intro node order await reqID resBuf hroom
      obtain ⟨buf, n, hwrite, hslice⟩ := Ipc.writeAskMessage_of_le reqID Ipc.mtFindAddr
        (hroom key (Beaconnet.Router.findAddr order query nbits))
      exact ⟨key, _, buf, n, (handleFindAddr_of_key hkey node order await reqID resBuf).trans
        hwrite, hslice⟩

/-- One bit of an empty prefix: the node panics. -/
theorem not_findAddr_handled :
    ¬ ∀ (query : Bytes) (nbits : Int),
      Handled FutureStore.table (FutureStore.table : FutureStore Addr (PublicKey samplePrimitives))
        Ipc.sampleCodecs query nbits := by
  intro h
  obtain ⟨n', hstep, -⟩ := (h [] 1).ends (new ⟨[], List.nodup_nil⟩) 0 rfl
  have hbound := (findAddrKey_eq_ok_iff [] 1).mp (key_of_step hstep)
  exact absurd hbound (by decide)

end Routers.Network

end Inet256
