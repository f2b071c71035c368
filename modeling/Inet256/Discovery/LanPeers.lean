import Inet256.Discovery.Lan

/-!
# What an announcement changes

The sender of an announcement is not named in it: the receiver tries the
addresses it knows as keys.  If only the key that sealed a message opens it, the
peer whose addresses are set is the one that announced them, in whatever order
the peers are tried.
-/

namespace Inet256.Discovery.Lan

open Inet256.Foundation
open Inet256.Foundation.Json

variable {T : Type} {codecs : Codecs} {memory : Nat → Bytes} {msg : Message}

/-! ## Sealed messages -/

/-- Twelve bytes of the time, and the payload sealed under the address with them as nonce. -/
def newMessage (aeadSeal : Addr → Bytes → Bytes → Bytes) (now : Bytes) (id : Addr)
    (payload : Bytes) : Bytes :=
  let nonce := (copyTo 12 now).toList
  nonce ++ aeadSeal id nonce payload

/-- What is sealed is opened under the same key and nonce, and under no other. -/
structure Authentic (codecs : Codecs) (aeadSeal : Addr → Bytes → Bytes → Bytes) : Prop where
  open_iff : ∀ id nonce payload id' nonce' ptext, nonce.length = 12 → nonce'.length = 12 →
    (codecs.aeadOpen id' nonce' (aeadSeal id nonce payload) = some ptext ↔
      id' = id ∧ nonce' = nonce ∧ ptext = payload)

/-- The slice lies in its array and shows these bytes. -/
structure Message.Holds (memory : Nat → Bytes) (m : Message) (data : Bytes) : Prop where
  bound : m.len ≤ (m.backing memory).length
  content : m.content memory = data

theorem Message.Holds.length_eq {data : Bytes} (h : msg.Holds memory data) :
    data.length = msg.len := by
  rw [← h.content, Message.content, List.length_take]
  exact Nat.min_eq_left h.bound

theorem openWith_of_holds {nonce ctext : Bytes} (h : msg.Holds memory (nonce ++ ctext))
    (hnonce : nonce.length = 12) (ids : List Addr) :
    msg.openWith codecs memory ids = openLoop codecs nonce ctext 0 ids := by
  have hlength := h.length_eq
  rw [List.length_append] at hlength
  -- the array behind the slice begins with the bytes of the message
  have hbacking : msg.backing memory = nonce ++ (ctext ++ (msg.backing memory).drop msg.len) := by
    rw [← List.append_assoc, ← h.content, Message.content, List.take_append_drop]
  have hfirst : slice (msg.backing memory) 0 12 = .ok nonce := by
    rw [hbacking]
    exact slice_append [] nonce _ rfl (by omega)
  have hrest : slice (msg.backing memory) 12 msg.len = .ok ctext := by
    rw [hbacking]
    exact slice_append nonce ctext _ hnonce (by omega)
  simp only [Message.openWith, hfirst, hrest, Go.ok_bind]

theorem openLoop_sealed {aeadSeal : Addr → Bytes → Bytes → Bytes}
    (authentic : Authentic codecs aeadSeal) {nonce : Bytes} (hnonce : nonce.length = 12)
    (id : Addr) (payload : Bytes) (i : Nat) (ids : List Addr) :
    openLoop codecs nonce (aeadSeal id nonce payload) i ids =
      if id ∈ ids then .ok (i + ids.idxOf id, payload)
      else fail "no provided peer sent this message" := by
  induction ids generalizing i with
  | nil => simp [openLoop]
  | cons first ids ih =>
      have hopen := authentic.open_iff id nonce payload first nonce
      by_cases hfirst : first = id
      · subst hfirst
        have hsome := (hopen payload hnonce hnonce).mpr ⟨rfl, rfl, rfl⟩
        simp [openLoop, hsome]
      · have hnone : codecs.aeadOpen first nonce (aeadSeal id nonce payload) = none := by
          cases hfound : codecs.aeadOpen first nonce (aeadSeal id nonce payload) with
          | none => rfl
          | some ptext => exact absurd ((hopen ptext hnonce hnonce).mp hfound).1 hfirst
        simp only [openLoop, hnone, ih, List.mem_cons, Ne.symm hfirst, false_or]
        rw [List.idxOf_cons_ne _ hfirst, Nat.add_right_comm, Nat.add_assoc]

/-! ## Announced addresses -/

/-- What `Bus.Announce` puts into the advertisement. -/
def advertised (text : T → String) (addrs : List T) (solicit : Bool) : Advertisement :=
  ⟨addrs.map text, solicit⟩

theorem parseAddrs_map {ap : AddrParser T} {text : T → String}
    (h : ∀ a, ap (stringBytes (text a)) = .ok a) (addrs : List T) :
    parseAddrs ap (addrs.map text) = .ok addrs := by
  induction addrs with
  | nil => rfl
  | cons a addrs ih =>
      simp only [List.map_cons, parseAddrs, h a, ih]
      rfl

theorem readAdvertisement_sealed {aeadSeal : Addr → Bytes → Bytes → Bytes}
    (authentic : Authentic codecs aeadSeal) {params : Params T} {text : T → String}
    (hparser : ∀ a, params.addrParser (stringBytes (text a)) = .ok a) {now : Bytes} {p : Addr}
    {payload : Bytes} {addrs : List T} {solicit : Bool}
    (hpayload : codecs.unmarshal payload = .ok (advertised text addrs solicit))
    (h : msg.Holds memory (newMessage aeadSeal now p payload)) {ps : List Addr} (hp : p ∈ ps) :
    readAdvertisement codecs params memory ps msg = .ok (p, addrs, solicit) := by
  have hnonce : (copyTo 12 now).toList.length = 12 := (copyTo 12 now).toList_length
  have hindex : ps[0 + ps.idxOf p]? = some p := by
    rw [Nat.zero_add]
    exact List.getElem?_idxOf hp
  simp only [readAdvertisement, openWith_of_holds h hnonce,
    openLoop_sealed authentic hnonce, if_pos hp, Go.ok_bind, hpayload, advertised,
    parseAddrs_map hparser, hindex, Go.pure_eq_ok]

theorem openWith_sealed {aeadSeal : Addr → Bytes → Bytes → Bytes}
    (authentic : Authentic codecs aeadSeal) {now : Bytes} {p : Addr} {payload : Bytes}
    (h : msg.Holds memory (newMessage aeadSeal now p payload)) (ids : List Addr) :
    msg.openWith codecs memory ids =
      if p ∈ ids then .ok (0 + ids.idxOf p, payload)
      else fail "no provided peer sent this message" := by
  have hnonce : (copyTo 12 now).toList.length = 12 := (copyTo 12 now).toList_length
  rw [openWith_of_holds h hnonce, openLoop_sealed authentic hnonce]

/-! ## The store -/

theorem lookup_setAddrs (s : Peers.Store T) (k : Addr) (addrs : List T) (id : Addr) :
    (Peers.setAddrs s k addrs).lookup id =
      if id = k then (s.lookup k).map fun _ => ⟨addrs⟩ else s.lookup id := by
  unfold Peers.setAddrs Peers.Store.update
  split
  · next info hinfo =>
      rw [GoMap.lookup_insert_eq, hinfo]
      rfl
  · next hnone =>
      rw [hnone]
      split
      · next hsame =>
          subst hsame
          exact hnone
      · rfl

theorem isSome_handleMessage (codecs : Codecs) (params : Params T) (peers : Peers.Store T)
    (ps : List Addr) (memory : Nat → Bytes) (msg : Message) (id : Addr) :
    ((handleMessage codecs params peers ps memory msg).1.lookup id).isSome =
      (peers.lookup id).isSome := by
  unfold handleMessage
  split
  · rfl
  · rfl
  · split
    · rfl
    · rw [lookup_setAddrs]
      split
      · next hsame =>
          subst hsame
          exact Option.isSome_map
      · rfl

/-- The message is opened under no peer's key, or what it holds cannot be read. -/
def Unreadable (codecs : Codecs) (params : Params T) (memory : Nat → Bytes) (ps : List Addr)
    (msg : Message) : Prop :=
  (∃ fault, msg.openWith codecs memory ps = .error fault) ∨
  ∃ i data, msg.openWith codecs memory ps = .ok (i, data) ∧
    ((∃ err, codecs.unmarshal data = .error err) ∨
      ∃ adv err, codecs.unmarshal data = .ok adv ∧
        parseAddrs params.addrParser adv.transports = .error err)

theorem handleMessage_unreadable {params : Params T} {ps : List Addr}
    (h : Unreadable codecs params memory ps msg) (peers : Peers.Store T) :
    (handleMessage codecs params peers ps memory msg).1 = peers := by
  have hread : ∃ fault, readAdvertisement codecs params memory ps msg = .error fault := by
    unfold readAdvertisement
    rcases h with ⟨fault, hopen⟩ | ⟨i, data, hopen, ⟨err, hjson⟩ | ⟨adv, err, hjson, hparse⟩⟩
    · rw [hopen]
      exact ⟨fault, rfl⟩
    · simp only [hopen, Go.ok_bind, hjson]
      exact ⟨_, rfl⟩
    · simp only [hopen, Go.ok_bind, hjson, hparse]
      exact ⟨_, rfl⟩
  obtain ⟨fault, hread⟩ := hread
  unfold handleMessage
  split
  · rfl
  · rfl
  · simp only [hread]

/-- The effect of one message on a store whose peers are listed as `ps`. -/
structure UpdatesAnnouncer (codecs : Codecs) (aeadSeal : Addr → Bytes → Bytes → Bytes)
    (text : T → String) (params : Params T) (peers : Peers.Store T) (ps : List Addr)
    (memory : Nat → Bytes) (msg : Message) : Prop where
  known : ∀ now p payload addrs solicit,
    msg.Holds memory (newMessage aeadSeal now p payload) →
    codecs.unmarshal payload = .ok (advertised text addrs solicit) → p ≠ params.localID →
    ∀ info, peers.lookup p = some info → ∀ id,
      (handleMessage codecs params peers ps memory msg).1.lookup id =
        if id = p then some ⟨addrs⟩ else peers.lookup id
  other : ∀ now p payload,
    msg.Holds memory (newMessage aeadSeal now p payload) →
    p = params.localID ∨ peers.lookup p = none →
    (handleMessage codecs params peers ps memory msg).1 = peers
  failed : Unreadable codecs params memory ps msg →
    (handleMessage codecs params peers ps memory msg).1 = peers
  keeps : ∀ id, ((handleMessage codecs params peers ps memory msg).1.lookup id).isSome =
    (peers.lookup id).isSome

theorem handleMessage_updates_announcer {aeadSeal : Addr → Bytes → Bytes → Bytes}
    (authentic : Authentic codecs aeadSeal) {text : T → String} {params : Params T}
    (hparser : ∀ a, params.addrParser (stringBytes (text a)) = .ok a) (peers : Peers.Store T)
    {ps : List Addr} (hlist : peers.Ranges ps) (memory : Nat → Bytes) (msg : Message) :
    UpdatesAnnouncer codecs aeadSeal text params peers ps memory msg where
  known := by
    intro now p payload addrs solicit hmsg hpayload hlocal info hinfo id
    have hself : msg.openWith codecs memory [params.localID] =
        fail "no provided peer sent this message" := by
      rw [openWith_sealed authentic hmsg, if_neg (by simpa using hlocal)]
    have hp : p ∈ ps := (hlist.mem_iff p).mpr ⟨info, hinfo⟩
    have hread := readAdvertisement_sealed authentic hparser hpayload hmsg hp
    have hstore : (handleMessage codecs params peers ps memory msg).1 =
        Peers.setAddrs peers p addrs := by
      simp only [handleMessage, hself, fail, hread]
    rw [hstore, lookup_setAddrs, hinfo]
    rfl
  other := by
    intro now p payload hmsg hp
    by_cases hlocal : p = params.localID
    · have hself : ∃ found, msg.openWith codecs memory [params.localID] = .ok found := by
        rw [openWith_sealed authentic hmsg, if_pos (by simp [hlocal])]
        exact ⟨_, rfl⟩
      obtain ⟨found, hself⟩ := hself
      simp only [handleMessage, hself]
    · have hnone : peers.lookup p = none := hp.resolve_left hlocal
      have hmissing : p ∉ ps := by
        intro hmem
        obtain ⟨info, hinfo⟩ := (hlist.mem_iff p).mp hmem
        rw [hnone] at hinfo
        cases hinfo
      apply handleMessage_unreadable
      left
      rw [openWith_sealed authentic hmsg, if_neg hmissing]
      exact ⟨_, rfl⟩
  failed := fun h => handleMessage_unreadable h peers
  keeps := isSome_handleMessage codecs params peers ps memory msg

/-! ### An announcement that is received -/

/-- The key and the nonce in front, the length of a tag behind. -/
def sampleSeal (id : Addr) (nonce payload : Bytes) : Bytes :=
  id.toList ++ (nonce ++ (payload ++ List.replicate 16 0))

def samplePayload : Bytes := ascii "\x7b\"transports\":[\"a\"],\"solicit\":false\x7d"

def sampleSealed : Codecs where
  aeadOpen id nonce ctext :=
    if ctext.take 44 = id.toList ++ nonce then
      some ((ctext.drop 44).take (ctext.length - 60))
    else none
  unmarshal data :=
    if data = samplePayload then .ok ⟨["a"], false⟩
    else .error "unexpected end of JSON input"

theorem authentic_sampleSealed : Authentic sampleSealed sampleSeal where
  open_iff := by
    intro id nonce payload id' nonce' ptext hnonce hnonce'
    have hid : id.toList.length = 32 := id.toList_length
    have hid' : id'.toList.length = 32 := id'.toList_length
    have htake : (sampleSeal id nonce payload).take 44 = id.toList ++ nonce := by
      rw [sampleSeal, ← List.append_assoc]
      exact List.take_left' (by rw [List.length_append]; omega)
    have hdrop : (sampleSeal id nonce payload).drop 44 = payload ++ List.replicate 16 0 := by
      rw [sampleSeal, ← List.append_assoc]
      exact List.drop_left' (by rw [List.length_append]; omega)
    have hlength : (sampleSeal id nonce payload).length - 60 = payload.length := by
      simp only [sampleSeal, List.length_append, List.length_replicate]
      omega
    simp only [sampleSealed, htake, hdrop, hlength, List.take_left]
    constructor
    · intro h
      split at h
      · next hkey =>
          obtain ⟨hsame, hnonces⟩ := List.append_inj hkey (by omega)
          exact ⟨(List.Vector.eq _ _ hsame).symm, hnonces.symm, (Option.some.inj h).symm⟩
      · cases h
    · rintro ⟨rfl, rfl, rfl⟩
      rw [if_pos rfl]

def sampleText : Params String where
  localID := copyTo 32 [1]
  addrParser data :=
    match bytesString data with
    | some text => .ok text
    | none => .error "invalid address"

def sampleAnnouncer : Addr := copyTo 32 [2]

def sampleOther : Addr := copyTo 32 [3]

def sampleAnnounced (id : Addr) : Bytes := newMessage sampleSeal [64] id samplePayload

def samplePeer : Peers.Store String := Finmap.insert sampleAnnouncer ⟨["old"]⟩ ∅

def samplePeers : Peers.Store String := Finmap.insert sampleOther ⟨["b"]⟩ samplePeer

/-- What the store is after an announcement of the peer. -/
def sampleHandled (id : Addr) : Peers.Store String :=
  (handleMessage sampleSealed sampleText samplePeers [sampleOther, sampleAnnouncer]
    (fun _ => sampleAnnounced id) (.view 0 (sampleAnnounced id).length)).1

/-- Of two peers the announcer gets its address; an announcement of a third changes nothing. -/
theorem handleMessage_updates_announcer_sample :
    (sampleHandled sampleAnnouncer).lookup sampleAnnouncer = some ⟨["a"]⟩ ∧
      (sampleHandled sampleAnnouncer).lookup sampleOther = some ⟨["b"]⟩ ∧
      sampleHandled (copyTo 32 [4]) = samplePeers := by
  have hlist : GoMap.Ranges samplePeers [sampleOther, sampleAnnouncer] := by
    have hone : GoMap.Ranges samplePeer [sampleAnnouncer] :=
      GoMap.ranges_empty.insert (by simp) _
    exact hone.insert (by decide) _
  have hparser : ∀ a : String, sampleText.addrParser (stringBytes a) = .ok a := by
    intro a
    simp only [sampleText, bytesString_stringBytes]
  have hupdates : ∀ id, UpdatesAnnouncer sampleSealed sampleSeal (fun text => text) sampleText
      samplePeers [sampleOther, sampleAnnouncer] (fun _ => sampleAnnounced id)
      (.view 0 (sampleAnnounced id).length) := fun id =>
    handleMessage_updates_announcer authentic_sampleSealed hparser samplePeers hlist _ _
  have hholds : ∀ id, Message.Holds (fun _ => sampleAnnounced id)
      (.view 0 (sampleAnnounced id).length) (sampleAnnounced id) :=
    fun _ => ⟨le_rfl, List.take_length⟩
  have hknown := (hupdates sampleAnnouncer).known [64] sampleAnnouncer samplePayload ["a"] false
    (hholds _) rfl (by decide) ⟨["old"]⟩ (by decide)
  refine ⟨?_, ?_, ?_⟩
  · exact (hknown sampleAnnouncer).trans (if_pos rfl)
  · exact (hknown sampleOther).trans (by decide)
  · exact (hupdates _).other [64] (copyTo 32 [4]) samplePayload (hholds _) (Or.inr (by decide))

end Inet256.Discovery.Lan
