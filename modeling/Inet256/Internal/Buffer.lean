import Inet256.Internal.Bitstr

/-!
# Buffers and lists of bits

The methods of a buffer, with every word access checked, run in lockstep with
the same operations on a list of bits.  Truncating leaves the words as they are;
the bits beyond the length are overwritten before they can be read again.
-/

namespace Inet256.Bitstr

open Inet256.Foundation

/-! ## The methods -/

structure RawBuffer where
  words : List UInt64
  len : Nat
  deriving DecidableEq

namespace RawBuffer

def empty : RawBuffer := ⟨[], 0⟩

/-- The method `set`. -/
def setWord (b : RawBuffer) (i : Nat) (x : Bool) : Go RawBuffer :=
  if i / wordBits < b.words.length then
    .ok { b with words := b.words.modify (i / wordBits) (Buffer.setBit i x) }
  else
    crash "index out of range"

/-- Room for one more bit. -/
def grow (b : RawBuffer) : RawBuffer :=
  if b.words.length * wordBits ≤ b.len then { b with words := b.words ++ [0] } else b

def append (b : RawBuffer) (x : Bool) : Go RawBuffer := do
  let b ← b.grow.setWord b.len x
  return { b with len := b.len + 1 }

def appendByteLSB (b : RawBuffer) (x : UInt8) : Go RawBuffer :=
  (List.range 8).foldlM (fun b i => b.append (decide (0 < x &&& mask8LSB i))) b

def appendByteMSB (b : RawBuffer) (x : UInt8) : Go RawBuffer :=
  (List.range 8).foldlM (fun b i => b.append (decide (0 < x &&& mask8MSB i))) b

def set (b : RawBuffer) (i : Nat) (x : Bool) : Go RawBuffer :=
  let len := b.len
  if len ≤ i then crash s!"out of range index={i} len={len}" else b.setWord i x

/-- The method `at`. -/
def wordAt (b : RawBuffer) (i : Nat) : Go Bool :=
  match b.words[i / wordBits]? with
  | none => crash "index out of range"
  | some word => .ok (decide (0 < word &&& mask64 i))

def bitAt (b : RawBuffer) (i : Nat) : Go Bool :=
  let len := b.len
  if len ≤ i then crash s!"index out of range len={len} index={i}" else b.wordAt i

def truncate (b : RawBuffer) (n : Nat) : RawBuffer := { b with len := n }

def reset (b : RawBuffer) : RawBuffer := b.truncate 0

/-- A buffer is a source itself. -/
def source (b : RawBuffer) : Source where
  len := b.len
  bitAt := b.bitAt

/-- `AppendAll` from index `i` on.  The source may read the buffer it is appended to, and
its length is asked for before every round. -/
def appendAllFrom (x : Source → Source) : Nat → Nat → RawBuffer → Bounded RawBuffer
  | 0, _, _ => Bounded.unfinished
  | rounds + 1, i, b =>
      if (i : Int) < (x b.source).len then do
        let bit ← Bounded.ofGo ((x b.source).bitAt i)
        let b ← Bounded.ofGo (b.append bit)
        appendAllFrom x rounds (i + 1) b
      else
        pure b

end RawBuffer

/-! ## Operations on lists -/

inductive Op where
  | append (x : Bool)
  | appendAll (x : Source → Source)
  | appendByteLSB (x : UInt8)
  | appendByteMSB (x : UInt8)
  | set (i : Nat) (x : Bool)
  | truncate (n : Nat)
  | reset

def byteLSB (x : UInt8) : List Bool := (List.range 8).map fun i => x.toNat.testBit i

def byteMSB (x : UInt8) : List Bool := (List.range 8).map fun i => x.toNat.testBit (7 - i)

def listSource (l : List Bool) : Source where
  len := l.length
  bitAt i :=
    let len := l.length
    match l[i]? with
    | none => crash s!"index out of range len={len} index={i}"
    | some bit => .ok bit

def appendBitsFrom (x : Source → Source) : Nat → Nat → List Bool → Bounded (List Bool)
  | 0, _, _ => Bounded.unfinished
  | rounds + 1, i, l =>
      if (i : Int) < (x (listSource l)).len then do
        let bit ← Bounded.ofGo ((x (listSource l)).bitAt i)
        appendBitsFrom x rounds (i + 1) (l ++ [bit])
      else
        pure l

namespace Op

def onBuffer (rounds : Nat) (b : RawBuffer) : Op → Bounded RawBuffer
  | append x => Bounded.ofGo (b.append x)
  | appendAll x => b.appendAllFrom x rounds 0
  | appendByteLSB x => Bounded.ofGo (b.appendByteLSB x)
  | appendByteMSB x => Bounded.ofGo (b.appendByteMSB x)
  | set i x => Bounded.ofGo (b.set i x)
  | truncate n => pure (b.truncate n)
  | reset => pure b.reset

def onBits (rounds : Nat) (l : List Bool) : Op → Bounded (List Bool)
  | append x => pure (l ++ [x])
  | appendAll x => appendBitsFrom x rounds 0 l
  | appendByteLSB x => pure (l ++ byteLSB x)
  | appendByteMSB x => pure (l ++ byteMSB x)
  | set i x => pure (l.set i x)
  | truncate n => pure (l.take n)
  | reset => pure []

def Allowed (l : List Bool) : Op → Prop
  | set i _ => i < l.length
  | truncate n => n ≤ l.length
  | _ => True

end Op

def runBuffer (rounds : Nat) (ops : List Op) (b : RawBuffer) : Bounded RawBuffer :=
  ops.foldlM (fun b op => op.onBuffer rounds b) b

def runBits (rounds : Nat) (ops : List Op) (l : List Bool) : Bounded (List Bool) :=
  ops.foldlM (fun l op => op.onBits rounds l) l

/-- Every operation is allowed where the run reaches it. -/
def Legal (rounds : Nat) : List Op → List Bool → Prop
  | [], _ => True
  | op :: ops, l => op.Allowed l ∧ ∀ l', op.onBits rounds l = pure l' → Legal rounds ops l'

/-- The methods `Len` and `At` read the list. -/
def RawBuffer.Shows (b : RawBuffer) (l : List Bool) : Prop :=
  b.len = l.length ∧ ∀ i (hi : i < l.length), b.bitAt i = .ok l[i]

/-! ## Buffers that have room for their bits -/

namespace Buffer

def raw (b : Buffer) : RawBuffer := ⟨b.words, b.len⟩

theorem raw_append (b : Buffer) (x : Bool) : b.raw.append x = .ok (b.append x).raw := by
  have hroom := b.room
  have hgrow : b.raw.grow =
      ⟨if b.words.length * wordBits ≤ b.len then b.words ++ [0] else b.words, b.len⟩ := by
    rw [RawBuffer.grow]
    change (if b.words.length * wordBits ≤ b.len then _ else _) = _
    split <;> rfl
  have hlt : b.raw.len / wordBits < b.raw.grow.words.length := by
    rw [hgrow]
    change b.len / wordBits < (if b.words.length * wordBits ≤ b.len then _ else _ : List _).length
    unfold wordBits at hroom ⊢
    split
    · rw [List.length_append, List.length_singleton]
      omega
    · omega
  rw [RawBuffer.append, RawBuffer.setWord, if_pos hlt, hgrow]
  rfl

theorem raw_appendEach (f : Nat → Bool) (indices : List Nat) (b : Buffer) :
    ∃ b' : Buffer, indices.foldlM (fun b i => b.append (f i)) b.raw = .ok b'.raw ∧
      b'.bits = b.bits ++ indices.map f := by
  induction indices generalizing b with
  | nil => exact ⟨b, rfl, by simp⟩
  | cons i indices ih =>
      obtain ⟨b', hfold, hbits⟩ := ih (b.append (f i))
      refine ⟨b', ?_, by simpa using hbits⟩
      rw [List.foldlM_cons, raw_append, Go.ok_bind, hfold]

def set (b : Buffer) (i : Nat) (x : Bool) : Buffer where
  words := b.words.modify (i / wordBits) (setBit i x)
  len := b.len
  room := by
    rw [List.length_modify]
    exact b.room

theorem lt_words {b : Buffer} {i : Nat} (h : i < b.len) : i / wordBits < b.words.length := by
  have hroom := b.room
  unfold wordBits at hroom ⊢
  omega

theorem raw_set {b : Buffer} {i : Nat} (h : i < b.len) (x : Bool) :
    b.raw.set i x = .ok (b.set i x).raw := by
  have hlt : i / wordBits < b.raw.words.length := lt_words h
  have hlen : ¬ b.raw.len ≤ i := not_le.2 h
  rw [RawBuffer.set, if_neg hlen, RawBuffer.setWord, if_pos hlt]
  rfl

theorem bits_set {b : Buffer} {i : Nat} (h : i < b.len) (x : Bool) :
    (b.set i x).bits = b.bits.set i x := by
  have hroom : i < b.words.length * wordOrder.width := h.trans_le b.room
  apply wordOrder.bits_ext
  · rw [List.length_set, length_bits]
    rfl
  · intro j hj
    change wordOrder.get (b.words.modify (i / wordOrder.width) (setBit i x)) j = _
    rw [setBit_eq_put, wordOrder.get_modify hroom, List.getElem_set]
    by_cases hij : j = i
    · rw [if_pos hij, if_pos hij.symm]
    · rw [if_neg hij, if_neg fun h => hij h.symm]
      simp [bits]

theorem raw_bitAt {b : Buffer} {i : Nat} (h : i < b.bits.length) :
    b.raw.bitAt i = .ok b.bits[i] := by
  have hi : i < b.len := by rwa [length_bits] at h
  have hlen : ¬ b.raw.len ≤ i := not_le.2 hi
  have hword : b.raw.words[i / wordBits]? = some (b.words.getD (i / wordBits) 0) := by
    have hlt := lt_words hi
    simp [raw, hlt]
  have hbit : b.bits[i] = b.bitAt i := by
    rw [b.bitAt_eq_get]
    exact wordOrder.getElem_bits b.words h
  rw [RawBuffer.bitAt, if_neg hlen, RawBuffer.wordAt, hword, hbit]
  rfl

end Buffer

/-- A buffer with room for its bits, and what they are. -/
def RawBuffer.Refines (raw : RawBuffer) (l : List Bool) : Prop :=
  ∃ b : Buffer, b.raw = raw ∧ b.bits = l

namespace RawBuffer.Refines

variable {raw : RawBuffer} {l : List Bool}

theorem empty : RawBuffer.empty.Refines [] := ⟨Buffer.empty, rfl, rfl⟩

theorem shows (h : raw.Refines l) : raw.Shows l := by
  obtain ⟨b, rfl, rfl⟩ := h
  exact ⟨b.length_bits.symm, fun i hi => Buffer.raw_bitAt hi⟩

/-- No source can tell the buffer from the list. -/
theorem source_eq (h : raw.Refines l) : raw.source = listSource l := by
  obtain ⟨hlen, hbitAt⟩ := h.shows
  have hfun : raw.bitAt = (listSource l).bitAt := by
    funext i
    by_cases hi : i < l.length
    · rw [hbitAt i hi]
      simp [listSource, hi]
    · have hle : l.length ≤ i := not_lt.1 hi
      simp [listSource, RawBuffer.bitAt, hlen, hle]
  rw [RawBuffer.source, hlen, hfun]
  rfl

theorem append (h : raw.Refines l) (x : Bool) :
    ∃ raw', raw.append x = .ok raw' ∧ raw'.Refines (l ++ [x]) := by
  obtain ⟨b, rfl, rfl⟩ := h
  exact ⟨(b.append x).raw, b.raw_append x, b.append x, rfl, b.bits_append x⟩

theorem appendAllFrom (x : Source → Source) (rounds i : Nat) (h : raw.Refines l) :
    Bounded.Lockstep RawBuffer.Refines (raw.appendAllFrom x rounds i)
      (appendBitsFrom x rounds i l) := by
  induction rounds generalizing i raw l with
  | zero => exact .unfinished
  | succ rounds ih =>
      rw [RawBuffer.appendAllFrom, appendBitsFrom, h.source_eq]
      split
      · refine (Bounded.Lockstep.same _).bind ?_
        rintro bit _ rfl -
        obtain ⟨raw', happend, hrefines⟩ := h.append bit
        rw [happend, Bounded.ofGo_ok, pure_bind]
        exact ih (i + 1) hrefines
      · exact .value h

end RawBuffer.Refines

theorem map_mask8LSB (x : UInt8) :
    (List.range 8).map (fun i => decide (0 < x &&& mask8LSB i)) = byteLSB x := by
  apply List.map_congr_left
  intro i hi
  have hi := List.mem_range.1 hi
  rw [Bool.eq_iff_iff, decide_eq_true_iff, UInt8.lt_iff_toBitVec_lt, UInt8.toBitVec_and,
    toBitVec_mask8LSB, Nat.mod_eq_of_lt hi]
  exact zero_lt_and_twoPow x.toBitVec hi

theorem map_mask8MSB (x : UInt8) :
    (List.range 8).map (fun i => decide (0 < x &&& mask8MSB i)) = byteMSB x := by
  apply List.map_congr_left
  intro i hi
  have hi := List.mem_range.1 hi
  rw [Bool.eq_iff_iff, decide_eq_true_iff, UInt8.lt_iff_toBitVec_lt, UInt8.toBitVec_and,
    toBitVec_mask8MSB, Nat.mod_eq_of_lt hi]
  exact zero_lt_and_twoPow x.toBitVec (by omega)

/-! ## Runs -/

/-- One operation that the list allows. -/
theorem Op.lockstep {op : Op} {raw : RawBuffer} {l : List Bool} (rounds : Nat)
    (h : raw.Refines l) (hallowed : op.Allowed l) :
    Bounded.Lockstep RawBuffer.Refines (op.onBuffer rounds raw) (op.onBits rounds l) := by
  cases op with
  | append x =>
      obtain ⟨raw', happend, hrefines⟩ := h.append x
      rw [onBuffer, happend]
      exact .value hrefines
  | appendAll x => exact h.appendAllFrom x rounds 0
  | appendByteLSB x =>
      obtain ⟨b, rfl, rfl⟩ := h
      obtain ⟨b', hfold, hbits⟩ :=
        b.raw_appendEach (fun i => decide (0 < x &&& mask8LSB i)) (List.range 8)
      rw [map_mask8LSB] at hbits
      rw [onBuffer, RawBuffer.appendByteLSB, hfold]
      exact .value ⟨b', rfl, hbits⟩
  | appendByteMSB x =>
      obtain ⟨b, rfl, rfl⟩ := h
      obtain ⟨b', hfold, hbits⟩ :=
        b.raw_appendEach (fun i => decide (0 < x &&& mask8MSB i)) (List.range 8)
      rw [map_mask8MSB] at hbits
      rw [onBuffer, RawBuffer.appendByteMSB, hfold]
      exact .value ⟨b', rfl, hbits⟩
  | set i x =>
      obtain ⟨b, rfl, rfl⟩ := h
      have hi : i < b.len := by rwa [Allowed, Buffer.length_bits] at hallowed
      rw [onBuffer, Buffer.raw_set hi]
      exact .value ⟨b.set i x, rfl, Buffer.bits_set hi x⟩
  | truncate n =>
      obtain ⟨b, rfl, rfl⟩ := h
      have hn : n ≤ b.len := by rwa [Allowed, Buffer.length_bits] at hallowed
      exact .value ⟨⟨b.words, n, hn.trans b.room⟩, rfl, (wordOrder.take_bits b.words hn).symm⟩
  | reset =>
      obtain ⟨b, rfl, rfl⟩ := h
      exact .value ⟨⟨b.words, 0, Nat.zero_le _⟩, rfl, rfl⟩

theorem run_lockstep (rounds : Nat) {ops : List Op} {raw : RawBuffer} {l : List Bool}
    (h : raw.Refines l) (hlegal : Legal rounds ops l) :
    Bounded.Lockstep RawBuffer.Refines (runBuffer rounds ops raw) (runBits rounds ops l) := by
  induction ops generalizing raw l with
  | nil => exact .value h
  | cons op ops ih =>
      rw [runBuffer, runBits, List.foldlM_cons, List.foldlM_cons]
      -- the rest of the run is legal from where the operation leads
      refine (op.lockstep rounds h hlegal.1).bind fun raw' l' hrefines hreturn => ?_
      exact ih hrefines (hlegal.2 l' hreturn)

/-! ### Sources that stay as they are -/

def Source.bits (x : Source) : List Bool :=
  (List.range x.len.toNat).map fun i => (x.bitAt i).toOption.getD false

theorem Source.Reads.bits_eq {x : Source} {bits : List Bool} (h : x.Reads bits) :
    x.bits = bits := by
  apply List.ext_getElem
  · simp [Source.bits, h.len]
  · intro i _ hi
    simp [Source.bits, h.bitAt i hi, Except.toOption]

/-- What is appended can be read to its end and does not depend on the buffer. -/
def Op.Fixed : Op → Prop
  | appendAll x => ∃ source bits, x = (fun _ => source) ∧ source.Reads bits
  | _ => True

def Op.plain (l : List Bool) : Op → List Bool
  | append x => l ++ [x]
  | appendAll x => l ++ (x (listSource l)).bits
  | appendByteLSB x => l ++ byteLSB x
  | appendByteMSB x => l ++ byteMSB x
  | set i x => l.set i x
  | truncate n => l.take n
  | reset => []

theorem appendBitsFrom_of_reads {source : Source} {bits : List Bool} (h : source.Reads bits)
    {rounds i : Nat} (hi : i ≤ bits.length) (hrounds : bits.length < i + rounds)
    (l : List Bool) :
    appendBitsFrom (fun _ => source) rounds i l = pure (l ++ bits.drop i) := by
  have hlen := h.len
  induction rounds generalizing i l with
  | zero => omega
  | succ rounds ih =>
      rw [appendBitsFrom]
      by_cases hmore : i < bits.length
      · rw [if_pos (by omega), h.bitAt i hmore, Bounded.ofGo_ok, pure_bind,
          ih hmore (by omega), List.append_assoc, List.singleton_append,
          List.getElem_cons_drop]
      · have hdrop : bits.drop i = [] := List.drop_of_length_le (by omega)
        rw [if_neg (by omega), hdrop, List.append_nil]

theorem runBits_of_fixed {ops : List Op} (h : ∀ op ∈ ops, op.Fixed) :
    ∃ n, ∀ rounds ≥ n, ∀ l, runBits rounds ops l = pure (ops.foldl Op.plain l) := by
  induction ops with
  | nil => exact ⟨0, fun _ _ _ => rfl⟩
  | cons op ops ih =>
      obtain ⟨n, hrest⟩ := ih fun op hop => h op (List.mem_cons_of_mem _ hop)
      have hfirst : ∃ m, ∀ rounds ≥ m, ∀ l, op.onBits rounds l = pure (op.plain l) := by
        have hfixed := h op List.mem_cons_self
        cases op with
        | appendAll x =>
            obtain ⟨source, bits, rfl, hreads⟩ := hfixed
            refine ⟨bits.length + 1, fun rounds hrounds l => ?_⟩
            rw [Op.onBits, appendBitsFrom_of_reads hreads (Nat.zero_le _) (by omega), Op.plain,
              hreads.bits_eq, List.drop_zero]
        | _ => exact ⟨0, fun _ _ _ => rfl⟩
      obtain ⟨m, hfirst⟩ := hfirst
      refine ⟨max m n, fun rounds hrounds l => ?_⟩
      rw [runBits, List.foldlM_cons, hfirst rounds ((le_max_left m n).trans hrounds), pure_bind,
        List.foldl_cons]
      exact hrest rounds ((le_max_right m n).trans hrounds) (op.plain l)

/--
A run of the methods and a run of the same operations on a list end alike, and where they return
the methods `Len` and `At` read the list.  They do return if the sources to be appended do not
change, and then each of the operations has its plain meaning.
-/
theorem buffer_refines_bits (ops : List Op) :
    (∀ rounds, Legal rounds ops [] →
      Bounded.Lockstep RawBuffer.Shows (runBuffer rounds ops .empty) (runBits rounds ops [])) ∧
    ((∀ op ∈ ops, op.Fixed) → ∃ n, ∀ rounds ≥ n, Legal rounds ops [] →
      ∃ b, runBuffer rounds ops .empty = pure b ∧ b.Shows (ops.foldl Op.plain [])) := by
  have hlockstep : ∀ rounds, Legal rounds ops [] →
      Bounded.Lockstep RawBuffer.Shows (runBuffer rounds ops .empty) (runBits rounds ops []) :=
    fun rounds hlegal =>
      (run_lockstep rounds RawBuffer.Refines.empty hlegal).mono fun _ _ hrefines => hrefines.shows
  refine ⟨hlockstep, fun hfixed => ?_⟩
  obtain ⟨n, hn⟩ := runBits_of_fixed hfixed
  refine ⟨n, fun rounds hrounds hlegal => ?_⟩
  exact (hlockstep rounds hlegal).of_returns (hn rounds hrounds [])

end Inet256.Bitstr
