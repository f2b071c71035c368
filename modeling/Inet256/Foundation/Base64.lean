import Inet256.Foundation.Bytes

/-!
# Base64 without padding

Three bytes are four digits of six bits; one or two bytes at the end are two or
three digits, the last of which ends in zero bits.  The decoder writes into an
array, ignores line breaks and does not look at the bits it has no use for.
-/

namespace Inet256.Foundation.Base64

def newlines : Bytes := [10, 13]

/-- Sixty-four letters, none of them a line break. -/
structure Alphabet where
  letters : Bytes
  length_eq : letters.length = 64
  nodup : letters.Nodup
  not_newline : ∀ letter ∈ letters, letter ∉ newlines

variable (alphabet : Alphabet)

def Alphabet.letter (digit : Nat) : UInt8 := alphabet.letters[digit]?.getD 0

def Alphabet.digit (letter : UInt8) : Option Nat :=
  if alphabet.letters.idxOf letter < 64 then some (alphabet.letters.idxOf letter) else none

/-- The digits of six bits. -/
def digits : Bytes → List Nat
  | a :: b :: c :: rest =>
      a.toNat / 4 :: (a.toNat % 4 * 16 + b.toNat / 16) :: (b.toNat % 16 * 4 + c.toNat / 64) ::
        c.toNat % 64 :: digits rest
  | [a, b] => [a.toNat / 4, a.toNat % 4 * 16 + b.toNat / 16, b.toNat % 16 * 4]
  | [a] => [a.toNat / 4, a.toNat % 4 * 16]
  | [] => []

def encode (data : Bytes) : Bytes := (digits data).map alphabet.letter

/--
Writes to an array of `room` bytes; a write past its end panics.  What is no digit, or too few of
them at the end, is reported to be at `corrupt`.
-/
def decodeDigits (corrupt : Nat) : (room : Nat) → List (Option Nat) → Go Bytes
  | room, some w :: some x :: some y :: some z :: rest =>
      if room < 3 then crash "index out of range"
      else do
        let data ← decodeDigits corrupt (room - 3) rest
        return UInt8.ofNat (w * 4 + x / 16) :: UInt8.ofNat (x * 16 + y / 4) ::
          UInt8.ofNat (y * 64 + z) :: data
  | room, [some w, some x, some y] =>
      if room < 2 then crash "index out of range"
      else .ok [UInt8.ofNat (w * 4 + x / 16), UInt8.ofNat (x * 16 + y / 4)]
  | room, [some w, some x] =>
      if room < 1 then crash "index out of range" else .ok [UInt8.ofNat (w * 4 + x / 16)]
  | _, [] => .ok []
  | _, _ => fail s!"illegal base64 data at input byte {corrupt}"

/-- The first byte that is neither a letter nor a line break, or else the last byte. -/
def corruptAt (text : Bytes) : Nat :=
  min (text.findIdx fun byte => byte ∉ newlines ∧ (alphabet.digit byte).isNone)
    (text.length - 1)

def decode (room : Nat) (text : Bytes) : Go Bytes :=
  decodeDigits (corruptAt alphabet text) room
    ((text.filter fun byte => byte ∉ newlines).map alphabet.digit)

theorem digits_lt (data : Bytes) : ∀ digit ∈ digits data, digit < 64 := by
  induction data using digits.induct with
  | case1 a b c rest ih =>
      have ha := a.toNat_lt
      have hb := b.toNat_lt
      have hc := c.toNat_lt
      simp only [digits, List.forall_mem_cons]
      exact ⟨by omega, by omega, by omega, by omega, ih⟩
  | case2 a b =>
      have ha := a.toNat_lt
      have hb := b.toNat_lt
      simp [digits]
      omega
  | case3 a =>
      have ha := a.toNat_lt
      simp [digits]
      omega
  | case4 => simp [digits]

theorem ofNat_eq_of_mod {n : Nat} {byte : UInt8} (h : n % 256 = byte.toNat) :
    UInt8.ofNat n = byte := by
  apply UInt8.toNat_inj.mp
  simpa using h

theorem decodeDigits_digits (data : Bytes) {corrupt room : Nat} (h : data.length ≤ room) :
    decodeDigits corrupt room ((digits data).map some) = .ok data := by
  induction data using digits.induct generalizing room with
  | case1 a b c rest ih =>
      have ha := a.toNat_lt
      have hb := b.toNat_lt
      have hc := c.toNat_lt
      simp only [List.length_cons] at h
      have hroom : ¬ room < 3 := by omega
      have hrest : decodeDigits corrupt (room - 3) ((digits rest).map some) = .ok rest :=
        ih (by omega)
      simp only [digits, List.map_cons, decodeDigits, hroom, if_false, hrest, Go.ok_bind,
        Go.pure_eq_ok]
      congr 2
      · exact ofNat_eq_of_mod (by omega)
      · congr 1
        · exact ofNat_eq_of_mod (by omega)
        · congr 1
          exact ofNat_eq_of_mod (by omega)
  | case2 a b =>
      have ha := a.toNat_lt
      have hb := b.toNat_lt
      simp only [List.length_cons, List.length_nil] at h
      have hroom : ¬ room < 2 := by omega
      simp only [digits, List.map_cons, List.map_nil, decodeDigits, hroom, if_false]
      congr 2
      · exact ofNat_eq_of_mod (by omega)
      · congr 1
        exact ofNat_eq_of_mod (by omega)
  | case3 a =>
      have ha := a.toNat_lt
      simp only [List.length_cons, List.length_nil] at h
      have hroom : ¬ room < 1 := by omega
      simp only [digits, List.map_cons, List.map_nil, decodeDigits, hroom, if_false]
      congr 2
      exact ofNat_eq_of_mod (by omega)
  | case4 => simp [digits, decodeDigits]

theorem letter_mem {digit : Nat} (h : digit < 64) : alphabet.letter digit ∈ alphabet.letters := by
  have hlt : digit < alphabet.letters.length := by
    rw [alphabet.length_eq]
    exact h
  simp [Alphabet.letter, List.getElem?_eq_getElem hlt]

theorem digit_letter {digit : Nat} (h : digit < 64) :
    alphabet.digit (alphabet.letter digit) = some digit := by
  have hlt : digit < alphabet.letters.length := by
    rw [alphabet.length_eq]
    exact h
  have hindex : alphabet.letters.idxOf (alphabet.letter digit) = digit := by
    rw [Alphabet.letter, List.getElem?_eq_getElem hlt]
    exact alphabet.nodup.idxOf_getElem digit hlt
  simp [Alphabet.digit, hindex, h]

theorem mem_letters_of_mem_encode {data : Bytes} {letter : UInt8}
    (h : letter ∈ encode alphabet data) : letter ∈ alphabet.letters := by
  obtain ⟨digit, hdigit, rfl⟩ := List.mem_map.mp h
  exact letter_mem alphabet (digits_lt data digit hdigit)

theorem decode_encode {data : Bytes} {room : Nat} (h : data.length ≤ room) :
    decode alphabet room (encode alphabet data) = .ok data := by
  have hfilter : (encode alphabet data).filter (fun byte => byte ∉ newlines) =
      encode alphabet data := by
    apply List.filter_eq_self.mpr
    intro letter hletter
    simpa using alphabet.not_newline letter (mem_letters_of_mem_encode alphabet hletter)
  have hdigits : (encode alphabet data).map alphabet.digit = (digits data).map some := by
    rw [encode, List.map_map]
    apply List.map_congr_left
    intro digit hdigit
    exact digit_letter alphabet (digits_lt data digit hdigit)
  rw [decode, hfilter, hdigits, decodeDigits_digits data h]

theorem length_digits (data : Bytes) : (digits data).length = (4 * data.length + 2) / 3 := by
  induction data using digits.induct with
  | case1 a b c rest ih =>
      simp only [digits, List.length_cons, ih]
      omega
  | case2 a b => simp [digits]
  | case3 a => simp [digits]
  | case4 => simp [digits]

theorem length_encode (data : Bytes) :
    (encode alphabet data).length = (4 * data.length + 2) / 3 := by
  rw [encode, List.length_map, length_digits]

theorem length_le_encode (data : Bytes) : data.length ≤ (encode alphabet data).length := by
  rw [length_encode]
  omega

/-! ## Texts of any length -/

/-- The bytes that digits stand for.  One digit on its own is not enough for a byte. -/
def bytesOf : List Nat → Option Bytes
  | w :: x :: y :: z :: rest =>
      (bytesOf rest).map fun data =>
        UInt8.ofNat (w * 4 + x / 16) :: UInt8.ofNat (x * 16 + y / 4) ::
          UInt8.ofNat (y * 64 + z) :: data
  | [w, x, y] => some [UInt8.ofNat (w * 4 + x / 16), UInt8.ofNat (x * 16 + y / 4)]
  | [w, x] => some [UInt8.ofNat (w * 4 + x / 16)]
  | [_] => none
  | [] => some []

/-- A text without its line breaks. -/
def unbroken (text : Bytes) : Bytes := text.filter fun byte => byte ∉ newlines

/-- The text consists of letters, line breaks apart, and stands for the bytes. -/
def Denotes (text data : Bytes) : Prop :=
  ∃ ns : List Nat, (unbroken text).map alphabet.digit = ns.map some ∧ bytesOf ns = some data

theorem decodeDigits_eq_ok {corrupt room : Nat} {ds : List (Option Nat)} {data : Bytes}
    (h : decodeDigits corrupt room ds = .ok data) :
    (∃ ns : List Nat, ds = ns.map some ∧ bytesOf ns = some data) ∧ data.length ≤ room := by
  induction room, ds using decodeDigits.induct generalizing data with
  | case1 room w x y z rest hroom =>
      rw [decodeDigits, if_pos hroom] at h
      cases h
  | case2 room w x y z rest hroom ih =>
      rw [decodeDigits, if_neg hroom] at h
      obtain ⟨tail, htail, h⟩ := Go.bind_eq_ok.mp h
      cases h
      obtain ⟨⟨ns, rfl, hns⟩, hlength⟩ := ih htail
      refine ⟨⟨w :: x :: y :: z :: ns, rfl, by rw [bytesOf, hns]; rfl⟩, ?_⟩
      simp only [List.length_cons]
      omega
  | case3 room w x y hroom =>
      rw [decodeDigits, if_pos hroom] at h
      cases h
  | case4 room w x y hroom =>
      rw [decodeDigits, if_neg hroom] at h
      cases h
      exact ⟨⟨[w, x, y], rfl, rfl⟩, Nat.not_lt.mp hroom⟩
  | case5 room w x hroom =>
      rw [decodeDigits, if_pos hroom] at h
      cases h
  | case6 room w x hroom =>
      rw [decodeDigits, if_neg hroom] at h
      cases h
      exact ⟨⟨[w, x], rfl, rfl⟩, Nat.not_lt.mp hroom⟩
  | case7 room =>
      cases h
      exact ⟨⟨[], rfl, rfl⟩, Nat.zero_le room⟩
  | case8 ds room hfour hthree htwo hnil =>
      rw [decodeDigits] at h
      · cases h
      all_goals assumption

theorem decodeDigits_of_bytesOf {ns : List Nat} {data : Bytes} {corrupt room : Nat}
    (h : bytesOf ns = some data) (hroom : data.length ≤ room) :
    decodeDigits corrupt room (ns.map some) = .ok data := by
  induction ns using bytesOf.induct generalizing data room with
  | case1 w x y z rest ih =>
      rw [bytesOf] at h
      obtain ⟨tail, htail, rfl⟩ := Option.map_eq_some_iff.mp h
      simp only [List.length_cons] at hroom
      have hrest := ih htail (show tail.length ≤ room - 3 by omega)
      have henough : ¬ room < 3 := by omega
      simp only [List.map_cons, decodeDigits, if_neg henough, hrest, Go.ok_bind, Go.pure_eq_ok]
  | case2 w x y =>
      cases h
      simp only [List.length_cons, List.length_nil] at hroom
      have henough : ¬ room < 2 := by omega
      simp only [List.map_cons, List.map_nil, decodeDigits, if_neg henough]
  | case3 w x =>
      cases h
      simp only [List.length_cons, List.length_nil] at hroom
      have henough : ¬ room < 1 := by omega
      simp only [List.map_cons, List.map_nil, decodeDigits, if_neg henough]
  | case4 w => cases h
  | case5 =>
      cases h
      rfl

/-- What is decoded is what the text denotes, if there is room for it. -/
theorem decode_eq_ok_iff {room : Nat} {text data : Bytes} :
    decode alphabet room text = .ok data ↔ Denotes alphabet text data ∧ data.length ≤ room := by
  constructor
  · intro h
    exact decodeDigits_eq_ok h
  · rintro ⟨⟨ns, hns, hdata⟩, hroom⟩
    rw [decode, ← unbroken, hns]
    exact decodeDigits_of_bytesOf hdata hroom

theorem exists_four_cons {α : Type} {items : List α} (h : 4 ≤ items.length) :
    ∃ a b c d rest, items = a :: b :: c :: d :: rest := by
  obtain ⟨a, items, rfl⟩ := List.exists_cons_of_length_pos (show 0 < items.length by omega)
  obtain ⟨b, items, rfl⟩ := List.exists_cons_of_length_pos
    (show 0 < items.length by rw [List.length_cons] at h; omega)
  obtain ⟨c, items, rfl⟩ := List.exists_cons_of_length_pos
    (show 0 < items.length by simp only [List.length_cons] at h; omega)
  obtain ⟨d, items, rfl⟩ := List.exists_cons_of_length_pos
    (show 0 < items.length by simp only [List.length_cons] at h; omega)
  exact ⟨a, b, c, d, items, rfl⟩

/-- With two bytes to spare, exactly one more group of letters is too many. -/
theorem returns_decodeDigits_iff {corrupt room : Nat} {ds : List (Option Nat)} (q : Nat)
    (hq : room = 3 * q + 2) :
    Returns (decodeDigits corrupt room ds) ↔
      ¬ (4 * (q + 1) ≤ ds.length ∧ ∀ d ∈ ds.take (4 * (q + 1)), d.isSome = true) := by
  have hshort : ∀ {call : Go Bytes} {ds : List (Option Nat)} (q : Nat), Returns call →
      ds.length < 4 → (Returns call ↔
        ¬ (4 * (q + 1) ≤ ds.length ∧ ∀ d ∈ ds.take (4 * (q + 1)), d.isSome = true)) := by
    intro call ds q hcall hlength
    refine iff_of_true hcall ?_
    rintro ⟨hlong, -⟩
    omega
  induction room, ds using decodeDigits.induct generalizing q with
  | case1 room w x y z rest hroom =>
      obtain rfl : q = 0 := by omega
      rw [decodeDigits, if_pos hroom]
      simp
  | case2 room w x y z rest hroom ih =>
      obtain ⟨q, rfl⟩ : ∃ q', q = q' + 1 := ⟨q - 1, by omega⟩
      have hrest : Returns (decodeDigits corrupt (room - 3) rest) ↔ _ := ih q (by omega)
      have hcount : 4 * (q + 1 + 1) = 4 * (q + 1) + 1 + 1 + 1 + 1 := by omega
      rw [decodeDigits, if_neg hroom, returns_bind_iff, hrest, hcount]
      simp only [List.length_cons, List.take_succ_cons, List.forall_mem_cons, Option.isSome_some,
        Go.pure_eq_ok, returns_ok, implies_true, and_true, true_and]
      rw [show 4 * (q + 1) ≤ rest.length ↔
        4 * (q + 1) + 1 + 1 + 1 + 1 ≤ rest.length + 1 + 1 + 1 + 1 by omega]
  | case3 room w x y hroom => omega
  | case4 room w x y hroom =>
      rw [decodeDigits, if_neg hroom]
      exact hshort q (returns_ok _) (show 3 < 4 by decide)
  | case5 room w x hroom => omega
  | case6 room w x hroom =>
      rw [decodeDigits, if_neg hroom]
      exact hshort q (returns_ok _) (show 2 < 4 by decide)
  | case7 room =>
      rw [decodeDigits]
      exact hshort q (returns_ok _) (show 0 < 4 by decide)
  | case8 ds room hfour hthree htwo hnil =>
      have hcount : 4 * (q + 1) = 4 * q + 1 + 1 + 1 + 1 := by omega
      have hfail : decodeDigits corrupt room ds =
          fail s!"illegal base64 data at input byte {corrupt}" := by
        rw [decodeDigits]
        all_goals assumption
      rw [hfail]
      refine iff_of_true (returns_fail _) ?_
      rintro ⟨hlength, hall⟩
      -- four letters in front are a whole group
      rw [hcount] at hlength hall
      obtain ⟨a, b, c, d, rest, rfl⟩ := exists_four_cons (show 4 ≤ ds.length by omega)
      simp only [List.take_succ_cons, List.forall_mem_cons, Option.isSome_iff_exists] at hall
      obtain ⟨⟨w, rfl⟩, ⟨x, rfl⟩, ⟨y, rfl⟩, ⟨z, rfl⟩, -⟩ := hall
      exact hfour w x y z rest rfl

theorem isSome_digit_iff {letter : UInt8} :
    (alphabet.digit letter).isSome = true ↔ letter ∈ alphabet.letters := by
  unfold Alphabet.digit
  rw [← alphabet.length_eq, ← List.idxOf_lt_length_iff]
  split <;> simp_all

theorem returns_decode_iff {text : Bytes} (q : Nat) :
    Returns (decode alphabet (3 * q + 2) text) ↔
      ¬ (4 * (q + 1) ≤ (unbroken text).length ∧
        ∀ letter ∈ (unbroken text).take (4 * (q + 1)), letter ∈ alphabet.letters) := by
  rw [decode, ← unbroken, returns_decodeDigits_iff q rfl, List.length_map, ← List.map_take]
  simp only [List.forall_mem_map, isSome_digit_iff]

end Inet256.Foundation.Base64
