import Inet256.Foundation.JsonValue

/-!
# Texts of objects

Objects whose leaves are strings, as they are written and read.  The reader goes
through the text once; each of its calls is given more fuel than what it reads
has bytes.
-/

namespace Inet256.Foundation.Json

/-- Values made of strings and objects, with their literals as the encoder writes them. -/
inductive Written (E : Encoding) : Value → Prop where
  | string (text : GoString) : Written E (.string (E.quote text))
  | object {fields : List (Bytes × Value)}
      (hnames : ∀ field ∈ fields, ∃ name, field.1 = E.quote name)
      (hvalues : ∀ field ∈ fields, Written E field.2) : Written E (.object fields)

/-- An encoding that reads what it writes. -/
structure TextEncoding extends Encoding where
  parse_print : ∀ value, Written toEncoding value → parse value.print = some value

theorem Written.fields {E : Encoding} {fields : List (String × Option Value)}
    (h : ∀ field ∈ fields, ∀ value, field.2 = some value → Written E value) :
    Written E (.object (E.fields fields)) := by
  have hfields : ∀ field ∈ E.fields fields,
      (∃ name, field.1 = E.quote name) ∧ Written E field.2 := by
    induction fields with
    | nil => simp [Encoding.fields]
    | cons first fields ih =>
        obtain ⟨name, value⟩ := first
        have hrest := ih fun field hfield => h field (List.mem_cons_of_mem _ hfield)
        cases value with
        | none => exact hrest
        | some value =>
            intro field hfield
            rcases List.mem_cons.1 hfield with rfl | hfield
            · exact ⟨⟨stringBytes name, rfl⟩, h (name, some value) List.mem_cons_self value rfl⟩
            · exact hrest field hfield
  exact .object (fun field hfield => (hfields field hfield).1)
    fun field hfield => (hfields field hfield).2

/-! ## A reader -/

/-- The literal up to the closing quote mark, with its escapes. -/
def readLiteral : Bytes → Option (Bytes × Bytes)
  | [] => none
  | byte :: rest =>
      if byte = quoteMark then some ([], rest)
      else if byte = backslash then
        match rest with
        | [] => none
        | escaped :: rest =>
            (readLiteral rest).map fun (literal, rest) => (byte :: escaped :: literal, rest)
      else (readLiteral rest).map fun (literal, rest) => (byte :: literal, rest)

theorem readLiteral_escape (text rest : Bytes) :
    readLiteral (escape text ++ quoteMark :: rest) = some (escape text, rest) := by
  induction text with
  | nil =>
      rw [readLiteral.eq_def]
      simp [escape]
  | cons byte text ih =>
      have hmarks : backslash ≠ quoteMark := by decide
      rw [escape_cons]
      by_cases hspecial : byte = quoteMark ∨ byte = backslash
      · simp [hspecial, readLiteral, hmarks, ih]
      · obtain ⟨hquote, hslash⟩ := not_or.mp hspecial
        rw [if_neg hspecial, List.cons_append, List.nil_append, List.cons_append,
          readLiteral.eq_def]
        simp [hquote, hslash, ih]

mutual

def readValue : Nat → Bytes → Option (Value × Bytes)
  | 0, _ => none
  | _, [] => none
  | fuel + 1, byte :: rest =>
      if byte = quoteMark then
        (readLiteral rest).map fun (literal, rest) => (.string literal, rest)
      else if byte = openBrace then
        if rest.head? = some closeBrace then some (.object [], rest.tail)
        else do
          let (field, rest) ← readNamed fuel rest
          let (fields, rest) ← readMore fuel rest
          return (.object (field :: fields), rest)
      else none

def readNamed : Nat → Bytes → Option ((Bytes × Value) × Bytes)
  | 0, _ => none
  | _, [] => none
  | fuel + 1, byte :: rest =>
      if byte = quoteMark then do
        let (name, rest) ← readLiteral rest
        if rest.head? = some colon then
          let (value, rest) ← readValue fuel rest.tail
          return ((name, value), rest)
        else none
      else none

/-- The fields behind the first one, and the closing brace. -/
def readMore : Nat → Bytes → Option (List (Bytes × Value) × Bytes)
  | 0, _ => none
  | _, [] => none
  | fuel + 1, byte :: rest =>
      if byte = closeBrace then some ([], rest)
      else if byte = comma then do
        let (field, rest) ← readNamed fuel rest
        let (fields, rest) ← readMore fuel rest
        return (field :: fields, rest)
      else none

end

def readText (text : Bytes) : Option Value :=
  match readValue (text.length + 1) text with
  | some (value, []) => some value
  | _ => none

/-! ## Reading what was printed -/

def printNamed (field : Bytes × Value) : Bytes :=
  quoteMark :: (field.1 ++ quoteMark :: colon :: field.2.print)

def printMore (fields : List (Bytes × Value)) : Bytes :=
  fields.flatMap (fun field => comma :: printNamed field) ++ [closeBrace]

theorem printFields_cons (field : Bytes × Value) (fields : List (Bytes × Value)) :
    printFields (field :: fields) ++ [closeBrace] = printNamed field ++ printMore fields := by
  induction fields generalizing field with
  | nil => simp [printFields, printNamed, printMore]
  | cons next fields ih =>
      have hrest := ih next
      simp only [printFields, printNamed, printMore, List.flatMap_cons, List.append_assoc,
        List.cons_append] at hrest ⊢
      rw [hrest]

theorem print_object_cons (field : Bytes × Value) (fields : List (Bytes × Value)) :
    (Value.object (field :: fields)).print =
      openBrace :: (printNamed field ++ printMore fields) := by
  rw [Value.print, printFields_cons]

/-- Literals that end at the quote mark behind them. -/
def IsLiteral (literal : Bytes) : Prop :=
  ∀ rest, readLiteral (literal ++ quoteMark :: rest) = some (literal, rest)

theorem read_printed {E : Encoding} (hquote : ∀ text, IsLiteral (E.quote text)) (fuel : Nat) :
    (∀ value rest, Written E value → value.print.length < fuel →
      readValue fuel (value.print ++ rest) = some (value, rest)) ∧
    (∀ field rest, (∃ name, field.1 = E.quote name) → Written E field.2 →
      (printNamed field).length < fuel →
      readNamed fuel (printNamed field ++ rest) = some (field, rest)) ∧
    ∀ fields rest, (∀ field ∈ fields, ∃ name, field.1 = E.quote name) →
      (∀ field ∈ fields, Written E field.2) → (printMore fields).length < fuel →
      readMore fuel (printMore fields ++ rest) = some (fields, rest) := by
  induction fuel with
  | zero => simp
  | succ fuel ih =>
      obtain ⟨hvalue, hnamed, hmore⟩ := ih
      refine ⟨?_, ?_, ?_⟩
      · intro value rest hwritten hfuel
        cases hwritten with
        | string text =>
            have hliteral := hquote text rest
            simp [Value.print, readValue, hliteral]
        | @object fields hnames hvalues =>
            have hbrace : openBrace ≠ quoteMark := by decide
            cases fields with
            | nil => simp [Value.print, printFields, readValue, hbrace]
            | cons field fields =>
                have hhead : (printNamed field ++ (printMore fields ++ rest)).head? ≠
                    some closeBrace := by
                  rw [printNamed, List.cons_append, List.head?_cons]
                  decide
                rw [print_object_cons] at hfuel ⊢
                simp only [List.length_cons, List.length_append] at hfuel
                rw [List.forall_mem_cons] at hnames hvalues
                rw [List.cons_append, List.append_assoc, readValue, if_neg hbrace, if_pos rfl,
                  if_neg hhead, hnamed field _ hnames.1 hvalues.1 (by omega)]
                simp [hmore fields rest hnames.2 hvalues.2 (by omega)]
      · rintro ⟨_, value⟩ rest ⟨name, rfl⟩ hwritten hfuel
        simp only [printNamed, List.length_cons, List.length_append] at hfuel
        have hliteral := hquote name (colon :: (value.print ++ rest))
        simp [printNamed, readNamed, hliteral, hvalue value rest hwritten (by omega)]
      · intro fields rest hnames hvalues hfuel
        have hcomma : comma ≠ closeBrace := by decide
        cases fields with
        | nil => simp [printMore, readMore]
        | cons field fields =>
            have hcons : printMore (field :: fields) =
                comma :: (printNamed field ++ printMore fields) := by
              simp [printMore]
            rw [hcons] at hfuel ⊢
            simp only [List.length_cons, List.length_append] at hfuel
            rw [List.forall_mem_cons] at hnames hvalues
            rw [List.cons_append, List.append_assoc, readMore, if_neg hcomma, if_pos rfl,
              hnamed field _ hnames.1 hvalues.1 (by omega)]
            simp [hmore fields rest hnames.2 hvalues.2 (by omega)]

theorem readText_print {E : Encoding} (hquote : ∀ text, IsLiteral (E.quote text)) {value : Value}
    (h : Written E value) : readText value.print = some value := by
  have hread := (read_printed hquote (value.print.length + 1)).1 value [] h (Nat.lt_succ_self _)
  rw [List.append_nil] at hread
  rw [readText, hread]

/-! ## An encoding -/

/-- Strings that are not text are replaced. -/
def toText (text : GoString) : GoString :=
  if isText text then text else stringBytes "\uFFFD"

def quoteText (text : GoString) : Bytes := escape (toText text)

def unquoteText (literal : Bytes) : Option GoString :=
  (readEscaped (literal ++ [quoteMark])).map Prod.fst

theorem unquoteText_quoteText (text : GoString) :
    ∃ coerced, unquoteText (quoteText text) = some coerced ∧ isText coerced = true ∧
      (isText text = true → coerced = text) := by
  refine ⟨toText text, ?_, ?_, ?_⟩
  · rw [unquoteText, quoteText, readEscaped_escape]
    rfl
  · rw [toText]
    split
    · assumption
    · exact isText_stringBytes _
  · intro htext
    rw [toText, if_pos htext]

theorem print_ne_nil_of_readText {text : Bytes} {value : Value} (h : readText text = some value) :
    value.print ≠ [] := by
  rw [readText] at h
  split at h
  · next value' hread =>
      cases h
      cases text with
      | nil => simp [readValue] at hread
      | cons byte rest =>
          rw [readValue] at hread
          split at hread
          · obtain ⟨⟨literal, rest'⟩, _, hvalue⟩ := Option.map_eq_some_iff.1 hread
            cases hvalue
            simp [Value.print]
          · split at hread
            · split at hread
              · obtain ⟨rfl, -⟩ := Prod.mk.inj (Option.some.inj hread)
                simp [Value.print]
              · simp only [Option.bind_eq_bind, Option.bind_eq_some_iff] at hread
                obtain ⟨_, _, ⟨fields, rest'⟩, _, hvalue⟩ := hread
                cases hvalue
                simp [Value.print]
            · cases hread
  · cases h

def compactStrings : Encoding where
  parse := readText
  quote := quoteText
  unquote := unquoteText
  print_ne_nil _ _ := print_ne_nil_of_readText
  unquote_quote := unquoteText_quoteText

theorem isLiteral_quote (text : GoString) : IsLiteral (compactStrings.quote text) :=
  readLiteral_escape (toText text)

def compactEncoding : TextEncoding where
  toEncoding := compactStrings
  parse_print _ := readText_print isLiteral_quote

end Inet256.Foundation.Json
