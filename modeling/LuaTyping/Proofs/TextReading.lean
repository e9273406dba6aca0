import LuaTyping.Origin
import LuaTyping.Text.Escape
import Mathlib.Data.List.Basic

/-!
# Reading texts back

Readers for the pieces that texts of types are put together from: numbers,
escaped contents, origins of constructs and lists with a separator.  Each of
them takes its piece off the front of a text and is an inverse of the function
that writes the piece, whatever follows, as long as what follows cannot be
taken for a continuation of the piece.
-/

namespace LuaTyping

namespace Text

/-- A reader takes a value off the front of a text and leaves the rest. -/
abbrev Reader (α : Type) := List Char → Option (α × List Char)

/-- A text that is empty or begins with one of the characters. -/
def StartsIn (characters text : List Char) : Prop :=
  ∀ first ∈ text.head?, first ∈ characters

@[simp]
theorem startsIn_cons {characters text : List Char} {first : Char} :
    StartsIn characters (first :: text) ↔ first ∈ characters := by
  simp [StartsIn]

@[simp]
theorem startsIn_nil (characters : List Char) : StartsIn characters [] := by
  simp [StartsIn]

theorem StartsIn.mono {fewer more text : List Char}
    (starts : StartsIn fewer text) (subset : fewer ⊆ more) :
    StartsIn more text :=
  fun first firstMem => subset (starts first firstMem)

/-- A text that does not begin with a character of the class. -/
def Stops (belongs : Char → Bool) (text : List Char) : Prop :=
  ∀ first ∈ text.head?, belongs first = false

@[simp]
theorem stops_cons {belongs : Char → Bool} {first : Char} {text : List Char} :
    Stops belongs (first :: text) ↔ belongs first = false := by
  simp [Stops]

theorem StartsIn.stops {characters text : List Char} {belongs : Char → Bool}
    (starts : StartsIn characters text)
    (outside : characters.any belongs = false) : Stops belongs text := by
  intro first firstMem
  rw [List.any_eq_false] at outside
  exact eq_false_of_ne_true (outside first (starts first firstMem))

/-- Where no character of a class can come next, the longest run of the class
at the front is the one that was written. -/
theorem span_append {belongs : Char → Bool} {run rest : List Char}
    (inside : ∀ character ∈ run, belongs character = true)
    (stops : Stops belongs rest) :
    (run ++ rest).takeWhile belongs = run ∧
      (run ++ rest).dropWhile belongs = rest := by
  rw [List.takeWhile_append_of_pos inside, List.dropWhile_append_of_pos inside]
  cases rest with
  | nil => simp
  | cons first rest =>
      have stop := stops_cons.mp stops
      simp [stop]

section Numbers

theorem forall_mem_toDigits {base number : Nat} {holds : Char → Prop}
    (large : 1 < base) (digits : ∀ digit < base, holds digit.digitChar) :
    ∀ character ∈ Nat.toDigits base number, holds character := by
  induction number using Nat.strongRecOn with
  | ind number ih =>
      intro character characterMem
      by_cases small : number < base
      · rw [Nat.toDigits_of_lt_base small, List.mem_singleton] at characterMem
        exact characterMem ▸ digits number small
      · rw [Nat.toDigits_of_base_le large (by omega), List.mem_append,
          List.mem_singleton] at characterMem
        rcases characterMem with front | last
        · have fewer : number / base < number :=
            Nat.div_lt_self (by omega) large
          exact ih (number / base) fewer character front
        · exact last ▸ digits _ (Nat.mod_lt number (by omega))

/-- The decimal number at the front of a text. -/
def readNumber (text : List Char) : Nat × List Char :=
  (Nat.ofDigitChars 10 (text.takeWhile Char.isDigit) 0,
    text.dropWhile Char.isDigit)

theorem readNumber_toDigits (number : Nat) {rest : List Char}
    (stops : Stops Char.isDigit rest) :
    readNumber (Nat.toDigits 10 number ++ rest) = (number, rest) := by
  have digits : ∀ digit ∈ Nat.toDigits 10 number, digit.isDigit = true :=
    fun _ => Nat.isDigit_of_mem_toDigits (by decide) (by decide)
  obtain ⟨taken, dropped⟩ := span_append digits stops
  rw [readNumber, taken, dropped, Nat.ofDigitChars_ten_toDigits]

/-- The value of a lower-case hexadecimal digit. -/
def hexDigit (digit : Char) : Nat :=
  if digit.isDigit then digit.toNat - '0'.toNat
  else digit.toNat - 'a'.toNat + 10

/-- The value of a hexadecimal numeral. -/
def hexValue (digits : List Char) : Nat :=
  digits.foldl (fun value digit => 16 * value + hexDigit digit) 0

theorem hexDigit_digitChar {digit : Nat} (small : digit < 16) :
    hexDigit digit.digitChar = digit := by
  decide +revert

theorem hexValue_toDigits (number : Nat) :
    hexValue (Nat.toDigits 16 number) = number := by
  induction number using Nat.strongRecOn with
  | ind number ih =>
      by_cases small : number < 16
      · rw [Nat.toDigits_of_lt_base small]
        simp [hexValue, hexDigit_digitChar small]
      · have front := ih (number / 16) (by omega)
        have last := hexDigit_digitChar (Nat.mod_lt number (by decide : 0 < 16))
        rw [Nat.toDigits_of_base_le (by decide) (by omega), hexValue,
          List.foldl_append, ← hexValue, front]
        simp only [List.foldl_cons, List.foldl_nil, last]
        omega

/-- The origin of a construct, `document:index`. -/
def readOrigin : Reader Origin := fun text =>
  let (document, rest) := readNumber text
  ([':'].isPrefixOf? rest).map fun rest =>
    let (index, rest) := readNumber rest
    (⟨⟨.ofNat document⟩, .ofNat index⟩, rest)

theorem readOrigin_text (origin : Origin) {rest : List Char}
    (stops : Stops Char.isDigit rest) :
    readOrigin (origin.text ++ rest) = some (origin, rest) := by
  have document : readNumber (origin.text ++ rest) =
      (origin.document.number.toNat,
        ':' :: (Nat.toDigits 10 origin.index.toNat ++ rest)) := by
    rw [Origin.text, DocumentId.text, List.append_assoc, List.cons_append]
    exact readNumber_toDigits _ (stops_cons.mpr (by decide))
  simp [readOrigin, document, readNumber_toDigits _ stops, List.isPrefixOf?]

end Numbers

section Contents

/-- The character that stands behind a backslash. -/
def readEscape : Reader Char
  | 't' :: rest => some ('\t', rest)
  | 'r' :: rest => some ('\r', rest)
  | 'n' :: rest => some ('\n', rest)
  | '\'' :: rest => some ('\'', rest)
  | '"' :: rest => some ('"', rest)
  | '\\' :: rest => some ('\\', rest)
  | 'u' :: '\x7b' :: rest =>
      some (Char.ofNat (hexValue (rest.takeWhile (· != '\x7d'))),
        (rest.dropWhile (· != '\x7d')).tail)
  | _ => none

/-- The next character of an escaped content. -/
def readEscaped : Reader Char
  | [] => none
  | first :: rest =>
      if first = '\\' then readEscape rest else some (first, rest)

theorem readEscaped_codePoint (character : Char) (rest : List Char) :
    readEscaped (escapeCodePoint character ++ rest) =
      some (character, rest) := by
  have inside : ∀ digit ∈ Nat.toDigits 16 character.toNat,
      (digit != '\x7d') = true :=
    forall_mem_toDigits (by decide) (by decide)
  have stops : Stops (· != '\x7d') ('\x7d' :: rest) :=
    stops_cons.mpr (by decide)
  obtain ⟨taken, dropped⟩ := span_append inside stops
  simp [escapeCodePoint, readEscaped, readEscape, taken, dropped,
    hexValue_toDigits]

theorem readEscaped_escapeChar (character : Char) (rest : List Char) :
    readEscaped (escapeChar character ++ rest) = some (character, rest) := by
  unfold escapeChar
  split_ifs with tab return_ newline apostrophe quote backslash plain
  · subst tab; rfl
  · subst return_; rfl
  · subst newline; rfl
  · subst apostrophe; rfl
  · subst quote; rfl
  · subst backslash; rfl
  · simp [readEscaped, backslash]
  · exact readEscaped_codePoint character rest

/-- No escape begins with a quote. -/
theorem exists_escapeChar_eq_cons (character : Char) :
    ∃ first others, escapeChar character = first :: others ∧ first ≠ '"' := by
  unfold escapeChar
  split_ifs with tab return_ newline apostrophe quote backslash plain
  any_goals exact ⟨'\\', _, rfl, by decide⟩
  exact ⟨character, [], rfl, quote⟩

/-- The escaped content up to its closing quote. -/
def readContent (text : List Char) : Option (List Char × List Char) :=
  if text.head? = some '"' then some ([], text.tail)
  else
    match readEscaped text with
    | none => none
    | some (character, rest) =>
        if rest.length < text.length then
          (readContent rest).map fun (content, rest) =>
            (character :: content, rest)
        else none
termination_by text.length

theorem readContent_escape (content rest : List Char) :
    readContent (escape content ++ '"' :: rest) = some (content, rest) := by
  induction content with
  | nil =>
      rw [readContent]
      simp [escape]
  | cons character content ih =>
      obtain ⟨first, others, escaped, notQuote⟩ :=
        exists_escapeChar_eq_cons character
      have next := readEscaped_escapeChar character
        (escape content ++ '"' :: rest)
      have begins : (escapeChar character ++
          (escape content ++ '"' :: rest)).head? ≠ some '"' := by
        simp [escaped, notQuote]
      have shorter : (escape content ++ '"' :: rest).length <
          (escapeChar character ++ (escape content ++ '"' :: rest)).length := by
        simp only [List.length_append, escaped, List.length_cons]
        omega
      rw [escape, List.flatMap_cons, ← escape, List.append_assoc, readContent,
        if_neg begins, next]
      simp only [if_pos shorter, ih, Option.map_some]

end Contents

section Lists

variable {α : Type} {read : Reader α} {ends stops : List Char}

/-- A reader takes a piece of text for a value, whatever follows the piece,
if that begins with one of the given characters. -/
def Reads (read : Reader α) (ends : List Char) (written : List Char)
    (value : α) : Prop :=
  ∀ rest, StartsIn ends rest → read (written ++ rest) = some (value, rest)

/-- One or more values with a separator between them. -/
def readSeparated (read : Reader α) (separator : List Char)
    (text : List Char) : Option (List α × List Char) :=
  match read text with
  | none => none
  | some (value, rest) =>
      match separator.isPrefixOf? rest with
      | none => some ([value], rest)
      | some next =>
          if next.length < text.length then
            (readSeparated read separator next).map fun (values, rest) =>
              (value :: values, rest)
          else none
termination_by text.length

theorem readSeparated_last {first : Char} {others : List Char} {value : α}
    {text rest : List Char} (head : read text = some (value, rest))
    (starts : StartsIn stops rest) (apart : first ∉ stops) :
    readSeparated read (first :: others) text = some ([value], rest) := by
  have ended : (first :: others).isPrefixOf? rest = none := by
    cases rest with
    | nil => rfl
    | cons next rest =>
        have different : first ≠ next :=
          fun equal => apart (equal ▸ startsIn_cons.mp starts)
        simp [List.isPrefixOf?, different]
  rw [readSeparated, head]
  simp [ended]

theorem readSeparated_more {separator next text : List Char} {value : α}
    (head : read text = some (value, separator ++ next))
    (shorter : next.length < text.length) :
    readSeparated read separator text =
      (readSeparated read separator next).map fun (values, rest) =>
        (value :: values, rest) := by
  have continued : separator.isPrefixOf? (separator ++ next) = some next :=
    List.isPrefixOf?_eq_some_iff_append_eq.mpr rfl
  rw [readSeparated, head]
  simp [continued, shorter]

theorem reads_intercalate {first : Char} {others : List Char}
    {writtens : List (List Char)} {values : List α}
    (each : List.Forall₂ (Reads read ends) writtens values)
    (nonempty : writtens ≠ []) (continues : first ∈ ends)
    (subset : stops ⊆ ends) (apart : first ∉ stops) :
    Reads (readSeparated read (first :: others)) stops
      ((first :: others).intercalate writtens) values := by
  intro rest starts
  induction each with
  | nil => exact absurd rfl nonempty
  | @cons written value writtens values head tail ih =>
      cases tail with
      | nil =>
          rw [List.intercalate_singleton]
          exact readSeparated_last (head rest (starts.mono subset)) starts apart
      | @cons second _ writtens _ _ _ =>
          have more := ih (List.cons_ne_nil _ _)
          have continued : StartsIn ends (first :: others ++
              ((first :: others).intercalate (second :: writtens) ++ rest)) :=
            startsIn_cons.mpr continues
          rw [List.intercalate_cons_cons, List.append_assoc, List.append_assoc,
            readSeparated_more (head _ continued), more]
          · rfl
          · simp only [List.length_append, List.length_cons]
            omega

theorem length_le_intercalate {separator written : List Char}
    {writtens : List (List Char)} (writtenMem : written ∈ writtens) :
    written.length ≤ (separator.intercalate writtens).length := by
  induction writtens with
  | nil => simp at writtenMem
  | cons first others ih =>
      cases others with
      | nil => simp_all
      | cons second others =>
          rw [List.intercalate_cons_cons]
          rcases List.mem_cons.mp writtenMem with rfl | otherMem
          · simp only [List.length_append]
            omega
          · have others := ih otherMem
            simp only [List.length_append]
            omega

/-- Any number of values, divided by commas, up to a closing mark. -/
def readList (read : Reader α) (closing : Char) : Reader (List α) :=
  fun text =>
    match readSeparated read [',', ' '] text with
    | some (values, rest) => ([closing].isPrefixOf? rest).map (values, ·)
    | none => ([closing].isPrefixOf? text).map ([], ·)

theorem readList_intercalate {closing : Char} {writtens : List (List Char)}
    {values : List α} (each : List.Forall₂ (Reads read ends) writtens values)
    (continues : ',' ∈ ends) (closes : closing ∈ ends) (apart : closing ≠ ',')
    (empty : ∀ rest, read (closing :: rest) = none) (rest : List Char) :
    readList read closing
        ([',', ' '].intercalate writtens ++ closing :: rest) =
      some (values, rest) := by
  cases each with
  | nil =>
      have nothing : readSeparated read [',', ' '] (closing :: rest) =
          none := by
        rw [readSeparated, empty rest]
      simp [readList, nothing, List.isPrefixOf?]
  | cons head tail =>
      have listed : Reads (readSeparated read [',', ' ']) [closing]
          ([',', ' '].intercalate (_ :: _)) (_ :: _) :=
        reads_intercalate (.cons head tail) (List.cons_ne_nil _ _) continues
          (by simpa using closes) (by simpa using apart.symm)
      have whole := listed (closing :: rest)
        (startsIn_cons.mpr List.mem_cons_self)
      simp [readList, whole, List.isPrefixOf?]

end Lists

end Text

end LuaTyping
