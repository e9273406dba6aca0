import LuaTyping.Proofs.TextReading
import LuaTyping.Proofs.TypeNodes
import LuaTyping.Ty.Render

/-!
# Unambiguous texts

Two ordinary types with the same text are the same type.  The text of an
ordinary type can be read back: `read?` finds the type that a text shows, up
to the indices and origins in its tuples, which texts leave out.

The grammar has four levels.  A stem is delimited by its own characters.
Array brackets bind to the stem before them, the dots of a variadic to all of
this, and the bars of a union come last.  Every level is read back under the
assumption that what is nested inside brackets is, and the levels are tied
together by induction on the length of the text.
-/

namespace LuaTyping

namespace Ty

open Text

section Ordinary

/-- The characters that begin a word: ASCII letters and the underscore. -/
def isWordStart (character : Char) : Bool :=
  character.isAlpha || character == '_'

/-- The characters inside a word: ASCII letters, digits and the underscore. -/
def isWordPart (character : Char) : Bool :=
  character.isAlphanum || character == '_'

/-- Whether a text is one word. -/
def isWord : List Char → Bool
  | [] => false
  | first :: others => isWordStart first && others.all isWordPart

/-- Whether a name is a word that no basic type is shown by. -/
def isOrdinaryName (name : Name) : Bool :=
  isWord name.toList && name ∉ ["any", "unknown", "nil"]

/-- Whether a type is ordinary as far as its outermost constructor goes: its
identifier is an ordinary name, a union has at least two members and neither a
union nor a variadic holds a union, and it is not the results of a call. -/
def isOrdinaryNode : Ty → Bool
  | .named name | .expand name | .generic name _ => isOrdinaryName name
  | .union members =>
      2 ≤ members.length && members.all (·.kind != .union)
  | .variadic element => element.kind != .union
  | .results _ | .repeating _ => false
  | _ => true

/-- A type that is ordinary at every depth. -/
def Ordinary (type : Ty) : Prop :=
  ∀ node ∈ type.nodes, node.isOrdinaryNode = true

instance (type : Ty) : Decidable type.Ordinary :=
  inferInstanceAs (Decidable (∀ node ∈ type.nodes, _))

theorem Ordinary.node {type : Ty} (ordinary : type.Ordinary) :
    type.isOrdinaryNode = true :=
  ordinary type (mem_nodes_self type)

theorem Ordinary.of_part {type part : Ty} (ordinary : type.Ordinary)
    (partMem : part ∈ type.parts) : part.Ordinary :=
  (forall_nodes.mp ordinary).2 part partMem

end Ordinary

section Bare

mutual

/-- A type without what its tuples carry beside their member types.  All else
is kept, also the order of the members of a union. -/
def bare : Ty → Ty
  | .union members => .union (bareList members)
  | .tuple slots => tupleOf (bareSlots slots)
  | .array element => .array (bare element)
  | .generic base arguments => .generic base (bareList arguments)
  | .variadic element => .variadic (bare element)
  | .results types => .results (bareList types)
  | .repeating base => .repeating (bare base)
  | .any => .any
  | .unknown => .unknown
  | .nil => .nil
  | .named name => .named name
  | .stringLiteral content => .stringLiteral content
  | .integerLiteral value => .integerLiteral value
  | .tableLiteral origin => .tableLiteral origin
  | .docTable origin => .docTable origin
  | .expand name => .expand name
termination_by structural type => type

def bareList : List Ty → List Ty
  | [] => []
  | type :: types => bare type :: bareList types

def bareSlots : List (Slot Ty) → List Ty
  | [] => []
  | ⟨_, type, _⟩ :: slots => bare type :: bareSlots slots

end

@[simp]
theorem bareList_eq (types : List Ty) : bareList types = types.map bare := by
  induction types with
  | nil => rfl
  | cons type types ih => rw [bareList, ih, List.map_cons]

@[simp]
theorem bareSlots_eq (slots : List (Slot Ty)) :
    bareSlots slots = (slots.map Slot.type).map bare := by
  induction slots with
  | nil => rfl
  | cons slot slots ih => rw [bareSlots, ih, List.map_cons, List.map_cons]

end Bare

section Texts

@[simp]
theorem texts_eq (types : List Ty) : texts types = types.map text := by
  induction types with
  | nil => rfl
  | cons type types ih => rw [texts, ih, List.map_cons]

@[simp]
theorem slotTexts_eq (slots : List (Slot Ty)) :
    slotTexts slots = (slots.map Slot.type).map text := by
  induction slots with
  | nil => rfl
  | cons slot slots ih => rw [slotTexts, ih, List.map_cons, List.map_cons]

theorem text_union (members : List Ty) :
    (Ty.union members).text = ['|'].intercalate (members.map text) :=
  congrArg _ (texts_eq members)

theorem text_tuple (slots : List (Slot Ty)) :
    (Ty.tuple slots).text =
      '[' :: ([',', ' '].intercalate ((slots.map Slot.type).map text) ++
        [']']) := by
  rw [← slotTexts_eq]
  rfl

theorem text_generic (base : Name) (arguments : List Ty) :
    (Ty.generic base arguments).text =
      base.toList ++
        '<' :: ([',', ' '].intercalate (arguments.map text) ++ ['>']) := by
  rw [← texts_eq]
  rfl

theorem text_array_of_parentheses {element : Ty}
    (needed : element.needsParentheses = true) :
    (Ty.array element).text = '(' :: (element.text ++ [')', '[', ']']) :=
  if_pos needed

theorem text_array {element : Ty}
    (unneeded : element.needsParentheses = false) :
    (Ty.array element).text = element.text ++ ['[', ']'] :=
  if_neg (ne_true_of_eq_false unneeded)

end Texts

section Reader

/-- The basic type or the declared type that a word shows. -/
def ofWord (word : Name) : Ty :=
  if word = "any" then .any
  else if word = "unknown" then .unknown
  else if word = "nil" then .nil
  else .named word

/-- The stem that begins with a word, from what follows the word. -/
def readAfterWord (read : Reader Ty) (word : List Char) : Reader Ty
  | '<' :: rest =>
      (readList read '>' rest).map fun (arguments, rest) =>
        (.generic (String.ofList word) arguments, rest)
  | '.' :: '.' :: '.' :: rest => some (.expand (String.ofList word), rest)
  | '@' :: rest =>
      (readOrigin rest).map fun (origin, rest) => (.tableLiteral origin, rest)
  | '-' :: 't' :: 'a' :: 'b' :: 'l' :: 'e' :: '@' :: rest =>
      (readOrigin rest).map fun (origin, rest) => (.docTable origin, rest)
  | rest => some (ofWord (String.ofList word), rest)

/-- The stem that begins with a delimiter, from what follows the delimiter. -/
def readDelimited (read : Reader Ty) (delimiter : Char) : Reader Ty :=
  fun text =>
    match delimiter with
    | '[' =>
        (readList read ']' text).map fun (types, rest) => (tupleOf types, rest)
    | '(' =>
        (read text).bind fun (element, rest) =>
          ([')', '[', ']'].isPrefixOf? rest).map (.array element, ·)
    | '"' =>
        (readContent text).map fun (content, rest) =>
          (.stringLiteral (String.ofList content), rest)
    | '-' =>
        let (number, rest) := readNumber text
        some (.integerLiteral (.ofInt (-number)), rest)
    | _ => none

/-- A type that ends where its own characters end. -/
def readStem (read : Reader Ty) : Reader Ty
  | [] => none
  | first :: rest =>
      if isWordStart first then
        readAfterWord read ((first :: rest).takeWhile isWordPart)
          ((first :: rest).dropWhile isWordPart)
      else if first.isDigit then
        let (number, rest) := readNumber (first :: rest)
        some (.integerLiteral (.ofInt number), rest)
      else readDelimited read first rest

/-- The array type that a type and the brackets behind it show. -/
def readBrackets : Ty → List Char → Ty × List Char
  | element, '[' :: ']' :: rest => readBrackets (.array element) rest
  | element, rest => (element, rest)

/-- A stem with the array brackets behind it. -/
def readArray (read : Reader Ty) : Reader Ty := fun text =>
  (readStem read text).map fun (stem, rest) => readBrackets stem rest

/-- A member of a union, with the dots of variadics in front of it. -/
def readMember (read : Reader Ty) : Reader Ty
  | '.' :: '.' :: '.' :: rest =>
      (readMember read rest).map fun (element, rest) =>
        (.variadic element, rest)
  | text => readArray read text

/-- The type that one or more members show. -/
def ofMembers : List Ty → Ty
  | [member] => member
  | members => .union members

/-- A type, where `read` reads the types inside its brackets. -/
def readNested (read : Reader Ty) : Reader Ty := fun text =>
  (readSeparated (readMember read) ['|'] text).map fun (members, rest) =>
    (ofMembers members, rest)

/-- A type with brackets nested to fewer than the given number of levels. -/
def readWithin : Nat → Reader Ty
  | 0 => fun _ => none
  | levels + 1 => readNested (readWithin levels)

/-- The type that a whole text shows.  On a text that shows no ordinary type
the answer says nothing. -/
def read? (text : List Char) : Option Ty :=
  match readWithin (text.length + 1) text with
  | some (type, []) => some type
  | _ => none

end Reader

/-- The characters that follow a type inside brackets. -/
def itemEnds : List Char := [',', ']', ')', '>']

/-- The characters that follow a member of a union. -/
def memberEnds : List Char := '|' :: itemEnds

/-- The characters that follow a stem. -/
def stemEnds : List Char := '[' :: memberEnds

section Stems

variable {read : Reader Ty} {rest : List Char}

theorem stops_isWordPart (starts : StartsIn stemEnds rest) :
    Stops isWordPart rest :=
  starts.stops (by decide)

theorem stops_isDigit (starts : StartsIn stemEnds rest) :
    Stops Char.isDigit rest :=
  starts.stops (by decide)

theorem isWordPart_of_isWordStart {character : Char}
    (starts : isWordStart character = true) : isWordPart character = true := by
  simp only [isWordStart, isWordPart, Char.isAlphanum, Bool.or_eq_true] at *
  tauto

theorem readStem_word {word tail : List Char} (valid : isWord word = true)
    (stops : Stops isWordPart tail) :
    readStem read (word ++ tail) = readAfterWord read word tail := by
  cases word with
  | nil => exact absurd valid Bool.false_ne_true
  | cons first others =>
      obtain ⟨starts, continues⟩ := Bool.and_eq_true_iff.mp valid
      have inside : ∀ character ∈ first :: others,
          isWordPart character = true := by
        intro character characterMem
        rcases List.mem_cons.mp characterMem with rfl | otherMem
        · exact isWordPart_of_isWordStart starts
        · exact List.all_eq_true.mp continues character otherMem
      obtain ⟨taken, dropped⟩ := span_append inside stops
      rw [List.cons_append] at taken dropped ⊢
      rw [readStem, if_pos starts, taken, dropped]

theorem readAfterWord_of_stemEnds {word : List Char}
    (starts : StartsIn stemEnds rest) :
    readAfterWord read word rest =
      some (ofWord (String.ofList word), rest) := by
  cases rest with
  | nil => rfl
  | cons first rest =>
      have firstMem : first ∈ stemEnds := startsIn_cons.mp starts
      simp only [stemEnds, memberEnds, itemEnds, List.mem_cons,
        List.not_mem_nil, or_false] at firstMem
      rcases firstMem with rfl | rfl | rfl | rfl | rfl | rfl <;> rfl

theorem readStem_plainWord {word : Name} (valid : isWord word.toList = true)
    (starts : StartsIn stemEnds rest) :
    readStem read (word.toList ++ rest) = some (ofWord word, rest) := by
  rw [readStem_word valid (stops_isWordPart starts),
    readAfterWord_of_stemEnds starts, String.ofList_toList]

theorem isWord_of_isOrdinaryName {name : Name}
    (ordinary : isOrdinaryName name = true) : isWord name.toList = true :=
  (Bool.and_eq_true_iff.mp ordinary).1

theorem ofWord_of_isOrdinaryName {name : Name}
    (ordinary : isOrdinaryName name = true) : ofWord name = .named name := by
  have unreserved := (Bool.and_eq_true_iff.mp ordinary).2
  simp only [List.mem_cons, List.not_mem_nil, or_false, not_or,
    decide_eq_true_eq] at unreserved
  obtain ⟨notAny, notUnknown, notNil⟩ := unreserved
  simp [ofWord, notAny, notUnknown, notNil]

theorem readStem_named {name : Name} (ordinary : isOrdinaryName name = true)
    (starts : StartsIn stemEnds rest) :
    readStem read (name.toList ++ rest) = some (.named name, rest) := by
  rw [readStem_plainWord (isWord_of_isOrdinaryName ordinary) starts,
    ofWord_of_isOrdinaryName ordinary]

theorem readStem_expand {name : Name} (ordinary : isOrdinaryName name = true) :
    readStem read ((Ty.expand name).text ++ rest) =
      some (.expand name, rest) := by
  have word : isWord name.toList = true := isWord_of_isOrdinaryName ordinary
  change readStem read (name.toList ++ ['.', '.', '.'] ++ rest) = _
  rw [List.append_assoc, List.cons_append,
    readStem_word word (stops_cons.mpr (by decide))]
  simp [readAfterWord]

theorem readStem_delimiter {delimiter : Char}
    (notWord : isWordStart delimiter = false)
    (notDigit : delimiter.isDigit = false) :
    readStem read (delimiter :: rest) = readDelimited read delimiter rest := by
  simp [readStem, notWord, notDigit]

theorem readStem_integer (value : Int64) (starts : StartsIn stemEnds rest) :
    readStem read (integerText value.toInt ++ rest) =
      some (.integerLiteral value, rest) := by
  have number := readNumber_toDigits value.toInt.natAbs
    (stops_isDigit starts)
  by_cases negative : value.toInt < 0
  · have restored : -(value.toInt.natAbs : Int) = value.toInt := by omega
    rw [integerText, if_pos negative, List.cons_append,
      readStem_delimiter (by decide) (by decide)]
    simp only [readDelimited, number, restored, Int64.ofInt_toInt]
  · have restored : (value.toInt.natAbs : Int) = value.toInt := by omega
    have each : ∀ digit ∈ Nat.toDigits 10 value.toInt.natAbs,
        isWordStart digit = false ∧ digit.isDigit = true :=
      forall_mem_toDigits (by decide) (by decide)
    obtain ⟨first, others, digits⟩ :
        ∃ first others, Nat.toDigits 10 value.toInt.natAbs = first :: others :=
      List.exists_cons_of_ne_nil Nat.toDigits_ne_nil
    obtain ⟨notWord, isDigit⟩ := each first (digits ▸ List.mem_cons_self)
    rw [digits, List.cons_append] at number
    rw [integerText, if_neg negative, digits, List.cons_append, readStem,
      notWord, isDigit]
    simp only [number, restored, Int64.ofInt_toInt, if_true,
      Bool.false_eq_true, if_false]

theorem readStem_string (content : String) :
    readStem read ((Ty.stringLiteral content).text ++ rest) =
      some (.stringLiteral content, rest) := by
  change readStem read ('"' :: (escape content.toList ++ ['"'] ++ rest)) = _
  rw [readStem_delimiter (by decide) (by decide), List.append_assoc]
  simp [readDelimited, readContent_escape]

theorem readStem_tableLiteral (origin : Origin)
    (starts : StartsIn stemEnds rest) :
    readStem read ((Ty.tableLiteral origin).text ++ rest) =
      some (.tableLiteral origin, rest) := by
  have found := readOrigin_text origin (stops_isDigit starts)
  change readStem read ("table".toList ++ '@' :: (origin.text ++ rest)) = _
  rw [readStem_word (by decide) (stops_cons.mpr (by decide))]
  simp [readAfterWord, found]

theorem readStem_docTable (origin : Origin)
    (starts : StartsIn stemEnds rest) :
    readStem read ((Ty.docTable origin).text ++ rest) =
      some (.docTable origin, rest) := by
  have found := readOrigin_text origin (stops_isDigit starts)
  change readStem read
    ("doc".toList ++ '-' :: ("table@".toList ++ (origin.text ++ rest))) = _
  rw [readStem_word (by decide) (stops_cons.mpr (by decide))]
  simp [readAfterWord, found]

end Stems

section Levels

/-- A reader that reads back the texts of all ordinary types below a given
length, and no type at all where a closing bracket stands. -/
structure Faithful (read : Reader Ty) (limit : Nat) : Prop where
  reads : ∀ type : Ty, type.Ordinary → type.text.length < limit →
    Reads read itemEnds type.text type.bare
  closed : ∀ closing ∈ [']', '>'], ∀ rest, read (closing :: rest) = none

variable {read : Reader Ty} {limit : Nat} {rest : List Char}

theorem reads_texts {ends : List Char} {types : List Ty}
    (each : ∀ type ∈ types, Reads read ends type.text type.bare) :
    List.Forall₂ (Reads read ends) (types.map text) (types.map bare) := by
  rw [List.forall₂_map_left_iff, List.forall₂_map_right_iff, List.forall₂_same]
  exact each

theorem length_text_le (separator : List Char) {types : List Ty} {type : Ty}
    (typeMem : type ∈ types) :
    type.text.length ≤ (separator.intercalate (types.map text)).length :=
  length_le_intercalate (List.mem_map_of_mem typeMem)

theorem Faithful.readList_texts (faithful : Faithful read limit)
    {types : List Ty} (ordinary : ∀ type ∈ types, type.Ordinary)
    (short : ([',', ' '].intercalate (types.map text)).length < limit)
    {closing : Char} (closes : closing ∈ [']', '>']) (rest : List Char) :
    readList read closing
        ([',', ' '].intercalate (types.map text) ++ closing :: rest) =
      some (types.map bare, rest) := by
  have each : ∀ type ∈ types, Reads read itemEnds type.text type.bare := by
    intro type typeMem
    have shorter := length_text_le [',', ' '] typeMem
    exact faithful.reads type (ordinary type typeMem) (by omega)
  have ends : ∀ closing ∈ [']', '>'], closing ∈ itemEnds ∧ closing ≠ ',' := by
    simp [itemEnds]
  exact readList_intercalate (reads_texts each) (by decide)
    (ends closing closes).1 (ends closing closes).2
    (faithful.closed closing closes) rest

theorem Faithful.readStem_tuple (faithful : Faithful read limit)
    {slots : List (Slot Ty)} (ordinary : (Ty.tuple slots).Ordinary)
    (short : (Ty.tuple slots).text.length ≤ limit) :
    readStem read ((Ty.tuple slots).text ++ rest) =
      some ((Ty.tuple slots).bare, rest) := by
  rw [text_tuple] at short ⊢
  simp only [List.length_cons, List.length_append] at short
  have members : ∀ type ∈ slots.map Slot.type, type.Ordinary :=
    fun _ => ordinary.of_part
  have closes : ']' ∈ [']', '>'] := by simp
  have found := faithful.readList_texts members (by omega) closes rest
  rw [List.cons_append, List.append_assoc, List.singleton_append,
    readStem_delimiter (by decide) (by decide), bare, bareSlots_eq]
  simp only [readDelimited, found, Option.map_some]

theorem Faithful.readStem_generic (faithful : Faithful read limit)
    {base : Name} {arguments : List Ty}
    (ordinary : (Ty.generic base arguments).Ordinary)
    (short : (Ty.generic base arguments).text.length ≤ limit) :
    readStem read ((Ty.generic base arguments).text ++ rest) =
      some ((Ty.generic base arguments).bare, rest) := by
  rw [text_generic] at short ⊢
  simp only [List.length_cons, List.length_append] at short
  have members : ∀ argument ∈ arguments, argument.Ordinary :=
    fun _ => ordinary.of_part
  have closes : '>' ∈ [']', '>'] := by simp
  have found := faithful.readList_texts members (by omega) closes rest
  have word : isWord base.toList = true :=
    isWord_of_isOrdinaryName ordinary.node
  rw [List.append_assoc, List.cons_append, List.append_assoc,
    List.singleton_append, readStem_word word (stops_cons.mpr (by decide)),
    bare, bareList_eq]
  simp only [readAfterWord, found, Option.map_some, String.ofList_toList]

theorem Faithful.readStem_parentheses (faithful : Faithful read limit)
    {element : Ty} (ordinary : (Ty.array element).Ordinary)
    (needed : element.needsParentheses = true)
    (short : (Ty.array element).text.length ≤ limit) :
    readStem read ((Ty.array element).text ++ rest) =
      some ((Ty.array element).bare, rest) := by
  rw [text_array_of_parentheses needed] at short ⊢
  simp only [List.length_cons, List.length_append] at short
  have elementOrdinary : element.Ordinary :=
    ordinary.of_part (List.mem_singleton_self element)
  have found := faithful.reads element elementOrdinary (by omega)
    (')' :: '[' :: ']' :: rest) (startsIn_cons.mpr (by decide))
  rw [List.cons_append, List.append_assoc,
    readStem_delimiter (by decide) (by decide)]
  simp [readDelimited, found, List.isPrefixOf?, bare]

theorem readArray_of_readStem {stem : Ty} {text : List Char}
    (found : readStem read text = some (stem, rest)) :
    readArray read text = some (readBrackets stem rest) := by
  simp [readArray, found]

/-- Reading a type that is neither a union nor a variadic takes it for the
element of the arrays whose brackets follow. -/
theorem Faithful.readArray_text (faithful : Faithful read limit) {type : Ty}
    (ordinary : type.Ordinary) (plain : type.needsParentheses = false)
    (short : type.text.length ≤ limit) (starts : StartsIn stemEnds rest) :
    readArray read (type.text ++ rest) =
      some (readBrackets type.bare rest) := by
  induction type using Ty.partsInduction generalizing rest with
  | any =>
      exact readArray_of_readStem
        (@readStem_plainWord read rest "any" (by decide) starts)
  | unknown =>
      exact readArray_of_readStem
        (@readStem_plainWord read rest "unknown" (by decide) starts)
  | nil =>
      exact readArray_of_readStem
        (@readStem_plainWord read rest "nil" (by decide) starts)
  | named name =>
      exact readArray_of_readStem (readStem_named ordinary.node starts)
  | union members | variadic element => simp [needsParentheses] at plain
  | tuple slots =>
      exact readArray_of_readStem (faithful.readStem_tuple ordinary short)
  | array element ih =>
      by_cases needed : element.needsParentheses = true
      · exact readArray_of_readStem
          (faithful.readStem_parentheses ordinary needed short)
      · rw [Bool.not_eq_true] at needed
        rw [text_array needed] at short ⊢
        rw [List.length_append] at short
        rw [List.append_assoc]
        -- The brackets are left to the arrays around the element.
        exact ih (ordinary.of_part (List.mem_singleton_self element)) needed
          (by omega) (startsIn_cons.mpr (by decide))
  | generic base arguments =>
      exact readArray_of_readStem (faithful.readStem_generic ordinary short)
  | stringLiteral content =>
      exact readArray_of_readStem (readStem_string content)
  | integerLiteral value =>
      exact readArray_of_readStem (readStem_integer value starts)
  | tableLiteral origin =>
      exact readArray_of_readStem (readStem_tableLiteral origin starts)
  | docTable origin =>
      exact readArray_of_readStem (readStem_docTable origin starts)
  | expand name =>
      exact readArray_of_readStem (readStem_expand ordinary.node)
  | results types | repeating base =>
      exact absurd ordinary.node Bool.false_ne_true

theorem readBrackets_of_memberEnds {element : Ty}
    (starts : StartsIn memberEnds rest) :
    readBrackets element rest = (element, rest) := by
  cases rest with
  | nil => rfl
  | cons first rest =>
      have firstMem : first ∈ memberEnds := startsIn_cons.mp starts
      simp only [memberEnds, itemEnds, List.mem_cons, List.not_mem_nil,
        or_false] at firstMem
      rcases firstMem with rfl | rfl | rfl | rfl | rfl <;> rfl

theorem readArray_dot : readArray read ('.' :: rest) = none := by
  rw [readArray, readStem_delimiter (by decide) (by decide)]
  rfl

theorem readMember_of_readArray {type : Ty} {text : List Char}
    (found : readArray read text = some (type, rest)) :
    readMember read text = some (type, rest) := by
  rw [readMember.eq_def]
  split
  · rw [readArray_dot] at found
    exact absurd found (Option.some_ne_none _).symm
  · exact found

theorem Faithful.readMember_text (faithful : Faithful read limit) {type : Ty}
    (ordinary : type.Ordinary) (single : type.kind ≠ .union)
    (short : type.text.length ≤ limit) :
    Reads (readMember read) memberEnds type.text type.bare := by
  intro rest starts
  induction type using Ty.inductionOnParts with
  | step type ih =>
      by_cases plain : type.needsParentheses = false
      · apply readMember_of_readArray
        rw [faithful.readArray_text ordinary plain short
          (starts.mono (List.subset_cons_self _ _)),
          readBrackets_of_memberEnds starts]
      · cases type with
        | union members => exact absurd rfl single
        | variadic element =>
            have partMem : element ∈ (Ty.variadic element).parts :=
              List.mem_singleton_self element
            have elementSingle : element.kind ≠ .union :=
              bne_iff_ne.mp ordinary.node
            have elementShort : element.text.length ≤ limit := by
              change element.text.length + 3 ≤ limit at short
              omega
            have found := ih element partMem (ordinary.of_part partMem)
              elementSingle elementShort
            change (readMember read (element.text ++ rest)).map _ = _
            rw [found, bare]
            rfl
        | _ => exact absurd rfl plain

theorem ofMembers_of_two_le {members : List Ty} (many : 2 ≤ members.length) :
    ofMembers members = .union members := by
  match members with
  | _ :: _ :: _ => rfl

theorem Faithful.readNested_members (faithful : Faithful read limit)
    {members : List Ty} (nonempty : members ≠ [])
    (ordinary : ∀ member ∈ members, member.Ordinary)
    (single : ∀ member ∈ members, member.kind ≠ .union)
    (short : (['|'].intercalate (members.map text)).length ≤ limit) :
    Reads (readNested read) itemEnds (['|'].intercalate (members.map text))
      (ofMembers (members.map bare)) := by
  have each : ∀ member ∈ members,
      Reads (readMember read) memberEnds member.text member.bare := by
    intro member memberMem
    have shorter := length_text_le ['|'] memberMem
    exact faithful.readMember_text (ordinary member memberMem)
      (single member memberMem) (by omega)
  have listed : Reads (readSeparated (readMember read) ['|']) itemEnds
      (['|'].intercalate (members.map text)) (members.map bare) :=
    reads_intercalate (reads_texts each) (by simpa using nonempty)
      List.mem_cons_self (List.subset_cons_self _ _) (by decide)
  intro rest starts
  rw [readNested, listed rest starts]
  rfl

theorem Faithful.readNested_text (faithful : Faithful read limit) {type : Ty}
    (ordinary : type.Ordinary) (short : type.text.length ≤ limit) :
    Reads (readNested read) itemEnds type.text type.bare := by
  by_cases single : type.kind = .union
  · cases type with
    | union members =>
        have valid := ordinary.node
        simp only [isOrdinaryNode, Bool.and_eq_true, decide_eq_true_eq,
          List.all_eq_true, bne_iff_ne] at valid
        obtain ⟨many, singles⟩ := valid
        have nonempty : members ≠ [] := by
          rintro rfl
          simp at many
        have membersOrdinary : ∀ member ∈ members, member.Ordinary :=
          fun _ => ordinary.of_part
        rw [text_union] at short ⊢
        rw [bare, bareList_eq, ← ofMembers_of_two_le (by simpa using many)]
        exact faithful.readNested_members nonempty membersOrdinary singles short
    | _ => exact absurd single (by simp [kind])
  · have found := faithful.readNested_members (List.cons_ne_nil type [])
      (by simpa using ordinary) (by simpa using single) (by simpa using short)
    simpa [ofMembers] using found

theorem readNested_closed {closing : Char} (closes : closing ∈ [']', '>']) :
    readNested read (closing :: rest) = none := by
  have nothing : readMember read (closing :: rest) = none := by
    simp only [List.mem_cons, List.not_mem_nil, or_false] at closes
    rcases closes with rfl | rfl <;> rfl
  rw [readNested, readSeparated, nothing]
  rfl

/-- One more level of nesting reads back texts longer by one. -/
theorem Faithful.readNested (faithful : Faithful read limit) :
    Faithful (readNested read) (limit + 1) where
  reads _ ordinary short :=
    faithful.readNested_text ordinary (Nat.le_of_lt_succ short)
  closed _ closes _ := readNested_closed closes

theorem faithful_readWithin (levels : Nat) :
    Faithful (readWithin levels) levels := by
  induction levels with
  | zero => exact ⟨fun _ _ short => absurd short (Nat.not_lt_zero _),
      fun _ _ _ => rfl⟩
  | succ levels ih => exact ih.readNested

theorem read?_text {type : Ty} (ordinary : type.Ordinary) :
    read? type.text = some type.bare := by
  have found := (faithful_readWithin (type.text.length + 1)).reads type ordinary
    (Nat.lt_succ_self _) [] (startsIn_nil _)
  rw [List.append_nil] at found
  rw [read?, found]

end Levels

section Equality

theorem same_tuple_iff {firsts seconds : List (Slot Ty)} :
    (Ty.tuple firsts).same (.tuple seconds) = true ↔
      List.Forall₂ (fun first second => first.same second = true)
        (firsts.map Slot.type) (seconds.map Slot.type) := by
  rw [List.forall₂_map_left_iff, List.forall₂_map_right_iff]
  exact sameSlots_iff

theorem forall₂_same_bare {types : List Ty}
    (each : ∀ type ∈ types,
      type.same type.bare = true ∧ type.bare.same type = true) :
    List.Forall₂ (fun first second => first.same second = true)
        types (types.map bare) ∧
      List.Forall₂ (fun first second => first.same second = true)
        (types.map bare) types := by
  rw [List.forall₂_map_right_iff, List.forall₂_map_left_iff,
    List.forall₂_same, List.forall₂_same]
  exact ⟨fun type typeMem => (each type typeMem).1,
    fun type typeMem => (each type typeMem).2⟩

theorem same_bare (type : Ty) :
    type.same type.bare = true ∧ type.bare.same type = true := by
  induction type using Ty.partsInduction with
  | union members ih =>
      obtain ⟨onward, back⟩ := forall₂_same_bare ih
      rw [bare, bareList_eq]
      constructor
      · refine same_iff_alike.mpr (.union (by simp) fun member memberMem => ?_)
        exact exists_of_mem_left onward memberMem
      · refine same_iff_alike.mpr (.union (by simp) fun image imageMem => ?_)
        exact exists_of_mem_left back imageMem
  | tuple slots ih =>
      have types : ∀ type ∈ slots.map Slot.type,
          type.same type.bare = true ∧ type.bare.same type = true := by
        simpa using ih
      have kept : (tupleOf (bareSlots slots)).parts =
          (slots.map Slot.type).map bare := by
        simp [tupleOf, parts, Function.comp_def]
      obtain ⟨onward, back⟩ := forall₂_same_bare types
      rw [← kept] at onward back
      exact ⟨same_tuple_iff.mpr onward, same_tuple_iff.mpr back⟩
  | generic base arguments ih =>
      obtain ⟨onward, back⟩ := forall₂_same_bare ih
      rw [bare, bareList_eq]
      exact ⟨same_iff_alike.mpr (.generic onward),
        same_iff_alike.mpr (.generic back)⟩
  | results types ih =>
      obtain ⟨onward, back⟩ := forall₂_same_bare ih
      rw [bare, bareList_eq]
      exact ⟨same_iff_alike.mpr (.results onward),
        same_iff_alike.mpr (.results back)⟩
  | array element ih => exact ih
  | variadic element ih => exact ih
  | repeating base ih => exact ih
  | _ => exact ⟨same_refl _, same_refl _⟩

end Equality

/-- Ordinary types that are rendered alike are the same.  They agree in all
but the metadata of their tuples, so also in the order of the members of every
union. -/
theorem same_of_render_eq (first second : Ty) (firstOrdinary : first.Ordinary)
    (secondOrdinary : second.Ordinary)
    (rendered : first.render = second.render) :
    first.same second = true ∧ first.bare = second.bare := by
  have texts : first.text = second.text := String.ofList_injective rendered
  have bares : first.bare = second.bare := by
    have read := read?_text firstOrdinary
    rw [texts, read?_text secondOrdinary] at read
    exact (Option.some.inj read).symm
  have onward : first.same second.bare = true := bares ▸ (same_bare first).1
  exact ⟨same_trans onward (same_bare second).2, bares⟩

theorem same_of_render_eq_nested :
    let shown := fun tuple => Ty.union
      [.array (.union [.variadic tuple, .nil]),
        .generic "Map" [.stringLiteral "\"]|\\é\n", .array (.tuple [])],
        .variadic (.array (.expand "T")), .integerLiteral (-5),
        .docTable ⟨⟨3⟩, 4⟩]
    let first := shown (.tuple [⟨7, .named "Row", some ⟨⟨1⟩, 2⟩⟩])
    let second := shown (tupleOf [.named "Row"])
    (first.Ordinary ∧ second.Ordinary ∧ first.render = second.render) ∧
      first.same second = true ∧ first.bare = second.bare := by
  intro shown first second
  have firstOrdinary : first.Ordinary := by decide
  have secondOrdinary : second.Ordinary := by decide
  have rendered : first.render = second.render := rfl
  exact ⟨⟨firstOrdinary, secondOrdinary, rendered⟩,
    same_of_render_eq first second firstOrdinary secondOrdinary rendered⟩

end Ty

end LuaTyping
