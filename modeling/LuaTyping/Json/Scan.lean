/-!
# Scanning JSON text

Text is read from left to right and the first fault decides.  Three faults are
told apart: the text ends too early, it is not JSON at some point, or it is
JSON but not what was asked for.

Every scanner takes the text that is left and returns what is left after it.
-/

namespace LuaTyping

namespace Json

/-- Why a text could not be read. -/
inductive Fault where
  /-- The text ends inside a value. -/
  | endOfText
  /-- The text is not JSON at some point. -/
  | malformed
  /-- The text is JSON of another shape than expected. -/
  | wrongShape
  deriving DecidableEq, Repr

/-- The blanks between JSON tokens. -/
def isBlank (character : Char) : Bool :=
  character == ' ' || character == '\n' || character == '\t' ||
    character == '\r'

/-- The text behind leading blanks. -/
def dropBlanks (text : List Char) : List Char :=
  text.dropWhile isBlank

/-- The fault of meeting something unexpected: either the text is over or it
is malformed. -/
def unexpected : List Char → Fault
  | [] => .endOfText
  | _ => .malformed

/-- Read the remaining letters of a word. -/
def scanWord : List Char → List Char → Except Fault (List Char)
  | [], text => .ok text
  | letter :: letters, character :: text =>
      if character = letter then scanWord letters text else .error .malformed
  | _ :: _, [] => .error .endOfText

/-- Read one punctuation mark, after blanks. -/
def scanMark (mark : Char) (text : List Char) : Except Fault (List Char) :=
  match dropBlanks text with
  | [] => .error .endOfText
  | character :: rest =>
      if character = mark then .ok rest else .error .malformed

/-- The value of a hexadecimal digit. -/
def hexDigit? (character : Char) : Option Nat :=
  if '0' ≤ character ∧ character ≤ '9' then
    some (character.toNat - '0'.toNat)
  else if 'a' ≤ character ∧ character ≤ 'f' then
    some (character.toNat - 'a'.toNat + 10)
  else if 'A' ≤ character ∧ character ≤ 'F' then
    some (character.toNat - 'A'.toNat + 10)
  else
    none

/-- Whether a text is shorter than four bytes in UTF-8. -/
def underFourBytes (text : List Char) : Bool :=
  (text.take 4).foldr (fun character total => character.utf8Size + total) 0 < 4

/-- Read the four hexadecimal digits of an escape.  A text of fewer than four
bytes has ended too early, whatever it holds. -/
def scanHex (text : List Char) : Except Fault (Nat × List Char) :=
  match text with
  | first :: second :: third :: fourth :: rest =>
      match hexDigit? first, hexDigit? second, hexDigit? third,
          hexDigit? fourth with
      | some a, some b, some c, some d =>
          .ok (((a * 16 + b) * 16 + c) * 16 + d, rest)
      | _, _, _, _ => .error .malformed
  | _ =>
      if underFourBytes text then .error .endOfText else .error .malformed

/-- The first half of a surrogate pair. -/
def isLeadingSurrogate (unit : Nat) : Bool :=
  0xD800 ≤ unit && unit ≤ 0xDBFF

/-- The second half of a surrogate pair. -/
def isTrailingSurrogate (unit : Nat) : Bool :=
  0xDC00 ≤ unit && unit ≤ 0xDFFF

/-- The character that a surrogate pair encodes. -/
def joinSurrogates (leading trailing : Nat) : Char :=
  Char.ofNat ((leading - 0xD800) * 0x400 + (trailing - 0xDC00) + 0x10000)

/-- Read an escape by code unit.  A surrogate counts only as half of a
pair. -/
def scanUnit (text : List Char) : Except Fault (Char × List Char) := do
  let (unit, rest) ← scanHex text
  if isTrailingSurrogate unit then
    .error .malformed
  else if isLeadingSurrogate unit then
    match rest with
    | '\\' :: 'u' :: rest => do
        let (trailing, rest) ← scanHex rest
        if isTrailingSurrogate trailing then
          .ok (joinSurrogates unit trailing, rest)
        else
          .error .malformed
    | [] | ['\\'] => .error .endOfText
    | _ => .error .malformed
  else
    .ok (Char.ofNat unit, rest)

/-- The character behind a one-letter escape. -/
def shortEscape? : Char → Option Char
  | '"' => some '"'
  | '\\' => some '\\'
  | '/' => some '/'
  | 'b' => some '\x08'
  | 'f' => some '\x0c'
  | 'n' => some '\n'
  | 'r' => some '\r'
  | 't' => some '\t'
  | _ => none

/-- Read an escape, behind its backslash. -/
def scanEscape : List Char → Except Fault (Char × List Char)
  | [] => .error .endOfText
  | 'u' :: text => scanUnit text
  | letter :: text =>
      match shortEscape? letter with
      | some character => .ok (character, text)
      | none => .error .malformed

/-- Pass over an escape, behind its backslash.  Code units are not
examined. -/
def skipEscape : List Char → Except Fault (List Char)
  | [] => .error .endOfText
  | 'u' :: text => do
      let (_, rest) ← scanHex text
      .ok rest
  | letter :: text =>
      if (shortEscape? letter).isSome then .ok text else .error .malformed

/-- Control characters may not stand in a string. -/
def isControl (character : Char) : Bool :=
  character < ' '

/-- Read string contents up to the closing quote.  Every step takes at least
one character, so the length of the text bounds the number of steps. -/
def scanContents : Nat → List Char → Except Fault (List Char × List Char)
  | 0, _ => .error .endOfText
  | _ + 1, [] => .error .endOfText
  | _ + 1, '"' :: text => .ok ([], text)
  | steps + 1, '\\' :: text => do
      let (character, rest) ← scanEscape text
      let (contents, rest) ← scanContents steps rest
      .ok (character :: contents, rest)
  | steps + 1, character :: text =>
      if isControl character then
        .error .malformed
      else do
        let (contents, rest) ← scanContents steps text
        .ok (character :: contents, rest)

/-- Read a string, behind its opening quote. -/
def scanString (text : List Char) : Except Fault (String × List Char) := do
  let (contents, rest) ← scanContents text.length text
  .ok (String.ofList contents, rest)

/-- Pass over string contents up to the closing quote. -/
def skipContents : Nat → List Char → Except Fault (List Char)
  | 0, _ => .error .endOfText
  | _ + 1, [] => .error .endOfText
  | _ + 1, '"' :: text => .ok text
  | steps + 1, '\\' :: text => do
      let rest ← skipEscape text
      skipContents steps rest
  | steps + 1, character :: text =>
      if isControl character then .error .malformed
      else skipContents steps text

/-- Pass over a string, behind its opening quote. -/
def skipString (text : List Char) : Except Fault (List Char) :=
  skipContents text.length text

end Json

end LuaTyping
