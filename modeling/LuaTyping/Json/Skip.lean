import LuaTyping.Json.Number

/-!
# Passing over JSON values

A value that nobody asked for still has to be JSON.  Passing over it keeps a
stack of the brackets that are open, so that values may be nested to any
depth.
-/

namespace LuaTyping

namespace Json

/-- A bracket that has been opened and not yet closed. -/
inductive Bracket where
  | list
  | object
  deriving DecidableEq, Repr

/-- Pass over a value that opens no bracket. -/
def skipScalar : List Char → Except Fault (List Char)
  | [] => .error .endOfText
  | 'n' :: text => scanWord ['u', 'l', 'l'] text
  | 't' :: text => scanWord ['r', 'u', 'e'] text
  | 'f' :: text => scanWord ['a', 'l', 's', 'e'] text
  | '"' :: text => skipString text
  | '-' :: text => skipUnsigned text
  | character :: text =>
      if isDigit character then skipUnsigned (character :: text)
      else .error .malformed

/-- Pass over the key of an object member and the colon behind it. -/
def skipKey (text : List Char) : Except Fault (List Char) := do
  let rest ← scanMark '"' text
  let rest ← skipString rest
  scanMark ':' rest

mutual

/-- Pass over a value and over all that is still open around it.  Every step
takes at least one character, so one step more than the text is long
suffices. -/
def skipFrom : Nat → List Bracket → List Char → Except Fault (List Char)
  | 0, _, _ => .error .endOfText
  | steps + 1, opened, text =>
      match dropBlanks text with
      | '[' :: text =>
          match dropBlanks text with
          | ']' :: rest => skipBehind steps opened rest
          | rest => skipFrom steps (.list :: opened) rest
      | '\x7b' :: text =>
          match dropBlanks text with
          | '\x7d' :: rest => skipBehind steps opened rest
          | rest => do
              let rest ← skipKey rest
              skipFrom steps (.object :: opened) rest
      | text => do
          let rest ← skipScalar text
          skipBehind steps opened rest

/-- Pass over all that is still open behind a value. -/
def skipBehind : Nat → List Bracket → List Char → Except Fault (List Char)
  | _, [], text => .ok text
  | 0, _ :: _, _ => .error .endOfText
  | steps + 1, .list :: opened, text =>
      match dropBlanks text with
      | ',' :: rest => skipFrom steps (.list :: opened) rest
      | ']' :: rest => skipBehind steps opened rest
      | rest => .error (unexpected rest)
  | steps + 1, .object :: opened, text =>
      match dropBlanks text with
      | ',' :: rest => do
          let rest ← skipKey rest
          skipFrom steps (.object :: opened) rest
      | '\x7d' :: rest => skipBehind steps opened rest
      | rest => .error (unexpected rest)

end

/-- Pass over one value. -/
def skipValue (text : List Char) : Except Fault (List Char) :=
  skipFrom (text.length + 1) [] text

end Json

end LuaTyping
