/-!
# Escaped text

Literal contents are shown in printable ASCII.  Quotes, the backslash and the
three common blanks have short escapes; every other character outside the
printable range is shown by its code point in hexadecimal.
-/

namespace LuaTyping

namespace Text

/-- The characters that need no escape: printable ASCII, from the blank to
the tilde. -/
def isPlain (character : Char) : Bool :=
  ' ' ≤ character && character ≤ '~'

/-- Escape of a character by its code point, in lower-case hexadecimal
without leading zeros. -/
def escapeCodePoint (character : Char) : List Char :=
  '\\' :: 'u' :: '\x7b' :: (Nat.toDigits 16 character.toNat ++ ['\x7d'])

/-- Escape of one character. -/
def escapeChar (character : Char) : List Char :=
  if character = '\t' then ['\\', 't']
  else if character = '\r' then ['\\', 'r']
  else if character = '\n' then ['\\', 'n']
  else if character = '\'' then ['\\', '\'']
  else if character = '"' then ['\\', '"']
  else if character = '\\' then ['\\', '\\']
  else if isPlain character then [character]
  else escapeCodePoint character

/-- Escape of a text, character by character. -/
def escape (content : List Char) : List Char :=
  content.flatMap escapeChar

end Text

end LuaTyping
