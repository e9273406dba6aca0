import LuaTyping.Text.Escape
import LuaTyping.Ty.Basic

/-!
# Rendering of types

Types are shown the way annotations write them.  Only an array puts
parentheses around its element, and only where the brackets would otherwise
bind to the last part of it.  Names are shown as they are; the contents of
string literals are escaped.
-/

namespace LuaTyping

/-- Decimal text of an integer, with a minus sign in front of negative
ones. -/
def integerText (value : Int) : List Char :=
  if value < 0 then '-' :: Nat.toDigits 10 value.natAbs
  else Nat.toDigits 10 value.natAbs

namespace Ty

/-- The elements that an array shows in parentheses. -/
def needsParentheses : Ty → Bool
  | .union _ | .variadic _ => true
  | _ => false

mutual

/-- The text of a type. -/
def text : Ty → List Char
  | .any => "any".toList
  | .unknown => "unknown".toList
  | .nil => "nil".toList
  | .named name => name.toList
  | .union members => ['|'].intercalate (texts members)
  | .tuple slots =>
      '[' :: ([',', ' '].intercalate (slotTexts slots) ++ [']'])
  | .array element =>
      if element.needsParentheses then
        '(' :: (text element ++ [')', '[', ']'])
      else
        text element ++ ['[', ']']
  | .generic base arguments =>
      base.toList ++ '<' :: ([',', ' '].intercalate (texts arguments) ++ ['>'])
  | .stringLiteral content => '"' :: (Text.escape content.toList ++ ['"'])
  | .integerLiteral value => integerText value.toInt
  | .tableLiteral origin => "table@".toList ++ origin.text
  | .docTable origin => "doc-table@".toList ++ origin.text
  | .variadic element => "...".toList ++ text element
  | .expand name => name.toList ++ "...".toList
  | .results types => '(' :: ([',', ' '].intercalate (texts types) ++ [')'])
  | .repeating base => '(' :: (text base ++ "...)".toList)
termination_by structural type => type

/-- The texts of several types. -/
def texts : List Ty → List (List Char)
  | [] => []
  | type :: types => text type :: texts types

/-- The texts of the member types of a tuple. -/
def slotTexts : List (Slot Ty) → List (List Char)
  | [] => []
  | ⟨_, type, _⟩ :: slots => text type :: slotTexts slots

end

/-- The rendering of a type. -/
def render (type : Ty) : String :=
  String.ofList type.text

end Ty

end LuaTyping
