/-!
# Kinds of operators

The operators that a declaration can overload.  Each is known by the name of
its metamethod, which annotations may write in any letter case and with or
without the leading underscores.
-/

namespace LuaTyping

/-- An operator that can be overloaded. -/
inductive OperatorKind where
  | add
  | sub
  | mul
  | div
  | mod
  | pow
  | unm
  | idiv
  | band
  | bor
  | bxor
  | shl
  | shr
  | bnot
  | concat
  | len
  | eq
  | lt
  | le
  | call
  | index
  deriving DecidableEq, Repr

namespace OperatorKind

/-- All kinds, in declaration order. -/
def all : List OperatorKind :=
  [.add, .sub, .mul, .div, .mod, .pow, .unm, .idiv, .band, .bor, .bxor, .shl,
    .shr, .bnot, .concat, .len, .eq, .lt, .le, .call, .index]

/-- The name of an operator in annotations. -/
def word : OperatorKind → String
  | .add => "add"
  | .sub => "sub"
  | .mul => "mul"
  | .div => "div"
  | .mod => "mod"
  | .pow => "pow"
  | .unm => "unm"
  | .idiv => "idiv"
  | .band => "band"
  | .bor => "bor"
  | .bxor => "bxor"
  | .shl => "shl"
  | .shr => "shr"
  | .bnot => "bnot"
  | .concat => "concat"
  | .len => "len"
  | .eq => "eq"
  | .lt => "lt"
  | .le => "le"
  | .call => "call"
  | .index => "index"

/-- Label of a kind in diagnostics. -/
def label : OperatorKind → String
  | .add => "Add"
  | .sub => "Sub"
  | .mul => "Mul"
  | .div => "Div"
  | .mod => "Mod"
  | .pow => "Pow"
  | .unm => "Unm"
  | .idiv => "IDiv"
  | .band => "BAnd"
  | .bor => "BOr"
  | .bxor => "BXor"
  | .shl => "Shl"
  | .shr => "Shr"
  | .bnot => "BNot"
  | .concat => "Concat"
  | .len => "Len"
  | .eq => "Eq"
  | .lt => "Lt"
  | .le => "Le"
  | .call => "Call"
  | .index => "Index"

/-- The operators that take a single operand. -/
def isUnary : OperatorKind → Bool
  | .unm | .bnot | .len => true
  | _ => false

/-- A name without the two underscores of a metamethod. -/
def withoutUnderscores : List Char → List Char
  | '_' :: '_' :: name => name
  | name => name

/-- The operator that an annotation names.  Letter case is ignored for the
ASCII letters only. -/
def ofName? (name : String) : Option OperatorKind :=
  let letters := (withoutUnderscores name.toList).map Char.toLower
  all.find? fun kind => kind.word.toList == letters

/-- Kinds in declaration order. -/
def sort (kinds : List OperatorKind) : List OperatorKind :=
  kinds.mergeSort fun first second => all.idxOf first ≤ all.idxOf second

end OperatorKind

end LuaTyping
