import LuaTyping.Operator.Kind
import LuaTyping.Ty.Equality

/-!
# Operator overloads

An overload declares the result type of an operator for given operand types.
Indexing always has its own kind; any other kind may be declared with one
operand or with two.
-/

namespace LuaTyping

/-- A declared operator overload. -/
inductive Overload where
  | binary (kind : OperatorKind) (left right result : Ty)
  | unary (kind : OperatorKind) (operand result : Ty)
  | index (container key result : Ty)
  deriving Repr

namespace Overload

/-- The kind under which an overload is filed. -/
def kind : Overload → OperatorKind
  | .binary kind _ _ _ => kind
  | .unary kind _ _ => kind
  | .index _ _ _ => .index

/-- The type that the operator yields. -/
def result : Overload → Ty
  | .binary _ _ _ result => result
  | .unary _ _ result => result
  | .index _ _ result => result

/-- Whether two overloads declare the same. -/
def same : Overload → Overload → Bool
  | .binary kind left right result, .binary kind' left' right' result' =>
      kind == kind' && left.same left' && right.same right' &&
        result.same result'
  | .unary kind operand result, .unary kind' operand' result' =>
      kind == kind' && operand.same operand' && result.same result'
  | .index container key result, .index container' key' result' =>
      container.same container' && key.same key' && result.same result'
  | _, _ => false

/-- Whether an overload takes two operands, other than by indexing. -/
def isBinary : Overload → Bool
  | .binary _ _ _ _ => true
  | _ => false

/-- Whether an overload takes one operand. -/
def isUnary : Overload → Bool
  | .unary _ _ _ => true
  | _ => false

/-- Whether an overload declares indexing. -/
def isIndex : Overload → Bool
  | .index _ _ _ => true
  | _ => false

/-- Whether a binary overload is declared for exactly these operands. -/
def matchesBinary (left right : Ty) : Overload → Bool
  | .binary _ declaredLeft declaredRight _ =>
      declaredLeft.same left && declaredRight.same right
  | _ => false

/-- Whether a unary overload is declared for exactly this operand. -/
def matchesUnary (operand : Ty) : Overload → Bool
  | .unary _ declared _ => declared.same operand
  | _ => false

/-- Whether indexing is declared for exactly this container and key. -/
def matchesIndex (container key : Ty) : Overload → Bool
  | .index declaredContainer declaredKey _ =>
      declaredContainer.same container && declaredKey.same key
  | _ => false

end Overload

end LuaTyping
