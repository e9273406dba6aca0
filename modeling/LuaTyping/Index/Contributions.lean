import LuaTyping.Feature
import LuaTyping.Operator.Overload

/-!
# Contributions of a document

The overloads and features that one document declares, collected while the
document is read and handed to the index as one batch.
-/

namespace LuaTyping

/-- What one document declares. -/
structure Contributions where
  operators : List Overload
  features : List (Name × Feature)
  deriving Repr

namespace Contributions

/-- Number of declarations. -/
def size (contributions : Contributions) : Nat :=
  contributions.operators.length + contributions.features.length

/-- Whether nothing is declared. -/
def isEmpty (contributions : Contributions) : Bool :=
  contributions.operators.isEmpty && contributions.features.isEmpty

/-- Whether two lists of overloads declare the same, one by one. -/
def sameOperators : List Overload → List Overload → Bool
  | [], [] => true
  | first :: firsts, second :: seconds =>
      first.same second && sameOperators firsts seconds
  | _, _ => false

/-- Whether two batches declare the same in the same order. -/
def same (first second : Contributions) : Bool :=
  sameOperators first.operators second.operators &&
    first.features == second.features

end Contributions

end LuaTyping
