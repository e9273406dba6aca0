import LuaTyping.Substitution
import LuaTyping.Ty.Equality

/-!
# Instantiation of generic types

Instantiation replaces type parameters throughout a type.  All parameters are
replaced at once: a type that has been put in place of a parameter is not
looked at again.

A tuple is where call results flatten.  Once its members are instantiated,
call results in the last slot are spread over one slot for each listed result,
counting on from the index of the slot they take.  Slot indices are 64-bit
words, so counting can run past the largest index, and instantiation then
fails.
-/

namespace LuaTyping

/-- The largest index that a slot can carry. -/
def Slot.maxIndex : Nat := UInt64.size - 1

/-- Why a type could not be instantiated. -/
inductive InstantiationError where
  /-- Call results reach past the largest slot index. -/
  | indexOverflow
  deriving DecidableEq, Repr

namespace InstantiationError

/-- The report of a failed instantiation. -/
def message : InstantiationError → String
  | .indexOverflow => "attempt to add with overflow"

end InstantiationError

/-- One slot for each of the listed results, with consecutive indices and the
source reference of the slot that held the results. -/
def placeResults (origin : Option Origin) :
    Nat → List Ty → Except InstantiationError (List (Slot Ty))
  | _, [] => .ok []
  | index, type :: types =>
      if index ≤ Slot.maxIndex then do
        let slots ← placeResults origin (index + 1) types
        return { index, type, origin } :: slots
      else
        .error .indexOverflow

/-- Spread call results in the last slot of a tuple.  Results of a repeating
call are not listed, so their slot disappears. -/
def spreadLast : List (Slot Ty) → Except InstantiationError (List (Slot Ty))
  | [] => .ok []
  | [slot] =>
      match slot.type with
      | .results types => placeResults slot.origin slot.index types
      | .repeating _ => .ok []
      | _ => .ok [slot]
  | slot :: next :: slots => do
      let spread ← spreadLast (next :: slots)
      return slot :: spread

namespace Ty

mutual

/-- Replace the type parameters that a substitution binds. -/
def instantiate (substitution : Substitution) :
    Ty → Except InstantiationError Ty
  | .any => .ok .any
  | .unknown => .ok .unknown
  | .nil => .ok .nil
  | .named name => .ok (substitution.atName name)
  | .union members => do
      let members ← instantiateList substitution members
      return unionOf members
  | .tuple slots => do
      let slots ← instantiateSlots substitution slots
      let spread ← spreadLast slots
      return .tuple spread
  | .array element => do
      let element ← instantiate substitution element
      return .array element
  | .generic base arguments => do
      let arguments ← instantiateList substitution arguments
      return .generic (substitution.atBase base) arguments
  | .stringLiteral content => .ok (.stringLiteral content)
  | .integerLiteral value => .ok (.integerLiteral value)
  | .tableLiteral origin => .ok (.tableLiteral origin)
  | .docTable origin => .ok (.docTable origin)
  | .variadic element => do
      let element ← instantiate substitution element
      return .variadic element
  | .expand name => .ok (substitution.atExpand name)
  | .results types => do
      let types ← instantiateList substitution types
      return .results types
  | .repeating base => do
      let base ← instantiate substitution base
      return .repeating base
termination_by structural type => type

/-- Instantiate several types. -/
def instantiateList (substitution : Substitution) :
    List Ty → Except InstantiationError (List Ty)
  | [] => .ok []
  | type :: types => do
      let type ← instantiate substitution type
      let types ← instantiateList substitution types
      return type :: types

/-- Instantiate the member types of a tuple in place. -/
def instantiateSlots (substitution : Substitution) :
    List (Slot Ty) → Except InstantiationError (List (Slot Ty))
  | [] => .ok []
  | ⟨index, type, origin⟩ :: slots => do
      let type ← instantiate substitution type
      let slots ← instantiateSlots substitution slots
      return ⟨index, type, origin⟩ :: slots

end

end Ty

end LuaTyping
