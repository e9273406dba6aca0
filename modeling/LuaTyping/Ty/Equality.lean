import LuaTyping.Ty.Basic

/-!
# Equality of types

Two types are the same when they describe the same values, which is coarser
than equality of the trees.  A union is a set of members, so their order does
not matter; a tuple is the sequence of its member types, so the indices and
source references of its slots do not matter.

Union members are compared by length and inclusion in one direction.  That is
set equality because `Ty.unionOf` keeps only the first of several members
that are the same.
-/

namespace LuaTyping

namespace Ty

mutual

/-- Whether two types describe the same values. -/
def same : Ty → Ty → Bool
  | .any, .any => true
  | .unknown, .unknown => true
  | .nil, .nil => true
  | .named first, .named second => first == second
  | .union firsts, .union seconds =>
      firsts.length == seconds.length && allAmong firsts seconds
  | .tuple firsts, .tuple seconds => sameSlots firsts seconds
  | .array first, .array second => same first second
  | .generic firstBase firsts, .generic secondBase seconds =>
      firstBase == secondBase && sameList firsts seconds
  | .stringLiteral first, .stringLiteral second => first == second
  | .integerLiteral first, .integerLiteral second => first == second
  | .tableLiteral first, .tableLiteral second => first == second
  | .docTable first, .docTable second => first == second
  | .variadic first, .variadic second => same first second
  | .expand first, .expand second => first == second
  | .results firsts, .results seconds => sameList firsts seconds
  | .repeating first, .repeating second => same first second
  | _, _ => false
termination_by structural t => t

/-- Whether every type of the first list is the same as one of the second. -/
def allAmong : List Ty → List Ty → Bool
  | [], _ => true
  | first :: firsts, seconds =>
      seconds.any (fun second => same first second) &&
        allAmong firsts seconds

/-- Whether two lists agree position by position. -/
def sameList : List Ty → List Ty → Bool
  | [], [] => true
  | first :: firsts, second :: seconds =>
      same first second && sameList firsts seconds
  | _, _ => false

/-- Whether two tuples agree in their member types, position by position. -/
def sameSlots : List (Slot Ty) → List (Slot Ty) → Bool
  | [], [] => true
  | ⟨_, first, _⟩ :: firsts, ⟨_, second, _⟩ :: seconds =>
      same first second && sameSlots firsts seconds
  | _, _ => false

end

/-- Whether a type is the same as some type of a list. -/
def among (type : Ty) (types : List Ty) : Bool :=
  types.any fun other => same type other

/-- The first of each class of equal types, in order of appearance, leaving
out those already found in `seen`. -/
def distinctFrom (seen : List Ty) : List Ty → List Ty
  | [] => []
  | type :: types =>
      if type.among seen then distinctFrom seen types
      else type :: distinctFrom (type :: seen) types

/-- The first of each class of equal types, in order of appearance. -/
def distinct (types : List Ty) : List Ty :=
  distinctFrom [] types

/-- The union of the given types, without repetition. -/
def unionOf (members : List Ty) : Ty :=
  .union (distinct members)

end Ty

end LuaTyping
