import LuaTyping.Ty.Basic

/-!
# Fingerprints of types

A fingerprint is computed by a hash function from a sequence of tokens.
Equal types must yield equal sequences.  A tuple writes its member types and
leaves out indices and source references.  A union cannot write its members in
order, so it writes their number and the sum of their fingerprints, which does
not depend on the order.
-/

namespace LuaTyping

/-- One value in the sequence that a fingerprint is computed from. -/
inductive Token where
  /-- The constructor of a type. -/
  | kind (kind : Kind)
  /-- Whether call results repeat. -/
  | repeats (flag : Bool)
  | text (content : String)
  | integer (value : Int64)
  | origin (origin : Origin)
  | count (number : Nat)
  | sum (value : UInt64)
  deriving DecidableEq, Repr, Hashable

namespace Ty

mutual

/-- The tokens of a type, given how a sequence of tokens is hashed. -/
def tokens (hash : List Token → UInt64) : Ty → List Token
  | .any => [.kind .any]
  | .unknown => [.kind .unknown]
  | .nil => [.kind .nil]
  | .named name => [.kind .named, .text name]
  | .union members =>
      [.kind .union, .count members.length, .sum (memberSum hash members)]
  | .tuple slots =>
      .kind .tuple :: .count slots.length :: slotTokens hash slots
  | .array element => .kind .array :: tokens hash element
  | .generic base arguments =>
      .kind .generic :: .text base :: .count arguments.length ::
        listTokens hash arguments
  | .stringLiteral content => [.kind .stringLiteral, .text content]
  | .integerLiteral value => [.kind .integerLiteral, .integer value]
  | .tableLiteral origin => [.kind .tableLiteral, .origin origin]
  | .docTable origin => [.kind .docTable, .origin origin]
  | .variadic element => .kind .variadic :: tokens hash element
  | .expand name => [.kind .expand, .text name]
  | .results types =>
      .kind .multiReturn :: .repeats false :: .count types.length ::
        listTokens hash types
  | .repeating base =>
      .kind .multiReturn :: .repeats true :: tokens hash base
termination_by structural type => type

/-- The sum of the fingerprints of several types, modulo the word size. -/
def memberSum (hash : List Token → UInt64) : List Ty → UInt64
  | [] => 0
  | type :: types => hash (tokens hash type) + memberSum hash types

/-- The tokens of several types, one after the other. -/
def listTokens (hash : List Token → UInt64) : List Ty → List Token
  | [] => []
  | type :: types => tokens hash type ++ listTokens hash types

/-- The tokens of the member types of a tuple. -/
def slotTokens (hash : List Token → UInt64) : List (Slot Ty) → List Token
  | [] => []
  | ⟨_, type, _⟩ :: slots => tokens hash type ++ slotTokens hash slots

end

/-- The fingerprint of a type. -/
def fingerprint (hash : List Token → UInt64) (type : Ty) : UInt64 :=
  hash (type.tokens hash)

instance : Hashable Ty where
  hash := fingerprint hash

end Ty

end LuaTyping
