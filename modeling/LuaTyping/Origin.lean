/-!
# Identities of documents and source constructs

The type model never looks inside a document.  It only needs to tell documents
apart, because declarations are added and withdrawn one document at a time,
and to tell apart the constructs inside a document, because an anonymous table
has no other identity than the place where it was written.
-/

namespace LuaTyping

/-- Identity of a source document within one compilation. -/
structure DocumentId where
  number : UInt32
  deriving DecidableEq, Repr, Hashable

namespace DocumentId

/-- Decimal text of a document number. -/
def text (document : DocumentId) : List Char :=
  Nat.toDigits 10 document.number.toNat

/-- Decimal rendering of a document number. -/
def render (document : DocumentId) : String :=
  String.ofList document.text

end DocumentId

/-- Identity of one source construct: the owning document and the position of
the construct in that document. -/
structure Origin where
  document : DocumentId
  index : UInt32
  deriving DecidableEq, Repr, Hashable

namespace Origin

/-- Text of a source construct, `document:index` in decimal. -/
def text (origin : Origin) : List Char :=
  origin.document.text ++ ':' :: Nat.toDigits 10 origin.index.toNat

/-- Rendering of a source construct, `document:index` in decimal. -/
def render (origin : Origin) : String :=
  String.ofList origin.text

/-- Constructs are ordered by document first and by position second. -/
def precedes (first second : Origin) : Bool :=
  first.document.number < second.document.number ||
    (first.document.number == second.document.number &&
      first.index ≤ second.index)

/-- Constructs in ascending order; equal constructs keep their order. -/
def sort (origins : List Origin) : List Origin :=
  origins.mergeSort precedes

end Origin

end LuaTyping
