import LuaTyping.Index.Basic

/-!
# Queries of the type index

An operator lookup finds the first overload, in the order of the entry, whose
operand types are the same as those asked for.  A feature lookup finds the
strongest feature declared for a name.
-/

namespace LuaTyping

namespace Index

/-- The overloads of a kind, in lookup order. -/
def operators (index : Index) (kind : OperatorKind) : List Overload :=
  ((index.operatorEntries.get? kind).map Entry.values).getD []

/-- The features declared for a name, in lookup order. -/
def featuresOf (index : Index) (name : Name) : List Feature :=
  ((index.featureEntries.get? name).map Entry.values).getD []

/-- The first binary overload of a kind for exactly these operands. -/
def bestBinary? (index : Index) (kind : OperatorKind) (left right : Ty) :
    Option Overload :=
  (index.operators kind).find? (Overload.matchesBinary left right)

/-- The first unary overload of a kind for exactly this operand. -/
def bestUnary? (index : Index) (kind : OperatorKind) (operand : Ty) :
    Option Overload :=
  (index.operators kind).find? (Overload.matchesUnary operand)

/-- The first declaration of indexing for exactly this container and key. -/
def bestIndex? (index : Index) (container key : Ty) : Option Overload :=
  (index.operators .index).find? (Overload.matchesIndex container key)

/-- The feature that prevails for a name. -/
def feature (index : Index) (name : Name) : Feature :=
  (index.precedence.strongest? (index.featuresOf name)).getD
    Feature.undeclared

/-- Whether a document has contributions. -/
def containsDocument (index : Index) (document : DocumentId) : Bool :=
  index.touched.contains document

/-- Number of operator kinds with overloads. -/
def kindCount (index : Index) : Nat :=
  index.operatorEntries.size

/-- Number of type names with features. -/
def nameCount (index : Index) : Nat :=
  index.featureEntries.size

/-- Number of documents with contributions. -/
def documentCount (index : Index) : Nat :=
  index.touched.size

/-- Whether nothing is declared. -/
def isEmpty (index : Index) : Bool :=
  index.operatorEntries.isEmpty && index.featureEntries.isEmpty

end Index

end LuaTyping
