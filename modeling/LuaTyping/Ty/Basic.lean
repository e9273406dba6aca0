import LuaTyping.Origin

/-!
# Static types of annotated Lua

A type is a finite tree with one constructor for each kind of annotation.
Builtin scalars such as `integer` are ordinary names; only the two top types
and `nil` are intrinsic.

The constructor `Ty.union` takes any member list.  Unions are meant to be
formed with `Ty.unionOf`, which lives beside type equality because it keeps
one member for every class of equal types.
-/

namespace LuaTyping

/-- Identifiers of declared types, type parameters and members. -/
abbrev Name := String

/-- One position of a tuple: the index written for it, the type found there
and the construct that declared it, if any.  The index is metadata and need
not agree with the position. -/
structure Slot (α : Type) where
  index : Nat
  type : α
  origin : Option Origin := none
  deriving Repr

/-- A static type. -/
inductive Ty where
  /-- The top type that accepts every value. -/
  | any
  /-- The top type that inference yields when it gives up. -/
  | unknown
  | nil
  /-- A declared type, referred to by its name. -/
  | named (name : Name)
  /-- Any of several types, `A|B`. -/
  | union (members : List Ty)
  /-- A fixed sequence of types, `[A, B]`. -/
  | tuple (slots : List (Slot Ty))
  /-- A homogeneous list, `A[]`. -/
  | array (element : Ty)
  /-- A declared type applied to arguments, `Map<K, V>`. -/
  | generic (base : Name) (arguments : List Ty)
  | stringLiteral (content : String)
  | integerLiteral (value : Int64)
  /-- An anonymous table expression. -/
  | tableLiteral (origin : Origin)
  /-- A table type written inside an annotation. -/
  | docTable (origin : Origin)
  /-- Any number of trailing values, `...A`. -/
  | variadic (element : Ty)
  /-- A placeholder for the results of a call, `T...`. -/
  | expand (name : Name)
  /-- The listed results of a call, `(A, B)`. -/
  | results (types : List Ty)
  /-- A call that yields one type at every result position, `(A...)`. -/
  | repeating (base : Ty)
  deriving Repr, Inhabited

namespace Ty

/-- Tuple of the given types, indexed from zero and without source
references. -/
def tupleOf (types : List Ty) : Ty :=
  .tuple (types.zipIdx.map fun (type, position) =>
    { index := position, type })

/-- The two top types, of which every type is a subtype. -/
def isTop : Ty → Bool
  | .any | .unknown => true
  | _ => false

/-- The declared name behind a type: the name itself, or the base of a
generic. -/
def declaredName? : Ty → Option Name
  | .named name => some name
  | .generic base _ => some base
  | _ => none

end Ty

/-- The kinds of types.  Listed and repeating call results are one kind. -/
inductive Kind where
  | any
  | unknown
  | nil
  | named
  | union
  | tuple
  | array
  | generic
  | stringLiteral
  | integerLiteral
  | tableLiteral
  | docTable
  | variadic
  | expand
  | multiReturn
  deriving DecidableEq, Repr, Hashable

namespace Kind

/-- Label of a kind in diagnostics. -/
def label : Kind → String
  | .any => "Any"
  | .unknown => "Unknown"
  | .nil => "Nil"
  | .named => "Named"
  | .union => "Union"
  | .tuple => "Tuple"
  | .array => "Array"
  | .generic => "Generic"
  | .stringLiteral => "StringLiteral"
  | .integerLiteral => "IntegerLiteral"
  | .tableLiteral => "TableLiteral"
  | .docTable => "DocTable"
  | .variadic => "Variadic"
  | .expand => "Expand"
  | .multiReturn => "MultiReturn"

end Kind

namespace Ty

/-- The kind of a type. -/
def kind : Ty → Kind
  | .any => .any
  | .unknown => .unknown
  | .nil => .nil
  | .named _ => .named
  | .union _ => .union
  | .tuple _ => .tuple
  | .array _ => .array
  | .generic _ _ => .generic
  | .stringLiteral _ => .stringLiteral
  | .integerLiteral _ => .integerLiteral
  | .tableLiteral _ => .tableLiteral
  | .docTable _ => .docTable
  | .variadic _ => .variadic
  | .expand _ => .expand
  | .results _ => .multiReturn
  | .repeating _ => .multiReturn

end Ty

/-- The values that a call yields. -/
inductive CallResults where
  /-- A fixed list of results. -/
  | listed (types : List Ty)
  /-- One type at every position. -/
  | repeating (base : Ty)

namespace CallResults

/-- Number of explicitly listed results; a repeating call lists none. -/
def count : CallResults → Nat
  | .listed types => types.length
  | .repeating _ => 0

/-- Type of the result at a position.  Positions past the end of a list hold
`nil`, and a repeating call has no end. -/
def typeAt : CallResults → Nat → Ty
  | .listed types, position => types[position]?.getD .nil
  | .repeating base, _ => base

end CallResults

namespace Ty

/-- The call results that a type stands for, if it stands for any. -/
def callResults? : Ty → Option CallResults
  | .results types => some (.listed types)
  | .repeating base => some (.repeating base)
  | _ => none

/-- Names of the builtin scalar types.  They are ordinary declared names. -/
def builtinNames : List Name :=
  ["boolean", "integer", "number", "string", "table", "function", "thread",
    "userdata"]

def boolean : Ty := .named "boolean"
def integer : Ty := .named "integer"
def number : Ty := .named "number"
def string : Ty := .named "string"
def table : Ty := .named "table"
def function : Ty := .named "function"

end Ty

end LuaTyping
