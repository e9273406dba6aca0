import LuaTyping.Definition
import LuaTyping.Notice
import LuaTyping.Subtyping.Check

/-!
# Stores of definitions

A store holds one definition for each name.  Registering a name again replaces
its definition, and all definitions of a document can be dropped at once.  A
store answers the two questions that the type model asks about declarations:
the supertypes of a name, and its full definition.
-/

namespace LuaTyping

/-- The definitions known by name. -/
structure Store where
  definitions : Table Name Definition

namespace Store

/-- The store that knows no definition. -/
def empty : Store := ⟨.empty⟩

/-- Add a definition in place of any earlier one with its name. -/
def register (store : Store) (definition : Definition) : Store :=
  ⟨store.definitions.insert definition.name definition⟩

/-- Drop the definitions that came from a document. -/
def dropDocument (store : Store) (document : DocumentId) : Store :=
  ⟨store.definitions.filter fun _ definition =>
    definition.document ≠ some document⟩

/-- The definition of a name. -/
def get? (store : Store) (name : Name) : Option Definition :=
  store.definitions.get? name

/-- Whether a name is defined. -/
def contains (store : Store) (name : Name) : Bool :=
  store.definitions.contains name

/-- Number of defined names. -/
def size (store : Store) : Nat :=
  store.definitions.size

/-- Whether no name is defined. -/
def isEmpty (store : Store) : Bool :=
  store.definitions.isEmpty

/-- The declared supertypes of a name; an unknown name has none. -/
def supers (store : Store) (name : Name) : List Ty :=
  ((store.get? name).map Definition.supers).getD []

/-- The definition behind a type with a declared name. -/
def definition? (store : Store) (type : Ty) : Option Definition :=
  type.declaredName?.bind store.get?

/-- Subtype queries over the declarations of a store. -/
def context (store : Store) (limits : Limits) : Context where
  supers := store.supers
  limits

/-- A change to a store. -/
inductive Edit where
  | register (definition : Definition)
  | dropDocument (document : DocumentId)
  | clear

/-- Carry out a change. -/
def edit (store : Store) : Edit → Store
  | .register definition => store.register definition
  | .dropDocument document => store.dropDocument document
  | .clear => empty

namespace Edit

/-- The notices of a change. -/
def notices : Edit → List Notice
  | .register definition =>
      [.registered definition.name definition.feature
        definition.supers.length]
  | .dropDocument document => [.documentDropped document]
  | .clear => []

end Edit

end Store

end LuaTyping
