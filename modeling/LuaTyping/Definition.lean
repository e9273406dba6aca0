import LuaTyping.Feature
import LuaTyping.Instantiation

/-!
# Definitions of named types

A definition is what one declaration says about a name: its feature, its type
parameters, its supertypes and its members.  Viewing a generic type through
its definition replaces the parameters in the member types by the arguments.
-/

namespace LuaTyping

/-- A field or method of a declared type. -/
structure Member where
  name : Name
  type : Ty
  origin : Option Origin := none
  deriving Repr

/-- The declaration of a named type. -/
structure Definition where
  name : Name
  feature : Feature := .classType
  /-- Type parameters, in declaration order. -/
  parameters : List Name := []
  supers : List Ty := []
  members : List Member := []
  /-- The document that holds the declaration. -/
  document : Option DocumentId := none
  deriving Repr

namespace Definition

/-- The first member with a name. -/
def member? (definition : Definition) (name : Name) : Option Member :=
  definition.members.find? fun member => member.name == name

/-- The binding of the type parameters to arguments. -/
def substitution (definition : Definition) (arguments : List Ty) :
    Substitution :=
  .ofArguments definition.parameters arguments

/-- The members of the definition with its parameters replaced by
arguments. -/
def instantiateMembers (definition : Definition) (arguments : List Ty) :
    Except InstantiationError (List Member) :=
  definition.members.mapM fun member => do
    let type ← member.type.instantiate (definition.substitution arguments)
    return { member with type }

end Definition

end LuaTyping
