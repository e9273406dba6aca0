import LuaTyping.Table
import LuaTyping.Ty.Basic

/-!
# Substitutions

A substitution binds type parameters to types.  The same binding reads
differently at the three places where a parameter can stand: a name is
replaced by whatever is bound to it, a placeholder for call results only by
call results, and the base of a generic only by another declared name.
-/

namespace LuaTyping

/-- Types bound to type parameters. -/
abbrev Substitution := Table Name Ty

namespace Substitution

/-- Bind parameters to arguments position by position.  A parameter without
an argument stays unbound and surplus arguments are ignored; of several
parameters with one name the last one wins. -/
def ofArguments (parameters : List Name) (arguments : List Ty) :
    Substitution :=
  Table.ofList (parameters.zip arguments)

/-- What stands in for a name. -/
def atName (substitution : Substitution) (name : Name) : Ty :=
  (substitution.get? name).getD (.named name)

/-- What stands in for a placeholder of call results. -/
def atExpand (substitution : Substitution) (name : Name) : Ty :=
  match substitution.get? name with
  | some (.results types) => .results types
  | some (.repeating base) => .repeating base
  | _ => .expand name

/-- What stands in for the base of a generic. -/
def atBase (substitution : Substitution) (base : Name) : Name :=
  ((substitution.get? base).bind Ty.declaredName?).getD base

end Substitution

end LuaTyping
