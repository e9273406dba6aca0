import LuaTyping.Subtyping.Finding
import LuaTyping.Ty.Equality

/-!
# Walks along declared supertypes

A walk starts at a declared name and looks for a supertype that is related to
a fixed target.  Names met on the way are followed further under one guard.
Since all of them are compared with the same target, a name that was visited
before can contribute nothing new and is not followed again.

A supertype without a declared name is compared with the target part by part.
How that is done depends only on the target, so a walk receives it as a
function.
-/

namespace LuaTyping

namespace Ty

/-- Whether two types share a declared name and one of them is the plain
name.  Two generics over one base do not match in this way. -/
def sharesName : Ty → Ty → Bool
  | .named name, .generic base _ => name == base
  | .generic base _, .named name => name == base
  | _, _ => false

end Ty

/-- What a subtype query relies on: the declared supertypes of every name, and
the limits of each walk along them. -/
structure Context where
  supers : Name → List Ty
  limits : Limits

/-- What a walk looks for: a supertype related to the target.  Types without a
declared name are compared by their parts. -/
structure Goal where
  target : Ty
  byParts : Ty → Finding

namespace Goal

/-- Whether a type settles the goal at once. -/
def met (goal : Goal) (type : Ty) : Bool :=
  type.same goal.target || type.sharesName goal.target

end Goal

/-- Ask about the elements in order, under one guard, until one is answered
by yes. -/
def firstRelated {α : Type} (ask : α → Guard Name → Finding × Guard Name) :
    List α → Guard Name → Finding × Guard Name
  | [], guard => (.no, guard)
  | element :: elements, guard =>
      match ask element guard with
      | (found, after) =>
          if found.holds then (found, after)
          else
            match firstRelated ask elements after with
            | (rest, last) => (found.after rest, last)

/-- Leave a name at the end of its supertypes. -/
def leaveName (name : Name) (found : Finding) (guard : Guard Name) :
    Finding × Guard Name :=
  match guard.leave name with
  | .ok outside =>
      ({ found with moves := .entered name :: (found.moves ++ [.left name]) },
        outside)
  | .error error =>
      ({ found with
          moves := .entered name :: (found.moves ++ [.broken error]) },
        guard)

/-- Whether some supertype reachable from a name is related to the target.
The number of levels bounds the path that may still be followed.  It is
started at the depth limit, so the guard denies a further name before the
levels run out. -/
def walk (context : Context) (goal : Goal) :
    Nat → Name → Guard Name → Finding × Guard Name
  | levels, name, guard =>
      match guard.enter name, levels with
      | (.entered, inside), levels + 1 =>
          let follow (super : Ty) (guard : Guard Name) :
              Finding × Guard Name :=
            if goal.met super then (.yes, guard)
            else
              match super.declaredName? with
              | some next => walk context goal levels next guard
              | none => (goal.byParts super, guard)
          match firstRelated follow (context.supers name) inside with
          | (found, after) => leaveName name found after
      | (.revisited, outside), _ =>
          (⟨false, false, [.revisited name]⟩, outside)
      | (_, outside), _ =>
          (⟨false, false,
            [.denied name outside.depth outside.iterations]⟩, outside)

/-- Search the supertypes of a name with a fresh guard. -/
def search (context : Context) (goal : Goal) (name : Name) : Finding :=
  match walk context goal context.limits.maxDepth.toNat name
      (.start context.limits) with
  | (found, guard) =>
      { holds := found.holds
        exceeded := found.exceeded || guard.exceeded
        moves :=
          match guard.finish with
          | .ok () => [.walk found.moves]
          | .error error => [.walk (found.moves ++ [.broken error])] }

end LuaTyping
