import LuaTyping.Subtyping.Walk

/-!
# Subtype checking

Rules for `source <: target`, in the order in which they are tried:

1. the top types accept every source;
2. types that are the same, or share a declared name one of them states
   plainly, are subtypes of each other;
3. a source with a declared name is a subtype if some declared supertype is;
4. a union is a subtype of a union if each member is a subtype of some target
   member, a tuple of a tuple of the same length position by position, and an
   array of an array by their elements.

Nothing else is related.  The recursion is on the target: supertypes may be of
any size, but comparing one of them by its parts compares parts of the target.
-/

namespace LuaTyping

namespace Context

/-- Whether a source is related to the target of a goal that is not a top
type. -/
def settle (context : Context) (goal : Goal) (source : Ty) : Finding :=
  if goal.met source then .yes
  else
    match source.declaredName? with
    | some name => search context goal name
    | none => goal.byParts source

mutual

/-- Whether the source, given second, is a subtype of the target. -/
def relate (context : Context) : Ty → Ty → Finding
  | .any, _ => .yes
  | .unknown, _ => .yes
  | .union targets, source =>
      context.settle
        { target := .union targets
          byParts := fun
            | .union members =>
                Finding.all (fun member => relateSome context targets member)
                  members
            | _ => .no }
        source
  | .tuple targets, source =>
      context.settle
        { target := .tuple targets
          byParts := fun
            | .tuple slots =>
                if slots.length = targets.length then
                  relateSlots context targets slots
                else .no
            | _ => .no }
        source
  | .array target, source =>
      context.settle
        { target := .array target
          byParts := fun
            | .array element => relate context target element
            | _ => .no }
        source
  | target, source =>
      context.settle { target, byParts := fun _ => .no } source
termination_by structural target => target

/-- Whether the source is a subtype of some target in a list. -/
def relateSome (context : Context) : List Ty → Ty → Finding
  | [], _ => .no
  | target :: targets, source =>
      (relate context target source).orElse fun _ =>
        relateSome context targets source

/-- Whether the slots of a source tuple are subtypes of the target slots,
position by position. -/
def relateSlots (context : Context) :
    List (Slot Ty) → List (Slot Ty) → Finding
  | ⟨_, target, _⟩ :: targets, slot :: slots =>
      (relate context target slot.type).andThen fun _ =>
        relateSlots context targets slots
  | _, _ => .yes

end

/-- The finding for `source <: target`. -/
def check (context : Context) (source target : Ty) : Finding :=
  context.relate target source

/-- Whether `source <: target`. -/
def isSubtype (context : Context) (source target : Ty) : Bool :=
  (context.check source target).holds

end Context

/-- A checker answers queries one after the other and remembers whether the
latest one gave up because of a limit. -/
structure Checker where
  context : Context
  exceeded : Bool := false

namespace Checker

/-- Answer a query. -/
def ask (checker : Checker) (source target : Ty) : Finding × Checker :=
  let found := checker.context.check source target
  (found, { checker with exceeded := found.exceeded })

end Checker

end LuaTyping
