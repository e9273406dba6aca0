import LuaTyping.Guard
import LuaTyping.Ty.Basic

/-!
# Findings of a subtype query

The answer to a subtype query comes with what happened on the way.  A query
follows declared supertypes in walks, each with a guard of its own, and a
structured supertype may start walks inside a walk.  The record of moves keeps
that nesting, so that statements about one walk can be made and the notices
of the whole query can be read off in order.
-/

namespace LuaTyping

/-- One thing that happens while supertypes are followed. -/
inductive Move where
  /-- A name was entered and its supertypes are looked up. -/
  | entered (name : Name)
  /-- A name was met again. -/
  | revisited (name : Name)
  /-- A name was denied because of a limit; the guard then stood at this
  depth and this number of attempts. -/
  | denied (name : Name) (depth iterations : Nat)
  /-- A name was left again. -/
  | left (name : Name)
  /-- Entering and leaving did not pair up. -/
  | broken (error : GuardError)
  /-- A walk with a guard of its own. -/
  | walk (moves : List Move)
  deriving Repr

/-- The answer to a subtype query. -/
structure Finding where
  /-- Whether the types are related. -/
  holds : Bool
  /-- Whether some walk gave up because of a limit. -/
  exceeded : Bool
  /-- What happened on the way. -/
  moves : List Move
  deriving Repr

namespace Finding

/-- The types are related, and no supertype was looked at. -/
def yes : Finding := ⟨true, false, []⟩

/-- The types are not related, and no supertype was looked at. -/
def no : Finding := ⟨false, false, []⟩

/-- A finding that follows upon another one. -/
def after (first second : Finding) : Finding where
  holds := second.holds
  exceeded := first.exceeded || second.exceeded
  moves := first.moves ++ second.moves

/-- Settle for the first finding if it holds, otherwise turn to the second. -/
def orElse (first : Finding) (second : Unit → Finding) : Finding :=
  if first.holds then first else first.after (second ())

/-- Turn to the second finding only if the first one holds. -/
def andThen (first : Finding) (second : Unit → Finding) : Finding :=
  if first.holds then first.after (second ()) else first

/-- Whether a question is answered by yes for every element.  Questions are
asked in order up to the first no. -/
def all {α : Type} (ask : α → Finding) : List α → Finding
  | [] => yes
  | element :: elements =>
      (ask element).andThen fun _ => all ask elements

end Finding

end LuaTyping
