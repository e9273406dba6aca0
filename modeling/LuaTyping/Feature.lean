/-!
# Features of declared types

A name may be declared in several documents, and the declarations may disagree
on what kind of type it is.  Each declaration contributes a feature, and a
precedence among the features picks the one that counts.
-/

namespace LuaTyping

/-- What a declaration makes of a name. -/
inductive Feature where
  | classType
  | enumType
  | interfaceType
  | aliasType
  deriving DecidableEq, Repr

namespace Feature

/-- All features, in declaration order. -/
def all : List Feature :=
  [.classType, .enumType, .interfaceType, .aliasType]

/-- The feature of a name that nothing declares. -/
def undeclared : Feature := .classType

/-- The word for a feature in annotations and configurations. -/
def word : Feature → String
  | .classType => "class"
  | .enumType => "enum"
  | .interfaceType => "interface"
  | .aliasType => "alias"

/-- Label of a feature in diagnostics. -/
def label : Feature → String
  | .classType => "Class"
  | .enumType => "Enum"
  | .interfaceType => "Interface"
  | .aliasType => "Alias"

/-- The feature that a word stands for. -/
def ofWord? (word : String) : Option Feature :=
  all.find? fun feature => feature.word == word

end Feature

/-- A total order of the features, weakest first. -/
structure Precedence where
  order : List Feature
  total : order.length = Feature.all.length ∧ order.Nodup
  deriving DecidableEq

namespace Precedence

/-- The order in which a list names the features, if it names each of them
exactly once. -/
def ofOrder? (order : List Feature) : Option Precedence :=
  if total : order.length = Feature.all.length ∧ order.Nodup then
    some { order, total }
  else
    none

/-- The features in declaration order. -/
def standard : Precedence where
  order := Feature.all
  total := by decide

/-- The position of a feature; a higher one prevails. -/
def rank (precedence : Precedence) (feature : Feature) : Nat :=
  precedence.order.idxOf feature

/-- Of two features, the one that prevails. -/
def prevailing (precedence : Precedence) (first second : Feature) : Feature :=
  if precedence.rank first ≤ precedence.rank second then second else first

/-- The feature that prevails among several. -/
def strongest? (precedence : Precedence) : List Feature → Option Feature
  | [] => none
  | feature :: features =>
      some (features.foldl precedence.prevailing feature)

end Precedence

end LuaTyping
