import LuaTyping.Feature
import LuaTyping.Operator.Kind
import LuaTyping.Origin
import LuaTyping.Ty.Basic

/-!
# Notices

What the type model and the index report to a log.  A notice is data; this
module also says how each notice is worded, under which target it is filed and
which fields it carries.
-/

namespace LuaTyping

/-- Something worth reporting to a log. -/
inductive Notice where
  /-- A declaration was registered, with this many supertypes. -/
  | registered (name : Name) (feature : Feature) (supers : Nat)
  /-- The declarations of a document were dropped. -/
  | documentDropped (document : DocumentId)
  /-- A supertype walk met a name again. -/
  | alreadyVisited (name : Name)
  /-- A supertype walk was denied a name because of a limit. -/
  | limitsExceeded (name : Name) (depth iterations : Nat)
  | operatorAdded (document : DocumentId) (kind : OperatorKind)
  | featureAdded (document : DocumentId) (name : Name) (feature : Feature)
  /-- A document without contributions was removed from the index. -/
  | nothingRemoved (document : DocumentId)
  /-- This many contributions of a document were removed from the index. -/
  | contributionsRemoved (document : DocumentId) (removed : Nat)
  /-- A configuration was read from a file. -/
  | configLoaded (path config : String)
  /-- A directory holds no configuration, so the defaults apply. -/
  | configMissing (directory : String)
  deriving Repr

/-- How important a notice is. -/
inductive Level where
  | debug
  | trace
  deriving DecidableEq, Repr

namespace Level

/-- Label of a level in the log. -/
def label : Level → String
  | .debug => "DEBUG"
  | .trace => "TRACE"

end Level

/-- A value that a notice carries. -/
inductive FieldValue where
  | text (content : String)
  | count (number : Nat)
  deriving DecidableEq, Repr

namespace Notice

/-- The level at which a notice is reported. -/
def level : Notice → Level
  | .limitsExceeded _ _ _ => .debug
  | .contributionsRemoved _ _ => .debug
  | .configLoaded _ _ => .debug
  | .configMissing _ => .debug
  | _ => .trace

/-- The part of the program that a notice is filed under. -/
def target : Notice → String
  | .registered _ _ _ | .documentDropped _ => "luals_types::def"
  | .alreadyVisited _ | .limitsExceeded _ _ _ => "luals_types::subtype"
  | .operatorAdded _ _ | .featureAdded _ _ _ | .nothingRemoved _
  | .contributionsRemoved _ _ => "luals_index::type_index"
  | .configLoaded _ _ | .configMissing _ => "luals::config"

/-- The wording of a notice. -/
def message : Notice → String
  | .registered _ _ _ => "DefinitionStore::register"
  | .documentDropped _ => "DefinitionStore::remove_document"
  | .alreadyVisited _ => "supertype already visited, no further supertypes"
  | .limitsExceeded _ _ _ => "supertype walk exceeded recursion limits"
  | .operatorAdded _ _ => "add type operator"
  | .featureAdded _ _ _ => "add type feature"
  | .nothingRemoved _ => "remove: no contributions"
  | .contributionsRemoved _ _ => "removed document contributions"
  | .configLoaded _ _ => "loaded analyzer config"
  | .configMissing _ => "no analyzer config, using defaults"

/-- The fields of a notice, apart from its message. -/
def fields : Notice → List (String × FieldValue)
  | .registered name feature supers =>
      [("name", .text name), ("feature", .text feature.word),
        ("supers", .count supers)]
  | .documentDropped document => [("document", .text document.render)]
  | .alreadyVisited name => [("name", .text name)]
  | .limitsExceeded name depth iterations =>
      [("name", .text name), ("depth", .count depth),
        ("iterations", .count iterations)]
  | .operatorAdded document kind =>
      [("document", .text document.render), ("kind", .text kind.word)]
  | .featureAdded document name feature =>
      [("document", .text document.render), ("name", .text name),
        ("feature", .text feature.word)]
  | .nothingRemoved document => [("document", .text document.render)]
  | .contributionsRemoved document removed =>
      [("document", .text document.render), ("removed", .count removed)]
  | .configLoaded path config =>
      [("path", .text path), ("config", .text config)]
  | .configMissing directory => [("dir", .text directory)]

end Notice

end LuaTyping
