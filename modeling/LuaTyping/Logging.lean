import LuaTyping.Text.Blank

/-!
# Logging

Logging is off unless the environment asks for it.  The first request in a
process installs the log, in the format that the environment names, and a log
once installed stays.
-/

namespace LuaTyping

/-- The layout of the log. -/
inductive LogFormat where
  | text
  | tree
  | json
  deriving DecidableEq, Repr

namespace LogFormat

/-- The layout in use unless another one is named. -/
def standard : LogFormat := .text

/-- Label of a layout in diagnostics. -/
def label : LogFormat → String
  | .text => "Text"
  | .tree => "Tree"
  | .json => "Json"

/-- The layout that a name stands for.  Blanks around the name and the case of
ASCII letters do not matter; an unknown name stands for plain text. -/
def ofName (name : String) : LogFormat :=
  let letters := (Text.trim name.toList).map Char.toLower
  if letters = "tree".toList then .tree
  else if letters = "json".toList then .json
  else .text

end LogFormat

namespace Logging

/-- The environment variable that asks for a log. -/
def filterVariable : String := "LUALS_LOG"

/-- The environment variable that asks for a log if the other is not set. -/
def fallbackVariable : String := "RUST_LOG"

/-- The environment variable that names the layout. -/
def formatVariable : String := "LUALS_LOG_FORMAT"

/-- Whether the environment asks for a log, with whatever directives. -/
def isRequested (environment : String → Option String) : Bool :=
  (environment filterVariable).isSome ||
    (environment fallbackVariable).isSome

/-- The layout that the environment names. -/
def format (environment : String → Option String) : LogFormat :=
  match environment formatVariable with
  | some name => .ofName name
  | none => .standard

/-- Install the log if the environment asks for one and none is installed
yet.  Says whether it was installed by this call, and which log is installed
then. -/
def install (environment : String → Option String) :
    Option LogFormat → Bool × Option LogFormat
  | some installed => (false, some installed)
  | none =>
      if isRequested environment then (true, some (format environment))
      else (false, none)

end Logging

end LuaTyping
