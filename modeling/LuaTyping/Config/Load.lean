import LuaTyping.Config.Json
import LuaTyping.Notice

/-!
# Loading configurations

A configuration is read from a file, or from the usual file of a directory.
What stands at a path is passed in, so that loading is a function of it.
-/

namespace LuaTyping

/-- What stands at a path. -/
inductive PathContent where
  | missing
  | directory
  | file (bytes : ByteArray)

namespace Config

/-- Why a configuration could not be loaded. -/
inductive LoadError where
  /-- There is no file at the path, or it is not UTF-8 text. -/
  | unreadable (path : String)
  /-- The file does not hold a configuration. -/
  | rejected (path : String) (error : Error)

namespace LoadError

/-- The report of a failed load. -/
def message : LoadError → String
  | .unreadable path => "failed to read analyzer config: " ++ path
  | .rejected path error =>
      "invalid analyzer config: " ++ path ++ ": " ++ error.message

end LoadError

/-- The text that stands at a path. -/
def readText? : PathContent → Option String
  | .file bytes => String.fromUTF8? bytes
  | .missing | .directory => none

/-- The configuration in a file. -/
def load (path : String) (content : PathContent) : Except LoadError Config :=
  match readText? content with
  | none => .error (.unreadable path)
  | some text =>
      match ofJson text with
      | .error error => .error (.rejected path error)
      | .ok config => .ok config

/-- The notices of loading a file. -/
def loadNotices (path : String) (content : PathContent) : List Notice :=
  match load path content with
  | .error _ => []
  | .ok config => [.configLoaded path config.describe]

/-- The path of the usual configuration file of a directory. -/
def pathIn (directory : String) : String :=
  directory ++ "/" ++ fileName

/-- The configuration of a directory: that of the usual file, or the standard
one if there is no such file. -/
def loadDirectory (directory : String) :
    PathContent → Except LoadError Config
  | .missing | .directory => .ok standard
  | content => load (pathIn directory) content

/-- The notices of loading the configuration of a directory. -/
def directoryNotices (directory : String) : PathContent → List Notice
  | .missing | .directory => [.configMissing directory]
  | content => loadNotices (pathIn directory) content

end Config

end LuaTyping
