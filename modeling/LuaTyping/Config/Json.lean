import LuaTyping.Config.Basic
import LuaTyping.Json.Record

/-!
# Configurations in JSON

Every field of a configuration may be left out, and then takes its standard
value.  A feature is a string, or an object with that one key and the value
`null`.
-/

namespace LuaTyping

namespace Config

/-- Why a text is not a configuration. -/
inductive Error where
  /-- The text is not JSON of the right shape. -/
  | unreadable (fault : Json.Fault)
  /-- The configuration is not valid. -/
  | invalid (defect : Defect)
  deriving DecidableEq, Repr

namespace Error

/-- The report of a text that is not a configuration. -/
def message : Error → String
  | .unreadable _ => "failed to parse analyzer config JSON"
  | .invalid defect => defect.message

end Error

/-- The feature that a word names. -/
def featureOfWord (word : String) : Except Json.Fault Feature :=
  match Feature.ofWord? word with
  | some feature => .ok feature
  | none => .error .wrongShape

/-- Read a feature. -/
def readFeature (text : List Char) :
    Except Json.Fault (Feature × List Char) :=
  match Json.dropBlanks text with
  | '"' :: rest => do
      let (word, rest) ← Json.scanString rest
      let feature ← featureOfWord word
      .ok (feature, rest)
  | '\x7b' :: rest => do
      let (word, rest) ← Json.readKey rest
      let feature ← featureOfWord word
      let rest ← Json.scanMark ':' rest
      let rest ← Json.readNull rest
      let rest ← Json.scanMark '\x7d' rest
      .ok (feature, rest)
  | rest => .error (Json.unexpected rest)

/-- The limits of a search while they are being read. -/
structure LimitsDraft where
  maxDepth : Option UInt32 := none
  maxIterations : Option UInt32 := none

/-- The fields of the search limits. -/
def limitsFields : List (Json.Field LimitsDraft) :=
  [{ name := "maxDepth"
     isSet := fun draft => draft.maxDepth.isSome
     read := fun draft text => do
      let (limit, rest) ← Json.readWord text
      .ok ({ draft with maxDepth := some limit }, rest) },
   { name := "maxIterations"
     isSet := fun draft => draft.maxIterations.isSome
     read := fun draft text => do
      let (limit, rest) ← Json.readWord text
      .ok ({ draft with maxIterations := some limit }, rest) }]

/-- The search limits of a finished draft. -/
def completeLimits (draft : LimitsDraft) : Except Json.Fault Limits :=
  .ok
    { maxDepth := draft.maxDepth.getD Limits.supertypeSearch.maxDepth
      maxIterations :=
        draft.maxIterations.getD Limits.supertypeSearch.maxIterations }

/-- A configuration while it is being read. -/
structure Draft where
  featurePrecedence : Option (List Feature) := none
  supertypeSearch : Option Limits := none

/-- The fields of a configuration. -/
def draftFields : List (Json.Field Draft) :=
  [{ name := "featurePrecedence"
     isSet := fun draft => draft.featurePrecedence.isSome
     read := fun draft text => do
      let (order, rest) ← Json.readList readFeature text
      .ok ({ draft with featurePrecedence := some order }, rest) },
   { name := "supertypeSearch"
     isSet := fun draft => draft.supertypeSearch.isSome
     read := fun draft text => do
      let (limits, rest) ←
        Json.readRecord limitsFields {} completeLimits text
      .ok ({ draft with supertypeSearch := some limits }, rest) }]

/-- The configuration of a finished draft. -/
def complete (draft : Draft) : Except Json.Fault Config :=
  .ok
    { featurePrecedence :=
        draft.featurePrecedence.getD standard.featurePrecedence
      supertypeSearch := draft.supertypeSearch.getD standard.supertypeSearch }

/-- The configuration that a JSON text holds, valid or not. -/
def decode (text : String) : Except Json.Fault Config :=
  Json.readAll (Json.readRecord draftFields {} complete) text

/-- The configuration that a text holds in the eyes of a decoder, if it is
valid. -/
def ofText (decode : String → Except Json.Fault Config) (text : String) :
    Except Error Config :=
  match decode text with
  | .error fault => .error (.unreadable fault)
  | .ok config =>
      match config.defect? with
      | some defect => .error (.invalid defect)
      | none => .ok config

/-- The valid configuration that a JSON text holds. -/
def ofJson (text : String) : Except Error Config :=
  ofText decode text

/-- The JSON text of a configuration. -/
def toJson (config : Config) : String :=
  let features :=
    config.featurePrecedence.map fun feature => "\"" ++ feature.word ++ "\""
  "\x7b\"featurePrecedence\":[" ++ ",".intercalate features ++
    "],\"supertypeSearch\":\x7b\"maxDepth\":" ++
    Nat.repr config.supertypeSearch.maxDepth.toNat ++
    ",\"maxIterations\":" ++
    Nat.repr config.supertypeSearch.maxIterations.toNat ++ "\x7d\x7d"

end Config

end LuaTyping
