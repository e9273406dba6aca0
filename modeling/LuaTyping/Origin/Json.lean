import LuaTyping.Json.Record
import LuaTyping.Origin

/-!
# Identities in JSON

A document is written as its number and a source construct as a record of two
numbers, both of which must be given.
-/

namespace LuaTyping

namespace DocumentId

/-- Read a document number. -/
def readJson (text : List Char) :
    Except Json.Fault (DocumentId × List Char) := do
  let (number, rest) ← Json.readWord text
  .ok (⟨number⟩, rest)

/-- The document that a JSON text names. -/
def ofJson (text : String) : Except Json.Fault DocumentId :=
  Json.readAll readJson text

end DocumentId

namespace Origin

/-- A source construct while it is being read. -/
structure Draft where
  document : Option DocumentId := none
  index : Option UInt32 := none

/-- The fields of a source construct. -/
def draftFields : List (Json.Field Draft) :=
  [{ name := "document"
     isSet := fun draft => draft.document.isSome
     read := fun draft text => do
      let (document, rest) ← DocumentId.readJson text
      .ok ({ draft with document := some document }, rest) },
   { name := "index"
     isSet := fun draft => draft.index.isSome
     read := fun draft text => do
      let (index, rest) ← Json.readWord text
      .ok ({ draft with index := some index }, rest) }]

/-- The source construct of a finished draft. -/
def complete : Draft → Except Json.Fault Origin
  | ⟨some document, some index⟩ => .ok { document, index }
  | _ => .error .wrongShape

/-- The source construct that a JSON text names. -/
def ofJson (text : String) : Except Json.Fault Origin :=
  Json.readAll (Json.readRecord draftFields {} complete) text

/-- The JSON text of a source construct. -/
def toJson (origin : Origin) : String :=
  "\x7b\"document\":" ++ origin.document.render ++ ",\"index\":" ++
    Nat.repr origin.index.toNat ++ "\x7d"

end Origin

end LuaTyping
