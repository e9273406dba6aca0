import LuaTyping.Index.Contributions
import LuaTyping.Index.Entry
import LuaTyping.Notice

/-!
# The type index

The index holds overloads by operator kind and features by type name, each
with the document that contributed it.  Documents come and go as a whole, so a
reverse index remembers which keys a document has touched, and removing a
document visits only those.  A key without values left is dropped.
-/

namespace LuaTyping

/-- The keys that a document has touched, each listed once. -/
structure Touched where
  kinds : List OperatorKind
  names : List Name
  deriving Repr

namespace Touched

/-- No keys. -/
def empty : Touched := ⟨[], []⟩

/-- Note that an operator kind was touched. -/
def addKind (touched : Touched) (kind : OperatorKind) : Touched :=
  { touched with kinds := touched.kinds.insert kind }

/-- Note that a type name was touched. -/
def addName (touched : Touched) (name : Name) : Touched :=
  { touched with names := touched.names.insert name }

end Touched

/-- Overloads and features by contributing document. -/
structure Index where
  operatorEntries : Table OperatorKind (Entry Overload)
  featureEntries : Table Name (Entry Feature)
  /-- The reverse index: the keys that each document has touched. -/
  touched : Table DocumentId Touched
  precedence : Precedence

namespace Index

/-- The index without contributions. -/
def empty (precedence : Precedence) : Index where
  operatorEntries := .empty
  featureEntries := .empty
  touched := .empty
  precedence

/-- File a value of a document under a key. -/
def file {κ α : Type} [DecidableEq κ] (entries : Table κ (Entry α)) (key : κ)
    (document : DocumentId) (value : α) : Table κ (Entry α) :=
  entries.insert key
    (((entries.get? key).getD .empty).add document value)

/-- The keys that a document has touched so far. -/
def touchedBy (index : Index) (document : DocumentId) : Touched :=
  (index.touched.get? document).getD .empty

/-- Add an overload declared in a document. -/
def addOperator (index : Index) (document : DocumentId)
    (overload : Overload) : Index :=
  { index with
    operatorEntries :=
      file index.operatorEntries overload.kind document overload
    touched :=
      index.touched.insert document
        ((index.touchedBy document).addKind overload.kind) }

/-- Add a feature declared in a document. -/
def addFeature (index : Index) (document : DocumentId) (name : Name)
    (feature : Feature) : Index :=
  { index with
    featureEntries := file index.featureEntries name document feature
    touched :=
      index.touched.insert document
        ((index.touchedBy document).addName name) }

/-- Add all that a document declares, overloads first. -/
def add (index : Index) (document : DocumentId)
    (contributions : Contributions) : Index :=
  let withOperators :=
    contributions.operators.foldl
      (fun index overload => index.addOperator document overload) index
  contributions.features.foldl
    (fun index declared => index.addFeature document declared.1 declared.2)
    withOperators

/-- Take the values of a document from under one key, and count them.  A key
without values left is dropped. -/
def withdraw {κ α : Type} [DecidableEq κ] (document : DocumentId)
    (state : Nat × Table κ (Entry α)) (key : κ) : Nat × Table κ (Entry α) :=
  match state.2.get? key with
  | none => state
  | some entry =>
      let (removed, rest) := entry.remove document
      (state.1 + removed,
        if rest.isEmpty then state.2.erase key else state.2.insert key rest)

/-- Remove all that a document declares, and count it.  There is no count if
the document has no contributions. -/
def evict (index : Index) (document : DocumentId) : Option Nat × Index :=
  match index.touched.get? document with
  | none => (none, index)
  | some keys =>
      let (operatorCount, operatorEntries) :=
        keys.kinds.foldl (withdraw document) (0, index.operatorEntries)
      let (featureCount, featureEntries) :=
        keys.names.foldl (withdraw document) (0, index.featureEntries)
      (some (operatorCount + featureCount),
        { index with
          operatorEntries
          featureEntries
          touched := index.touched.erase document })

/-- Remove all that a document declares. -/
def remove (index : Index) (document : DocumentId) : Index :=
  (index.evict document).2

/-- Remove all that a document declares and add what it declares now. -/
def replace (index : Index) (document : DocumentId)
    (contributions : Contributions) : Index :=
  (index.remove document).add document contributions

/-- Forget all contributions and keep the precedence. -/
def clear (index : Index) : Index :=
  empty index.precedence

/-- A change to an index. -/
inductive Edit where
  | addOperator (document : DocumentId) (overload : Overload)
  | addFeature (document : DocumentId) (name : Name) (feature : Feature)
  | add (document : DocumentId) (contributions : Contributions)
  | replace (document : DocumentId) (contributions : Contributions)
  | remove (document : DocumentId)
  | clear

/-- Carry out a change. -/
def edit (index : Index) : Edit → Index
  | .addOperator document overload => index.addOperator document overload
  | .addFeature document name feature =>
      index.addFeature document name feature
  | .add document contributions => index.add document contributions
  | .replace document contributions => index.replace document contributions
  | .remove document => index.remove document
  | .clear => index.clear

/-- The notices of adding a batch. -/
def additionNotices (document : DocumentId) (contributions : Contributions) :
    List Notice :=
  contributions.operators.map
      (fun overload => .operatorAdded document overload.kind) ++
    contributions.features.map
      (fun declared => .featureAdded document declared.1 declared.2)

/-- The notice of removing a document. -/
def removalNotice (index : Index) (document : DocumentId) : Notice :=
  match (index.evict document).1 with
  | none => .nothingRemoved document
  | some removed => .contributionsRemoved document removed

/-- The notices of a change. -/
def notices (index : Index) : Edit → List Notice
  | .addOperator document overload => [.operatorAdded document overload.kind]
  | .addFeature document name feature =>
      [.featureAdded document name feature]
  | .add document contributions => additionNotices document contributions
  | .replace document contributions =>
      index.removalNotice document :: additionNotices document contributions
  | .remove document => [index.removalNotice document]
  | .clear => []

end Index

end LuaTyping
