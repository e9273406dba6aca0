import LuaTyping.Origin
import LuaTyping.Table

/-!
# Index entries

An entry holds the values registered under one key of an index, grouped by the
document that contributed them.  Documents stand in the order of their first
contribution and the values of a document in the order of registration, so
that enumerating an entry is deterministic.
-/

namespace LuaTyping

/-- Values under one key, grouped by contributing document. -/
structure Entry (α : Type) where
  buckets : Table DocumentId (List α)

namespace Entry

variable {α : Type}

/-- The entry without values. -/
def empty : Entry α := ⟨.empty⟩

/-- The values that a document contributed, in order of registration. -/
def valuesOf (entry : Entry α) (document : DocumentId) : List α :=
  (entry.buckets.get? document).getD []

/-- Add a value behind the others of its document. -/
def add (entry : Entry α) (document : DocumentId) (value : α) : Entry α :=
  ⟨entry.buckets.insert document (entry.valuesOf document ++ [value])⟩

/-- Drop the values of a document, and count them. -/
def remove (entry : Entry α) (document : DocumentId) : Nat × Entry α :=
  ((entry.valuesOf document).length, ⟨entry.buckets.erase document⟩)

/-- Whether a document has values in the entry. -/
def contains (entry : Entry α) (document : DocumentId) : Bool :=
  entry.buckets.contains document

/-- Whether no document has values left. -/
def isEmpty (entry : Entry α) : Bool :=
  entry.buckets.isEmpty

/-- The contributing documents, in order of first contribution. -/
def documents (entry : Entry α) : List DocumentId :=
  entry.buckets.keys

/-- Number of contributing documents. -/
def documentCount (entry : Entry α) : Nat :=
  entry.buckets.size

/-- All values, document by document. -/
def values (entry : Entry α) : List α :=
  entry.buckets.values.flatten

/-- Number of values over all documents. -/
def size (entry : Entry α) : Nat :=
  entry.buckets.values.foldr (fun values total => values.length + total) 0

end Entry

end LuaTyping
