import LuaTyping.Index.Query

/-!
# Shared indexes

Several parties use one index through a handle.  A writer has the index to
itself; if it breaks off, the index stays as far as the writer got, and later
parties go on from there.
-/

namespace LuaTyping

/-- A handle to an index that several parties use. -/
structure SharedIndex where
  index : Index

namespace SharedIndex

/-- Ask the index. -/
def read {α : Type} (shared : SharedIndex) (query : Index → α) : α :=
  query shared.index

/-- Let a writer work on the index.  What the writer did stays, whether it
ended with a result or broke off with an error. -/
def write {ε α : Type} (shared : SharedIndex)
    (writer : Index → Except ε α × Index) : Except ε α × SharedIndex :=
  let (outcome, index) := writer shared.index
  (outcome, { index })

/-- Carry out a change as one step. -/
def edit (shared : SharedIndex) (change : Index.Edit) : SharedIndex :=
  { index := shared.index.edit change }

end SharedIndex

end LuaTyping
