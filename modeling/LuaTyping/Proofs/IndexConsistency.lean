import LuaTyping.Index.Shared
import LuaTyping.Proofs.IndexAnswers

/-!
# Consistency of the type index

Removing a document visits the keys that the reverse index lists for it and no
others.  A key that is missing there would keep values that nothing can remove,
and a key that is listed in vain would be visited for nothing.  So the three
tables of an index have to agree: the reverse index lists exactly the keys
under which a document has a bucket, and neither an empty bucket nor an entry
without values is ever left behind.

Tables that hold a common log of declarations agree in this way, and every
index that can be reached holds one.  That includes an index behind a shared
handle after a writer broke off, because a writer that breaks off leaves the
changes it had completed.
-/

namespace LuaTyping

namespace Entry

variable {α : Type} {entry : Entry α} {log : Additions α}

/-- An entry that holds values, and an empty bucket for no document. -/
structure Filled (entry : Entry α) : Prop where
  values_ne_nil : entry.values ≠ []
  bucket_ne_nil : ∀ document bucket,
    entry.buckets.get? document = some bucket → bucket ≠ []

theorem Holds.contains_iff (holds : entry.Holds log)
    {document : DocumentId} :
    entry.contains document = true ↔ ∃ value, (document, value) ∈ log := by
  rw [← Additions.mem_documents, ← holds.documents]
  exact entry.buckets.contains_iff_mem_keys document

theorem Holds.filled (holds : entry.Holds log) (nonempty : log ≠ []) :
    entry.Filled where
  values_ne_nil := by
    obtain ⟨⟨document, value⟩, additionMem⟩ :=
      List.exists_mem_of_ne_nil log nonempty
    have valueMem : value ∈ entry.values := by
      simpa [holds.values] using ⟨document, additionMem⟩
    exact List.ne_nil_of_mem valueMem
  bucket_ne_nil := by
    intro document bucket found
    have present : entry.contains document = true := by
      simp [Entry.contains, Table.contains, found]
    obtain ⟨value, additionMem⟩ := holds.contains_iff.mp present
    have isBucket : log.valuesOf document = bucket := by
      rw [← holds.valuesOf, Entry.valuesOf, found, Option.getD_some]
    have valueMem : value ∈ bucket :=
      isBucket ▸ Additions.mem_valuesOf.mpr additionMem
    exact List.ne_nil_of_mem valueMem

end Entry

/-- Whether a document has a bucket under a key. -/
def HasBucket {κ α : Type} [DecidableEq κ] (entries : Table κ (Entry α))
    (key : κ) (document : DocumentId) : Prop :=
  ∃ entry, entries.get? key = some entry ∧ entry.contains document = true

/-- The values that a document has under a key, in order of registration. -/
def valuesUnder {κ α : Type} [DecidableEq κ] (entries : Table κ (Entry α))
    (key : κ) (document : DocumentId) : List α :=
  ((entries.get? key).getD .empty).valuesOf document

namespace Files

variable {κ α : Type} [DecidableEq κ] {entries : Table κ (Entry α)}
  {filings : Filings κ α}

theorem filled (files : Files entries filings) {key : κ} {entry : Entry α}
    (found : entries.get? key = some entry) : entry.Filled := by
  have filed := files key
  rw [found] at filed
  exact filed.2.filled filed.1

theorem valuesUnder_eq (files : Files entries filings) (key : κ)
    (document : DocumentId) :
    valuesUnder entries key document =
      (filings.under key).valuesOf document :=
  (files key).holds_getD.valuesOf document

theorem valuesUnder_ne_nil (files : Files entries filings) {key : κ}
    {document : DocumentId} :
    valuesUnder entries key document ≠ [] ↔
      ∃ value, (key, document, value) ∈ filings := by
  rw [files.valuesUnder_eq, ← List.length_pos_iff,
    List.length_pos_iff_exists_mem]
  simp

theorem hasBucket_iff (files : Files entries filings) {key : κ}
    {document : DocumentId} :
    HasBucket entries key document ↔
      ∃ value, (key, document, value) ∈ filings := by
  have filed := files key
  unfold HasBucket
  cases found : entries.get? key with
  | none =>
      rw [found] at filed
      have nothing : filings.under key = [] := filed
      refine iff_of_false (by simp) ?_
      rintro ⟨value, filingMem⟩
      have additionMem := Filings.mem_under.mpr filingMem
      simp [nothing] at additionMem
  | some entry =>
      rw [found] at filed
      simp [filed.2.contains_iff]

end Files

namespace Index

/-- The agreement of the three tables of an index. -/
structure Consistent (index : Index) : Prop where
  operators_filled : ∀ kind entry,
    index.operatorEntries.get? kind = some entry → entry.Filled
  features_filled : ∀ name entry,
    index.featureEntries.get? name = some entry → entry.Filled
  operators_of_kind : ∀ kind entry,
    index.operatorEntries.get? kind = some entry →
      ∀ overload ∈ entry.values, overload.kind = kind
  /-- The reverse index lists the kinds under which a document has a bucket. -/
  kinds_tracked : ∀ document kind,
    kind ∈ (index.touchedBy document).kinds ↔
      HasBucket index.operatorEntries kind document
  /-- The reverse index lists the names under which a document has a bucket. -/
  names_tracked : ∀ document name,
    name ∈ (index.touchedBy document).names ↔
      HasBucket index.featureEntries name document
  /-- The reverse index knows the documents with values. -/
  documents_tracked : ∀ document,
    (index.touched.get? document).isSome = true ↔
      (∃ kind, valuesUnder index.operatorEntries kind document ≠ []) ∨
        ∃ name, valuesUnder index.featureEntries name document ≠ []
  isEmpty_iff : index.isEmpty = true ↔ index.documentCount = 0

variable {index : Index} {log : Log}

theorem Holds.operators_of_kind (holds : index.Holds log)
    {kind : OperatorKind} {entry : Entry Overload}
    (found : index.operatorEntries.get? kind = some entry)
    {overload : Overload} (overloadMem : overload ∈ entry.values) :
    overload.kind = kind := by
  have listed : overload ∈ index.operators kind := by
    rw [Index.operators, found]
    exact overloadMem
  obtain ⟨_, _, ofKind⟩ := holds.mem_operators.mp listed
  exact ofKind

/-- A document has made a declaration if one of its values is stored. -/
theorem Holds.documents_tracked (holds : index.Holds log)
    (document : DocumentId) :
    (index.touched.get? document).isSome = true ↔
      (∃ kind, valuesUnder index.operatorEntries kind document ≠ []) ∨
        ∃ name, valuesUnder index.featureEntries name document ≠ [] := by
  simp only [(holds.touched document).isSome_iff,
    holds.operators.valuesUnder_ne_nil, holds.features.valuesUnder_ne_nil,
    Log.mem_overloads, Log.mem_features]
  constructor
  · rintro ⟨record, recordMem, rfl⟩
    cases record with
    | operator owner overload =>
        exact .inl ⟨overload.kind, overload, recordMem, rfl⟩
    | feature owner name feature => exact .inr ⟨name, feature, recordMem⟩
  · rintro (⟨kind, overload, recordMem, _⟩ | ⟨name, feature, recordMem⟩)
    · exact ⟨_, recordMem, rfl⟩
    · exact ⟨_, recordMem, rfl⟩

theorem Holds.documentCount_eq (holds : index.Holds log) :
    index.documentCount = (log.map Record.document).toFinset.card :=
  Table.size_eq_card _ fun _ => holds.mem_touched

theorem Holds.documentCount_eq_zero (holds : index.Holds log) :
    index.documentCount = 0 ↔ log = [] := by
  rw [holds.documentCount_eq, Finset.card_eq_zero,
    List.toFinset_eq_empty_iff, List.map_eq_nil_iff]

theorem Holds.consistent (holds : index.Holds log) : index.Consistent where
  operators_filled _ _ found := holds.operators.filled found
  features_filled _ _ found := holds.features.filled found
  operators_of_kind _ _ found _ overloadMem :=
    holds.operators_of_kind found overloadMem
  kinds_tracked document kind := by
    simp [touchedBy, (holds.touched document).kinds,
      holds.operators.hasBucket_iff]
  names_tracked document name := by
    simp [touchedBy, (holds.touched document).names,
      holds.features.hasBucket_iff]
  documents_tracked := holds.documents_tracked
  isEmpty_iff := holds.isEmpty_iff.trans holds.documentCount_eq_zero.symm

/-- The indexes that come about by changes, whether directly or through a
shared handle.  A writer may look at the index to decide on its changes, and
may end with a result or break off. -/
inductive Reachable : Index → Prop
  | empty (precedence : Precedence) : Reachable (empty precedence)
  | edit {index : Index} (earlier : Reachable index) (change : Edit) :
      Reachable (index.edit change)
  | sharedEdit {shared : SharedIndex} (earlier : Reachable shared.index)
      (change : Edit) : Reachable (shared.edit change).index
  | write {shared : SharedIndex} (earlier : Reachable shared.index)
      {ε α : Type} (writer : Index → Except ε α × Index)
      (completed : ∃ changes,
        (writer shared.index).2 = shared.index.run changes) :
      Reachable (shared.write writer).2.index

theorem Reachable.run (reachable : index.Reachable) (changes : List Edit) :
    (index.run changes).Reachable := by
  induction changes generalizing index with
  | nil => exact reachable
  | cons change changes ih => exact ih (reachable.edit change)

theorem Reachable.exists_holds (reachable : index.Reachable) :
    ∃ log, index.Holds log := by
  induction reachable with
  | empty precedence => exact ⟨[], holds_empty precedence⟩
  | edit _ change ih =>
      obtain ⟨log, holds⟩ := ih
      exact ⟨log.edit change, holds.edit change⟩
  | sharedEdit _ change ih =>
      obtain ⟨log, holds⟩ := ih
      exact ⟨log.edit change, holds.edit change⟩
  | @write shared _ ε α writer completed ih =>
      obtain ⟨log, holds⟩ := ih
      obtain ⟨changes, written⟩ := completed
      refine ⟨changes.foldl Log.edit log, ?_⟩
      change (writer shared.index).2.Holds _
      rw [written]
      exact holds.run changes

/-- The tables of every reachable index agree. -/
theorem consistent_of_reachable (reachable : index.Reachable) :
    index.Consistent := by
  obtain ⟨log, holds⟩ := reachable.exists_holds
  exact holds.consistent

/-- Two documents share a kind and a name; then a writer replaces one of them,
removes the other and breaks off. -/
theorem consistent_after_broken_write :
    let concat := Overload.binary .concat .string .string .string
    let shared : SharedIndex :=
      { index := (Index.empty .standard).run
          [.add ⟨1⟩ ⟨[concat, concat], [("A", .aliasType)]⟩,
            .add ⟨2⟩ ⟨[concat], [("A", .enumType)]⟩] }
    let writer (index : Index) : Except String Unit × Index :=
      (.error "broken off",
        index.run [.replace ⟨1⟩ ⟨[], [("B", .classType)]⟩, .remove ⟨2⟩])
    (shared.write writer).2.index.Reachable ∧
      (shared.write writer).2.index.Consistent := by
  intro concat shared writer
  have reachable : (shared.write writer).2.index.Reachable := by
    apply Reachable.write
    · exact (Reachable.empty .standard).run _
    · exact ⟨_, rfl⟩
  exact ⟨reachable, consistent_of_reachable reachable⟩

end Index

end LuaTyping
