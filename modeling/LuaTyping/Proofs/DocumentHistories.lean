import LuaTyping.Proofs.IndexConsistency

/-!
# Histories of documents

What an index holds of some documents is determined by the changes to these
documents alone.  On the log of declarations this is one equation: to single
out the declarations of some documents after a series of changes is to carry
out those of the changes that bear on them.

Two consequences compare different histories.  If a document is removed in the
end, all changes to it might as well not have happened.  And if several
documents are edited one whole document at a time, then the order in which
edits of different documents follow each other shows only in the order in
which the documents are listed.
-/

namespace LuaTyping

namespace Index.Edit

/-- The document that a change is about, unless it is about all of them. -/
def document? : Edit → Option DocumentId
  | .addOperator document _ => some document
  | .addFeature document _ _ => some document
  | .add document _ => some document
  | .replace document _ => some document
  | .remove document => some document
  | .clear => none

/-- Whether a change bears on a document that a test accepts. -/
def bearsOn (keep : DocumentId → Bool) (change : Edit) : Bool :=
  change.document?.all keep

end Index.Edit

namespace Log

variable {log added : Log} {keep : DocumentId → Bool} {document : DocumentId}

@[simp]
theorem mem_only {record : Record} :
    record ∈ log.only keep ↔ record ∈ log ∧ keep record.document = true := by
  simp [only]

@[simp]
theorem only_append (first second : Log) (keep : DocumentId → Bool) :
    only (first ++ second) keep = first.only keep ++ second.only keep :=
  List.filter_append ..

theorem only_without (log : Log) (keep : DocumentId → Bool)
    (document : DocumentId) :
    (log.without document).only keep = (log.only keep).without document :=
  List.filter_comm ..

theorem document_of_mem_batch {contributions : Contributions}
    {record : Record} (recordMem : record ∈ batch document contributions) :
    record.document = document := by
  rcases List.mem_append.mp recordMem with inOperators | inFeatures
  · obtain ⟨overload, _, rfl⟩ := List.mem_map.mp inOperators
    rfl
  · obtain ⟨declared, _, rfl⟩ := List.mem_map.mp inFeatures
    rfl

theorem only_added
    (owned : ∀ record ∈ added, record.document = document) :
    added.only keep = if keep document then added else [] := by
  split
  · rename_i kept
    refine List.filter_eq_self.mpr fun record recordMem => ?_
    rw [owned record recordMem]
    exact kept
  · rename_i dropped
    refine List.filter_eq_nil_iff.mpr fun record recordMem => ?_
    rw [owned record recordMem]
    exact dropped

theorem only_append_added (log : Log) (keep : DocumentId → Bool)
    (owned : ∀ record ∈ added, record.document = document) :
    only (log ++ added) keep =
      if keep document then log.only keep ++ added else log.only keep := by
  by_cases kept : keep document = true <;> simp [only_added owned, kept]

theorem only_remove (log : Log) (keep : DocumentId → Bool)
    (document : DocumentId) :
    (log.without document).only keep =
      if keep document then (log.only keep).without document
      else log.only keep := by
  rw [only_without]
  split
  · rfl
  · rename_i dropped
    apply without_eq_self
    rintro record recordMem rfl
    exact dropped (mem_only.mp recordMem).2

theorem only_edit (log : Log) (keep : DocumentId → Bool)
    (change : Index.Edit) :
    (log.edit change).only keep =
      if change.bearsOn keep then (log.only keep).edit change
      else log.only keep := by
  cases change with
  | addOperator document overload =>
      exact only_append_added log keep (by simp [Record.document])
  | addFeature document name feature =>
      exact only_append_added log keep (by simp [Record.document])
  | add document contributions =>
      exact only_append_added log keep fun _ => document_of_mem_batch
  | replace document contributions =>
      have owned : ∀ record ∈ batch document contributions,
          record.document = document := fun _ => document_of_mem_batch
      change only (log.without document ++ batch document contributions) keep =
        if keep document then
          (log.only keep).without document ++ batch document contributions
        else log.only keep
      rw [only_append_added _ keep owned, only_remove]
      split <;> rfl
  | remove document => exact only_remove log keep document
  | clear => rfl

/-- What a log says about some documents depends only on the changes that bear
on them. -/
theorem only_run (log : Log) (keep : DocumentId → Bool)
    (changes : List Index.Edit) :
    only (changes.foldl edit log) keep =
      (changes.filter (Index.Edit.bearsOn keep)).foldl edit
        (log.only keep) := by
  induction changes generalizing log with
  | nil => rfl
  | cons change changes ih =>
      rw [List.foldl_cons, ih, only_edit]
      by_cases bears : change.bearsOn keep
      · rw [List.filter_cons_of_pos bears, if_pos bears, List.foldl_cons]
      · rw [List.filter_cons_of_neg bears, if_neg bears]

end Log

namespace Index

/-- Two indexes that no query can tell apart. -/
structure SameAnswers (first second : Index) : Prop where
  operators : ∀ kind, first.operators kind = second.operators kind
  featuresOf : ∀ name, first.featuresOf name = second.featuresOf name
  bestBinary : ∀ kind left right,
    first.bestBinary? kind left right = second.bestBinary? kind left right
  bestUnary : ∀ kind operand,
    first.bestUnary? kind operand = second.bestUnary? kind operand
  bestIndex : ∀ container key,
    first.bestIndex? container key = second.bestIndex? container key
  feature : ∀ name, first.feature name = second.feature name
  containsDocument : ∀ document,
    first.containsDocument document = second.containsDocument document
  kindCount : first.kindCount = second.kindCount
  nameCount : first.nameCount = second.nameCount
  documentCount : first.documentCount = second.documentCount
  isEmpty : first.isEmpty = second.isEmpty

variable {first second : Index} {log firstLog secondLog : Log}

theorem Holds.sameAnswers (firstHolds : first.Holds log)
    (secondHolds : second.Holds log)
    (samePrecedence : first.precedence = second.precedence) :
    first.SameAnswers second := by
  have operators : ∀ kind, first.operators kind = second.operators kind :=
    fun kind => (firstHolds.operators.values kind).trans
      (secondHolds.operators.values kind).symm
  have featuresOf : ∀ name, first.featuresOf name = second.featuresOf name :=
    fun name => (firstHolds.features.values name).trans
      (secondHolds.features.values name).symm
  exact
    { operators
      featuresOf
      bestBinary := fun kind left right => by
        rw [bestBinary?, bestBinary?, operators]
      bestUnary := fun kind operand => by
        rw [bestUnary?, bestUnary?, operators]
      bestIndex := fun container key => by
        rw [bestIndex?, bestIndex?, operators]
      feature := fun name => by
        rw [Index.feature, Index.feature, featuresOf, samePrecedence]
      containsDocument := fun document => by
        rw [Bool.eq_iff_iff]
        exact (firstHolds.touched document).isSome_iff.trans
          (secondHolds.touched document).isSome_iff.symm
      kindCount :=
        firstHolds.operators.size.trans secondHolds.operators.size.symm
      nameCount :=
        firstHolds.features.size.trans secondHolds.features.size.symm
      documentCount :=
        firstHolds.documentCount_eq.trans secondHolds.documentCount_eq.symm
      isEmpty := by
        rw [Bool.eq_iff_iff]
        exact firstHolds.isEmpty_iff.trans secondHolds.isEmpty_iff.symm }

/-- A document that is removed in the end leaves no trace: the changes to it
might as well be left out of the history. -/
theorem remove_run_sameAnswers (precedence : Precedence) (changes : List Edit)
    (document : DocumentId) :
    (((empty precedence).run changes).remove document).SameAnswers
      ((empty precedence).run
        (changes.filter fun change => change.document? ≠ some document)) := by
  have others : (changes.filter fun change =>
        change.document? ≠ some document) =
      changes.filter (Edit.bearsOn fun other => other ≠ document) := by
    refine List.filter_congr fun change _ => ?_
    unfold Edit.bearsOn
    cases change.document? <;> simp
  have removed := ((holds_empty precedence).run changes).remove document
  have leftOut := (holds_empty precedence).run
    (changes.filter (Edit.bearsOn fun other => other ≠ document))
  have sameLog : (changes.foldl Log.edit []).without document =
      (changes.filter (Edit.bearsOn fun other => other ≠ document)).foldl
        Log.edit [] :=
    Log.only_run [] (fun other => other ≠ document) changes
  rw [others]
  rw [sameLog] at removed
  exact removed.sameAnswers leftOut (by simp)

end Index

namespace Precedence

@[simp]
theorem mem_order (precedence : Precedence) (feature : Feature) :
    feature ∈ precedence.order := by
  have known : ∀ other : Feature, other ∈ Feature.all := by
    intro other
    cases other <;> decide
  obtain ⟨complete, nodup⟩ := precedence.total
  have arranged : precedence.order.Perm Feature.all :=
    (nodup.subperm fun other _ => known other).perm_of_length_le complete.ge
  exact arranged.mem_iff.mpr (known feature)

theorem rank_injective (precedence : Precedence) :
    Function.Injective precedence.rank := by
  intro first second sameRank
  exact (List.idxOf_inj (precedence.mem_order first)).mp sameRank

end Precedence

/-- Two enumerations of the same groups, one for each document, in orders that
may differ. -/
def SameGroups {α : Type} (group : DocumentId → List α)
    (first second : List α) : Prop :=
  ∃ firstOrder secondOrder : List DocumentId,
    firstOrder.Nodup ∧ firstOrder.Perm secondOrder ∧
      first = firstOrder.flatMap group ∧ second = secondOrder.flatMap group

theorem Filings.valuesOf_under_own {κ α : Type} [DecidableEq κ]
    (filings : Filings κ α) (key : κ) (document : DocumentId) :
    (under (filings.filter fun filing => filing.2.1 = document) key).valuesOf
        document =
      (filings.under key).valuesOf document := by
  unfold under Additions.valuesOf
  simp only [List.filter_map, List.filter_filter, List.map_map]
  refine congrArg (List.map _) (List.filter_congr fun filing _ => ?_)
  by_cases own : filing.2.1 = document <;> simp [own]

namespace Files

variable {κ α : Type} [DecidableEq κ] {entries others : Table κ (Entry α)}
  {filings otherFilings : Filings κ α}

theorem mem_documents (files : Files entries filings) {key : κ}
    {document : DocumentId} :
    document ∈ ((entries.get? key).getD .empty).documents ↔
      valuesUnder entries key document ≠ [] := by
  rw [files.valuesUnder_ne_nil]
  simp [(files key).holds_getD.documents]

theorem values_eq_flatMap (files : Files entries filings) (key : κ) :
    ((entries.get? key).map Entry.values).getD [] =
      ((entries.get? key).getD .empty).documents.flatMap
        (valuesUnder entries key) := by
  rw [files.values, Additions.grouped, (files key).holds_getD.documents,
    funext (files.valuesUnder_eq key)]

theorem mem_keys_iff_valuesUnder (files : Files entries filings) {key : κ} :
    key ∈ entries.keys ↔
      ∃ document, valuesUnder entries key document ≠ [] := by
  rw [files.mem_keys]
  simp only [files.valuesUnder_ne_nil]
  constructor
  · intro keyMem
    obtain ⟨⟨_, document, value⟩, filingMem, rfl⟩ := List.mem_map.mp keyMem
    exact ⟨document, value, filingMem⟩
  · rintro ⟨document, value, filingMem⟩
    exact List.mem_map_of_mem filingMem

/-- Entries whose documents have the same values list the same groups. -/
theorem sameGroups (files : Files entries filings)
    (otherFiles : Files others otherFilings) {key : κ}
    (agree : ∀ document,
      valuesUnder entries key document = valuesUnder others key document) :
    SameGroups (valuesUnder entries key)
      (((entries.get? key).map Entry.values).getD [])
      (((others.get? key).map Entry.values).getD []) := by
  let order := ((entries.get? key).getD .empty).documents
  let otherOrder := ((others.get? key).getD .empty).documents
  have orderNodup : order.Nodup := Table.keys_nodup _
  have otherNodup : otherOrder.Nodup := Table.keys_nodup _
  have sameDocuments : order.Perm otherOrder := by
    apply (List.perm_ext_iff_of_nodup orderNodup otherNodup).mpr
    intro document
    rw [files.mem_documents, otherFiles.mem_documents, agree]
  refine ⟨order, otherOrder, orderNodup, sameDocuments, ?_, ?_⟩
  · exact files.values_eq_flatMap key
  · rw [otherFiles.values_eq_flatMap, funext agree]

theorem size_eq_of_agree (files : Files entries filings)
    (otherFiles : Files others otherFilings)
    (agree : ∀ key document,
      valuesUnder entries key document = valuesUnder others key document) :
    entries.size = others.size := by
  have sameKeys : ∀ key, key ∈ entries.keys ↔ key ∈ others.keys := by
    intro key
    rw [files.mem_keys_iff_valuesUnder, otherFiles.mem_keys_iff_valuesUnder,
      funext (agree key)]
  calc
    entries.size = others.keys.toFinset.card := entries.size_eq_card sameKeys
    _ = others.size := (others.size_eq_card fun _ => Iff.rfl).symm

end Files

/-- A change of one whole document. -/
inductive DocumentEdit where
  | replace (document : DocumentId) (contributions : Contributions)
  | remove (document : DocumentId)

namespace DocumentEdit

/-- The document that is changed. -/
def document : DocumentEdit → DocumentId
  | .replace document _ => document
  | .remove document => document

/-- The change of an index that it amounts to. -/
def change : DocumentEdit → Index.Edit
  | .replace document contributions => .replace document contributions
  | .remove document => .remove document

theorem filter_map_change (edits : List DocumentEdit)
    (document : DocumentId) :
    (edits.map change).filter
        (Index.Edit.bearsOn fun other => other = document) =
      (edits.filter fun edit => edit.document = document).map change := by
  rw [List.filter_map]
  refine congrArg (List.map change) (List.filter_congr fun edit _ => ?_)
  cases edit <;> rfl

end DocumentEdit

namespace SharedIndex

/-- Carry out edits of whole documents, each as one step. -/
def follow (shared : SharedIndex) (edits : List DocumentEdit) : SharedIndex :=
  edits.foldl (fun shared edit => shared.edit edit.change) shared

theorem index_follow (shared : SharedIndex) (edits : List DocumentEdit) :
    (shared.follow edits).index =
      shared.index.run (edits.map DocumentEdit.change) := by
  induction edits generalizing shared with
  | nil => rfl
  | cons edit edits ih => exact ih (shared.edit edit.change)

end SharedIndex

namespace Log

/-- Two logs that have the same declarations of every document, in the same
order. -/
def Agree (first second : Log) : Prop :=
  ∀ document, first.only (fun other => other = document) =
    second.only fun other => other = document

variable {first second : Log}

theorem Agree.mem_iff (agree : first.Agree second) {record : Record} :
    record ∈ first ↔ record ∈ second := by
  have sameRecords := congrArg (record ∈ ·) (agree record.document)
  simpa using sameRecords

/-- Histories that agree on the edits of every document lead to logs that
agree. -/
theorem agree_run (log : Log) {firstEdits secondEdits : List DocumentEdit}
    (sameEdits : ∀ document,
      (firstEdits.filter fun edit => edit.document = document) =
        secondEdits.filter fun edit => edit.document = document) :
    Agree ((firstEdits.map DocumentEdit.change).foldl edit log)
      ((secondEdits.map DocumentEdit.change).foldl edit log) := by
  intro document
  rw [only_run, only_run, DocumentEdit.filter_map_change,
    DocumentEdit.filter_map_change, sameEdits]

end Log

namespace Index

/-- Two indexes that differ at most in the order in which the documents are
listed under a key. -/
structure Converged (first second : Index) : Prop where
  feature : ∀ name, first.feature name = second.feature name
  containsDocument : ∀ document,
    first.containsDocument document = second.containsDocument document
  kindCount : first.kindCount = second.kindCount
  nameCount : first.nameCount = second.nameCount
  documentCount : first.documentCount = second.documentCount
  operatorsUnder : ∀ kind document,
    valuesUnder first.operatorEntries kind document =
      valuesUnder second.operatorEntries kind document
  featuresUnder : ∀ name document,
    valuesUnder first.featureEntries name document =
      valuesUnder second.featureEntries name document
  operators : ∀ kind, SameGroups (valuesUnder first.operatorEntries kind)
    (first.operators kind) (second.operators kind)
  featuresOf : ∀ name, SameGroups (valuesUnder first.featureEntries name)
    (first.featuresOf name) (second.featuresOf name)
  bestBinary : ∀ kind left right,
    (first.bestBinary? kind left right).isSome =
      (second.bestBinary? kind left right).isSome
  bestUnary : ∀ kind operand,
    (first.bestUnary? kind operand).isSome =
      (second.bestUnary? kind operand).isSome
  bestIndex : ∀ container key,
    (first.bestIndex? container key).isSome =
      (second.bestIndex? container key).isSome

variable {first second : Index} {log firstLog secondLog : Log}

theorem Holds.operatorsUnder_eq (holds : first.Holds log)
    (kind : OperatorKind) (document : DocumentId) :
    valuesUnder first.operatorEntries kind document =
      ((log.only fun other => other = document).overloads.under
        kind).valuesOf document := by
  rw [holds.operators.valuesUnder_eq, Log.overloads_only]
  exact (Filings.valuesOf_under_own ..).symm

theorem Holds.featuresUnder_eq (holds : first.Holds log) (name : Name)
    (document : DocumentId) :
    valuesUnder first.featureEntries name document =
      ((log.only fun other => other = document).features.under
        name).valuesOf document := by
  rw [holds.features.valuesUnder_eq, Log.features_only]
  exact (Filings.valuesOf_under_own ..).symm

section Agreement

variable (firstHolds : first.Holds firstLog)
  (secondHolds : second.Holds secondLog) (agree : firstLog.Agree secondLog)

include firstHolds secondHolds agree

theorem Holds.isSome_find?_eq (kind : OperatorKind)
    (fits : Overload → Bool) :
    ((first.operators kind).find? fits).isSome =
      ((second.operators kind).find? fits).isSome := by
  rw [Bool.eq_iff_iff, List.find?_isSome, List.find?_isSome]
  simp only [firstHolds.mem_operators, secondHolds.mem_operators,
    agree.mem_iff]

theorem Holds.touched_iff (document : DocumentId) :
    document ∈ first.touched.keys ↔ document ∈ second.touched.keys := by
  rw [firstHolds.mem_touched, secondHolds.mem_touched]
  simp only [List.mem_map, agree.mem_iff]

/-- The prevailing feature is the strongest one, whatever the order of the
declarations. -/
theorem Holds.feature_eq (samePrecedence : first.precedence = second.precedence)
    (name : Name) : first.feature name = second.feature name := by
  have inFirst := firstHolds.feature_prevails name
  have inSecond := secondHolds.feature_prevails name
  -- Both features prevail among the same declarations, and no two features
  -- have the same rank.
  simp only [agree.mem_iff, samePrecedence] at inFirst
  rcases inFirst with ⟨⟨firstOwner, firstMem⟩, firstPrevails⟩ |
    ⟨undeclared, firstClass⟩
  · rcases inSecond with ⟨⟨secondOwner, secondMem⟩, secondPrevails⟩ |
      ⟨undeclared, _⟩
    · apply second.precedence.rank_injective
      exact Nat.le_antisymm (secondPrevails firstOwner _ firstMem)
        (firstPrevails secondOwner _ secondMem)
    · exact absurd firstMem (undeclared firstOwner _)
  · rcases inSecond with ⟨⟨secondOwner, secondMem⟩, _⟩ | ⟨_, secondClass⟩
    · exact absurd secondMem (undeclared secondOwner _)
    · rw [firstClass, secondClass]

theorem Holds.converged
    (samePrecedence : first.precedence = second.precedence) :
    first.Converged second := by
  have operatorsUnder : ∀ kind document,
      valuesUnder first.operatorEntries kind document =
        valuesUnder second.operatorEntries kind document := by
    intro kind document
    rw [firstHolds.operatorsUnder_eq, secondHolds.operatorsUnder_eq,
      agree document]
  have featuresUnder : ∀ name document,
      valuesUnder first.featureEntries name document =
        valuesUnder second.featureEntries name document := by
    intro name document
    rw [firstHolds.featuresUnder_eq, secondHolds.featuresUnder_eq,
      agree document]
  have sameDocuments := firstHolds.touched_iff secondHolds agree
  exact
    { feature := firstHolds.feature_eq secondHolds agree samePrecedence
      containsDocument := fun document => by
        rw [Bool.eq_iff_iff]
        simpa [containsDocument] using sameDocuments document
      kindCount := firstHolds.operators.size_eq_of_agree secondHolds.operators
        operatorsUnder
      nameCount := firstHolds.features.size_eq_of_agree secondHolds.features
        featuresUnder
      documentCount := (Table.size_eq_card _ sameDocuments).trans
        (Table.size_eq_card _ fun _ => Iff.rfl).symm
      operatorsUnder
      featuresUnder
      operators := fun kind =>
        firstHolds.operators.sameGroups secondHolds.operators
          (operatorsUnder kind)
      featuresOf := fun name =>
        firstHolds.features.sameGroups secondHolds.features
          (featuresUnder name)
      bestBinary := fun kind _ _ =>
        firstHolds.isSome_find?_eq secondHolds agree kind _
      bestUnary := fun kind _ =>
        firstHolds.isSome_find?_eq secondHolds agree kind _
      bestIndex := fun _ _ =>
        firstHolds.isSome_find?_eq secondHolds agree .index _ }

end Agreement

end Index

namespace SharedIndex

/-- However the edits of different documents follow each other, the index ends
up with the same contributions. -/
theorem follow_converges (start : SharedIndex)
    (reachable : start.index.Reachable) (first second : List DocumentEdit)
    (sameEdits : ∀ document,
      (first.filter fun edit => edit.document = document) =
        second.filter fun edit => edit.document = document) :
    (start.follow first).index.Converged (start.follow second).index := by
  obtain ⟨log, holds⟩ := reachable.exists_holds
  rw [index_follow, index_follow]
  exact (holds.run _).converged (holds.run _) (log.agree_run sameEdits)
    (by simp)

/-- A document that is edited twice ends up behind or before another one,
depending on when the other one is edited. -/
theorem follow_converges_edited_twice :
    let whole := Overload.binary .add .integer .integer .integer
    let text := Overload.binary .add .string .string .string
    let start : SharedIndex :=
      { index := (Index.empty .standard).run
          [.addFeature ⟨1⟩ "A" .aliasType] }
    let firstEdit := DocumentEdit.replace ⟨1⟩ ⟨[text], []⟩
    let lastEdit := DocumentEdit.replace ⟨1⟩ ⟨[whole], [("A", .enumType)]⟩
    let otherEdit := DocumentEdit.replace ⟨2⟩ ⟨[text], [("A", .classType)]⟩
    let between := start.follow [firstEdit, otherEdit, lastEdit]
    let afterwards := start.follow [firstEdit, lastEdit, otherEdit]
    start.index.Reachable ∧
      (∀ document,
        ([firstEdit, otherEdit, lastEdit].filter fun edit =>
            edit.document = document) =
          [firstEdit, lastEdit, otherEdit].filter fun edit =>
            edit.document = document) ∧
      (between.index.operatorEntries.get? .add).map Entry.documents =
        some [⟨2⟩, ⟨1⟩] ∧
      (afterwards.index.operatorEntries.get? .add).map Entry.documents =
        some [⟨1⟩, ⟨2⟩] ∧
      between.index.Converged afterwards.index := by
  intro whole text start firstEdit lastEdit otherEdit between afterwards
  have reachable : start.index.Reachable :=
    (Index.Reachable.empty .standard).run _
  have sameEdits : ∀ document,
      ([firstEdit, otherEdit, lastEdit].filter fun edit =>
          edit.document = document) =
        [firstEdit, lastEdit, otherEdit].filter fun edit =>
          edit.document = document := by
    intro document
    by_cases isFirst : document = ⟨1⟩
    · subst isFirst
      rfl
    · have firstOther : firstEdit.document ≠ document := Ne.symm isFirst
      have lastOther : lastEdit.document ≠ document := Ne.symm isFirst
      simp [List.filter_cons, firstOther, lastOther]
  exact ⟨reachable, sameEdits, by decide, by decide,
    follow_converges start reachable _ _ sameEdits⟩

end SharedIndex

end LuaTyping
