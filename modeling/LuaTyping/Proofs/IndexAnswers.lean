import LuaTyping.Proofs.IndexLog

/-!
# Answers of the type index

Every query of an index can be answered from the log of the declarations it
holds.  Enumerations list the log under one key, document by document; a
lookup takes the first overload of an enumeration that fits; the counts are
numbers of distinct keys and documents.
-/

namespace LuaTyping

namespace Precedence

theorem mem_foldl_prevailing (precedence : Precedence)
    (features : List Feature) (feature : Feature) :
    features.foldl precedence.prevailing feature ∈ feature :: features := by
  induction features generalizing feature with
  | nil => simp
  | cons next features ih =>
      have kept : precedence.prevailing feature next = feature ∨
          precedence.prevailing feature next = next := by
        unfold prevailing
        split
        · exact .inr rfl
        · exact .inl rfl
      have strongest := ih (precedence.prevailing feature next)
      rw [List.foldl_cons]
      rcases List.mem_cons.mp strongest with here | later
      · rw [here]
        rcases kept with isFirst | isNext
        · simp [isFirst]
        · simp [isNext]
      · simp [later]

theorem rank_le_foldl_prevailing (precedence : Precedence)
    {features : List Feature} {feature other : Feature}
    (otherMem : other ∈ feature :: features) :
    precedence.rank other ≤
      precedence.rank (features.foldl precedence.prevailing feature) := by
  induction features generalizing feature other with
  | nil =>
      obtain rfl : other = feature := by simpa using otherMem
      exact Nat.le_refl _
  | cons next features ih =>
      have firstLe : precedence.rank feature ≤
          precedence.rank (precedence.prevailing feature next) := by
        unfold prevailing
        split
        · assumption
        · exact Nat.le_refl _
      have nextLe : precedence.rank next ≤
          precedence.rank (precedence.prevailing feature next) := by
        unfold prevailing
        split
        · exact Nat.le_refl _
        · omega
      rw [List.foldl_cons]
      rcases List.mem_cons.mp otherMem with rfl | later
      · exact firstLe.trans (ih List.mem_cons_self)
      · rcases List.mem_cons.mp later with rfl | inRest
        · exact nextLe.trans (ih List.mem_cons_self)
        · exact ih (List.mem_cons_of_mem _ inRest)

end Precedence

namespace Index

@[simp]
theorem precedence_addOperators (index : Index) (document : DocumentId)
    (overloads : List Overload) :
    (overloads.foldl (fun index overload => index.addOperator document overload)
      index).precedence = index.precedence := by
  induction overloads generalizing index with
  | nil => rfl
  | cons overload overloads ih => exact ih (index.addOperator document overload)

@[simp]
theorem precedence_add (index : Index) (document : DocumentId)
    (contributions : Contributions) :
    (index.add document contributions).precedence = index.precedence := by
  unfold add
  rw [← index.precedence_addOperators document contributions.operators]
  generalize contributions.operators.foldl
    (fun index overload => index.addOperator document overload) index = index
  induction contributions.features generalizing index with
  | nil => rfl
  | cons declared features ih =>
      exact ih (index.addFeature document declared.1 declared.2)

@[simp]
theorem precedence_remove (index : Index) (document : DocumentId) :
    (index.remove document).precedence = index.precedence := by
  unfold remove evict
  split <;> rfl

@[simp]
theorem precedence_edit (index : Index) (change : Edit) :
    (index.edit change).precedence = index.precedence := by
  cases change with
  | addOperator => rfl
  | addFeature => rfl
  | add document contributions => exact index.precedence_add document _
  | replace document contributions =>
      exact ((index.remove document).precedence_add document _).trans
        (index.precedence_remove document)
  | remove document => exact index.precedence_remove document
  | clear => rfl

@[simp]
theorem precedence_run (index : Index) (changes : List Edit) :
    (index.run changes).precedence = index.precedence := by
  induction changes generalizing index with
  | nil => rfl
  | cons change changes ih =>
      exact (ih (index.edit change)).trans (index.precedence_edit change)

/-- The answers that a log of declarations gives to the queries of an index. -/
structure Answers (index : Index) (precedence : Precedence) (log : Log) :
    Prop where
  operators : ∀ kind,
    index.operators kind = (log.overloads.under kind).grouped
  featuresOf : ∀ name,
    index.featuresOf name = (log.features.under name).grouped
  bestBinary : ∀ kind left right,
    index.bestBinary? kind left right =
      (log.overloads.under kind).grouped.find?
        (Overload.matchesBinary left right)
  noBinary : ∀ kind left right,
    index.bestBinary? kind left right = none ↔
      ¬ ∃ document declaredLeft declaredRight result,
        .operator document (.binary kind declaredLeft declaredRight result) ∈
            log ∧
          declaredLeft.same left = true ∧ declaredRight.same right = true
  bestUnary : ∀ kind operand,
    index.bestUnary? kind operand =
      (log.overloads.under kind).grouped.find?
        (Overload.matchesUnary operand)
  noUnary : ∀ kind operand,
    index.bestUnary? kind operand = none ↔
      ¬ ∃ document declared result,
        .operator document (.unary kind declared result) ∈ log ∧
          declared.same operand = true
  bestIndex : ∀ container key,
    index.bestIndex? container key =
      (log.overloads.under .index).grouped.find?
        (Overload.matchesIndex container key)
  noIndex : ∀ container key,
    index.bestIndex? container key = none ↔
      ¬ ∃ document declaredContainer declaredKey result,
        .operator document (.index declaredContainer declaredKey result) ∈
            log ∧
          declaredContainer.same container = true ∧
          declaredKey.same key = true
  /-- The strongest declared feature prevails. -/
  feature : ∀ name,
    ((∃ document, .feature document name (index.feature name) ∈ log) ∧
        ∀ document declared, .feature document name declared ∈ log →
          precedence.rank declared ≤
            precedence.rank (index.feature name)) ∨
      ((∀ document declared, .feature document name declared ∉ log) ∧
        index.feature name = .classType)
  containsDocument : ∀ document,
    index.containsDocument document = true ↔
      ∃ record ∈ log, record.document = document
  documentCount :
    index.documentCount = (log.map Record.document).toFinset.card
  kindCount : index.kindCount = (log.overloads.map Prod.fst).toFinset.card
  nameCount : index.nameCount = (log.features.map Prod.fst).toFinset.card
  isEmpty : index.isEmpty = true ↔ log = []

variable {index : Index} {log : Log}

theorem Holds.mem_operators (holds : index.Holds log) {kind : OperatorKind}
    {overload : Overload} :
    overload ∈ index.operators kind ↔
      ∃ document, .operator document overload ∈ log ∧ overload.kind = kind := by
  simp [Index.operators, holds.operators.values]

theorem Holds.mem_featuresOf (holds : index.Holds log) {name : Name}
    {declared : Feature} :
    declared ∈ index.featuresOf name ↔
      ∃ document, .feature document name declared ∈ log := by
  simp [Index.featuresOf, holds.features.values]

/-- A lookup finds nothing exactly if no declared overload of the kind fits. -/
theorem Holds.find?_eq_none (holds : index.Holds log) {kind : OperatorKind}
    {fits : Overload → Bool} :
    (index.operators kind).find? fits = none ↔
      ¬ ∃ document overload, .operator document overload ∈ log ∧
        overload.kind = kind ∧ fits overload = true := by
  rw [List.find?_eq_none]
  constructor
  · rintro none ⟨document, overload, recordMem, kindEq, isFit⟩
    exact none overload (holds.mem_operators.mpr ⟨document, recordMem, kindEq⟩)
      isFit
  · intro none overload overloadMem isFit
    obtain ⟨document, recordMem, kindEq⟩ := holds.mem_operators.mp overloadMem
    exact none ⟨document, overload, recordMem, kindEq, isFit⟩

theorem Holds.bestBinary?_eq_none (holds : index.Holds log)
    (kind : OperatorKind) (left right : Ty) :
    index.bestBinary? kind left right = none ↔
      ¬ ∃ document declaredLeft declaredRight result,
        .operator document (.binary kind declaredLeft declaredRight result) ∈
            log ∧
          declaredLeft.same left = true ∧ declaredRight.same right = true := by
  refine holds.find?_eq_none.trans (not_congr ⟨?_, ?_⟩)
  · rintro ⟨document, overload, recordMem, rfl, isFit⟩
    cases overload with
    | binary kind declaredLeft declaredRight result =>
        exact ⟨document, declaredLeft, declaredRight, result, recordMem,
          by simpa [Overload.matchesBinary] using isFit⟩
    | unary => simp [Overload.matchesBinary] at isFit
    | index => simp [Overload.matchesBinary] at isFit
  · rintro ⟨document, declaredLeft, declaredRight, result, recordMem, isSame⟩
    exact ⟨document, _, recordMem, rfl,
      by simpa [Overload.matchesBinary] using isSame⟩

theorem Holds.bestUnary?_eq_none (holds : index.Holds log)
    (kind : OperatorKind) (operand : Ty) :
    index.bestUnary? kind operand = none ↔
      ¬ ∃ document declared result,
        .operator document (.unary kind declared result) ∈ log ∧
          declared.same operand = true := by
  refine holds.find?_eq_none.trans (not_congr ⟨?_, ?_⟩)
  · rintro ⟨document, overload, recordMem, rfl, isFit⟩
    cases overload with
    | unary kind declared result =>
        exact ⟨document, declared, result, recordMem, isFit⟩
    | binary => simp [Overload.matchesUnary] at isFit
    | index => simp [Overload.matchesUnary] at isFit
  · rintro ⟨document, declared, result, recordMem, isSame⟩
    exact ⟨document, _, recordMem, rfl, isSame⟩

theorem Holds.bestIndex?_eq_none (holds : index.Holds log)
    (container key : Ty) :
    index.bestIndex? container key = none ↔
      ¬ ∃ document declaredContainer declaredKey result,
        .operator document (.index declaredContainer declaredKey result) ∈
            log ∧
          declaredContainer.same container = true ∧
          declaredKey.same key = true := by
  refine holds.find?_eq_none.trans (not_congr ⟨?_, ?_⟩)
  · rintro ⟨document, overload, recordMem, _, isFit⟩
    cases overload with
    | index declaredContainer declaredKey result =>
        exact ⟨document, declaredContainer, declaredKey, result, recordMem,
          by simpa [Overload.matchesIndex] using isFit⟩
    | binary => simp [Overload.matchesIndex] at isFit
    | unary => simp [Overload.matchesIndex] at isFit
  · rintro ⟨document, declaredContainer, declaredKey, result, recordMem,
      isSame⟩
    exact ⟨document, _, recordMem, rfl,
      by simpa [Overload.matchesIndex] using isSame⟩

theorem Holds.feature_prevails (holds : index.Holds log) (name : Name) :
    ((∃ document, .feature document name (index.feature name) ∈ log) ∧
        ∀ document declared, .feature document name declared ∈ log →
          index.precedence.rank declared ≤
            index.precedence.rank (index.feature name)) ∨
      ((∀ document declared, .feature document name declared ∉ log) ∧
        index.feature name = .classType) := by
  have declared {document : DocumentId} {feature : Feature}
      (recordMem : .feature document name feature ∈ log) :
      feature ∈ index.featuresOf name :=
    holds.mem_featuresOf.mpr ⟨document, recordMem⟩
  have recorded {feature : Feature} (mem : feature ∈ index.featuresOf name) :
      ∃ document, .feature document name feature ∈ log :=
    holds.mem_featuresOf.mp mem
  unfold Index.feature
  cases features : index.featuresOf name with
  | nil =>
      refine .inr ⟨fun document feature recordMem => ?_, rfl⟩
      have inFeatures := declared recordMem
      simp [features] at inFeatures
  | cons first rest =>
      rw [features] at declared recorded
      refine .inl ⟨?_, fun document feature recordMem => ?_⟩
      · exact recorded (index.precedence.mem_foldl_prevailing rest first)
      · exact index.precedence.rank_le_foldl_prevailing (declared recordMem)

theorem Holds.mem_touched (holds : index.Holds log) {document : DocumentId} :
    document ∈ index.touched.keys ↔ document ∈ log.map Record.document := by
  rw [← Table.contains_iff_mem_keys, Table.contains,
    (holds.touched document).isSome_iff, List.mem_map]

theorem Holds.isEmpty_iff (holds : index.Holds log) :
    index.isEmpty = true ↔ log = [] := by
  unfold Index.isEmpty
  rw [Bool.and_eq_true, holds.operators.isEmpty_iff,
    holds.features.isEmpty_iff]
  cases log with
  | nil => simp [Log.overloads, Log.features]
  | cons record log =>
      refine iff_of_false ?_ (List.cons_ne_nil record log)
      rintro ⟨noOverloads, noFeatures⟩
      cases record with
      | operator => exact List.cons_ne_nil _ _ noOverloads
      | feature => exact List.cons_ne_nil _ _ noFeatures

/-- An index that only ever changed as told is the log of these changes, as
far as its answers go. -/
theorem run_answers (precedence : Precedence) (changes : List Edit) :
    ((empty precedence).run changes).Answers precedence
      (changes.foldl Log.edit []) := by
  have holds := (holds_empty precedence).run changes
  have kept : ((empty precedence).run changes).precedence = precedence :=
    (empty precedence).precedence_run changes
  exact
    { operators := fun kind => holds.operators.values kind
      featuresOf := fun name => holds.features.values name
      bestBinary := fun kind left right =>
        congrArg (List.find? _) (holds.operators.values kind)
      noBinary := holds.bestBinary?_eq_none
      bestUnary := fun kind operand =>
        congrArg (List.find? _) (holds.operators.values kind)
      noUnary := holds.bestUnary?_eq_none
      bestIndex := fun container key =>
        congrArg (List.find? _) (holds.operators.values .index)
      noIndex := holds.bestIndex?_eq_none
      feature := fun name => by
        have prevails := holds.feature_prevails name
        rwa [kept] at prevails
      containsDocument := fun document => (holds.touched document).isSome_iff
      documentCount := Table.size_eq_card _ fun _ => holds.mem_touched
      kindCount := holds.operators.size
      nameCount := holds.features.size
      isEmpty := holds.isEmpty_iff }

end Index

end LuaTyping
