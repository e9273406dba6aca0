import LuaTyping.Proofs.DocumentHistories

/-!
# What a removal accounts for

Removing a document from the index reports how many values were dropped.  The
count is summed up key by key while the entries change, along the keys that
the reverse index lists for the document.  It is compared here with two other
numbers: the declarations made for the document since it was last removed,
which are read off the history, and the loss in stored values, which is read
off the tables.

All three are lengths of parts of the log of declarations.
-/

namespace LuaTyping

namespace Filings

variable {κ α : Type} [DecidableEq κ]

theorem length_withdrawn (filings : Filings κ α) (document : DocumentId)
    (key : κ) :
    ((filings.under key).valuesOf document).length +
      (filings.withdrawn document [key]).length = filings.length := by
  have own : ((filings.under key).valuesOf document).length =
      (filings.filter fun filing =>
        filing.1 = key ∧ filing.2.1 = document).length := by
    unfold under Additions.valuesOf
    rw [List.length_map, List.filter_map, List.length_map, List.filter_filter]
    refine congrArg List.length (List.filter_congr fun filing _ => ?_)
    simp [Bool.and_comm]
  unfold withdrawn
  rw [own]
  simp only [List.mem_singleton, decide_not]
  exact (List.length_eq_length_filter_add _).symm

end Filings

/-- All values of a table of entries, key by key. -/
def storedValues {κ α : Type} (entries : Table κ (Entry α)) : List α :=
  entries.values.flatMap Entry.values

theorem Filed.values_perm {α : Type} {place : Option (Entry α)}
    {log : Additions α} (filed : Filed place log) :
    ((place.map Entry.values).getD []).Perm (log.map Prod.snd) := by
  cases place with
  | none =>
      obtain rfl : log = [] := filed
      rfl
  | some entry => exact filed.2.values_perm

namespace Files

variable {κ α : Type} [DecidableEq κ] {entries : Table κ (Entry α)}
  {filings : Filings κ α}

/-- What is stored is what was filed. -/
theorem storedValues_perm (files : Files entries filings) :
    (storedValues entries).Perm (filings.map fun filing => filing.2.2) := by
  have byKey : storedValues entries = entries.keys.flatMap fun key =>
      ((entries.get? key).map Entry.values).getD [] := by
    have lookups := congrArg
      (List.flatMap fun place => (Option.map Entry.values place).getD [])
      entries.map_get?_keys
    rw [List.flatMap_map, List.flatMap_map] at lookups
    exact lookups.symm
  have keysCover : ∀ filing ∈ filings, filing.1 ∈ entries.keys := by
    intro filing filingMem
    exact files.mem_keys.mpr (List.mem_map_of_mem filingMem)
  have groups := (groups_perm Prod.fst entries.keys_nodup keysCover).map
    fun filing => filing.2.2
  rw [List.map_flatMap] at groups
  rw [byKey]
  refine (List.Perm.flatMap_left _ fun key _ => ?_).trans groups
  have underKey := (files key).values_perm
  rw [Filings.under, List.map_map] at underKey
  exact underKey

theorem fst_withdraw {state : Nat × Table κ (Entry α)}
    (files : Files state.2 filings) (document : DocumentId) (key : κ) :
    (Index.withdraw document state key).1 =
      state.1 + ((filings.under key).valuesOf document).length := by
  have filed := files key
  unfold Index.withdraw
  split
  · rename_i nothing
    rw [nothing] at filed
    have noFilings : filings.under key = [] := filed
    rw [noFilings]
    rfl
  · rename_i entry found
    rw [found] at filed
    rw [← filed.2.valuesOf]
    rfl

/-- What is withdrawn and what is left add up to what was filed. -/
theorem fst_withdrawAll {state : Nat × Table κ (Entry α)}
    (files : Files state.2 filings) (document : DocumentId) (keys : List κ) :
    (keys.foldl (Index.withdraw document) state).1 +
        (filings.withdrawn document keys).length =
      state.1 + filings.length := by
  induction keys generalizing state filings with
  | nil => simp [Filings.withdrawn]
  | cons key keys ih =>
      have rest := ih (files.withdraw document key)
      have first := filings.length_withdrawn document key
      rw [Filings.withdrawn_cons, files.fst_withdraw] at rest
      rw [List.foldl_cons]
      omega

end Files

namespace Log

variable {log : Log} {document : DocumentId}

theorem length_overloads_add_features (log : Log) :
    log.overloads.length + log.features.length = log.length := by
  unfold overloads features
  induction log with
  | nil => rfl
  | cons record log ih =>
      cases record with
      | operator document overload =>
          change (_ :: log.filterMap Record.overload?).length +
            (log.filterMap Record.feature?).length = log.length + 1
          rw [List.length_cons]
          omega
      | feature document name feature =>
          change (log.filterMap Record.overload?).length +
            (_ :: log.filterMap Record.feature?).length = log.length + 1
          rw [List.length_cons]
          omega

/-- The declarations of a document. -/
def ownedBy (log : Log) (document : DocumentId) : Log :=
  log.only fun owner => owner = document

@[simp]
theorem mem_ownedBy {record : Record} :
    record ∈ log.ownedBy document ↔
      record ∈ log ∧ record.document = document := by
  simp [ownedBy]

theorem length_ownedBy_add_without (log : Log) (document : DocumentId) :
    (log.ownedBy document).length + (log.without document).length =
      log.length := by
  unfold ownedBy only without
  simp only [ne_eq, decide_not]
  exact (List.length_eq_length_filter_add _).symm

end Log

namespace Index

/-- Number of values in the index, over all kinds and names. -/
def stored (index : Index) : Nat :=
  (storedValues index.operatorEntries).length +
    (storedValues index.featureEntries).length

variable {index : Index} {log : Log} {document : DocumentId}

theorem Holds.stored_eq (holds : index.Holds log) :
    index.stored = log.length := by
  rw [stored, holds.operators.storedValues_perm.length_eq,
    holds.features.storedValues_perm.length_eq, List.length_map,
    List.length_map, Log.length_overloads_add_features]

theorem Holds.touched_eq_none_iff (holds : index.Holds log) :
    index.touched.get? document = none ↔ log.ownedBy document = [] := by
  have tracked := (holds.touched document).isSome_iff
  rw [← Option.not_isSome_iff_eq_none, tracked,
    List.eq_nil_iff_forall_not_mem]
  simp

theorem evict_of_untouched (untouched : index.touched.get? document = none) :
    index.evict document = (none, index) := by
  unfold evict
  rw [untouched]

/-- The count of a removal is the number of declarations that it deletes. -/
theorem Holds.fst_evict (holds : index.Holds log) {keys : Touched}
    (found : index.touched.get? document = some keys) :
    (index.evict document).1 = some (log.ownedBy document).length := by
  have tracked := holds.touched document
  rw [found] at tracked
  have fromOperators :
      (keys.kinds.foldl (withdraw document) (0, index.operatorEntries)).1 +
        (log.overloads.withdrawn document keys.kinds).length =
          0 + log.overloads.length :=
    Files.fst_withdrawAll holds.operators document keys.kinds
  have fromFeatures :
      (keys.names.foldl (withdraw document) (0, index.featureEntries)).1 +
        (log.features.withdrawn document keys.names).length =
          0 + log.features.length :=
    Files.fst_withdrawAll holds.features document keys.names
  rw [Filings.withdrawn_eq_without tracked.kinds_cover,
    ← Log.overloads_without] at fromOperators
  rw [Filings.withdrawn_eq_without tracked.names_cover,
    ← Log.features_without] at fromFeatures
  have whole := log.length_overloads_add_features
  have left := (log.without document).length_overloads_add_features
  have parts := log.length_ownedBy_add_without document
  unfold evict
  rw [found]
  refine congrArg some ?_
  omega

/-- A removal says how many declarations it deletes, or that there are none. -/
theorem Holds.removalNotice_eq (holds : index.Holds log)
    (document : DocumentId) :
    index.removalNotice document =
      if (log.ownedBy document).length = 0 then .nothingRemoved document
      else .contributionsRemoved document (log.ownedBy document).length := by
  unfold removalNotice
  cases found : index.touched.get? document with
  | none =>
      have nothing := holds.touched_eq_none_iff.mp found
      rw [evict_of_untouched found, nothing]
      rfl
  | some keys =>
      have something : log.ownedBy document ≠ [] := by
        rw [ne_eq, ← holds.touched_eq_none_iff, found]
        simp
      rw [holds.fst_evict found,
        if_neg (mt List.eq_nil_of_length_eq_zero something)]

theorem Holds.remove_eq_self (holds : index.Holds log)
    (nothing : (log.ownedBy document).length = 0) :
    index.remove document = index := by
  have untouched := holds.touched_eq_none_iff.mpr
    (List.eq_nil_of_length_eq_zero nothing)
  rw [Index.remove, evict_of_untouched untouched]

theorem Holds.stored_remove (holds : index.Holds log)
    (document : DocumentId) :
    (index.remove document).stored + (log.ownedBy document).length =
      index.stored := by
  rw [(holds.remove document).stored_eq, holds.stored_eq, Nat.add_comm]
  exact log.length_ownedBy_add_without document

end Index

namespace Index.Edit

/-- Number of declarations that a change makes. -/
def additions : Edit → Nat
  | .addOperator _ _ | .addFeature _ _ _ => 1
  | .add _ contributions | .replace _ contributions => contributions.size
  | .remove _ | .clear => 0

/-- Whether a change removes what was declared for a document before it. -/
def removes (document : DocumentId) : Edit → Bool
  | .replace owner _ | .remove owner => owner = document
  | .clear => true
  | .addOperator _ _ | .addFeature _ _ _ | .add _ _ => false

/-- Update the number of declarations made for a document since its last
removal.  A replacement removes first and declares then. -/
def recount (document : DocumentId) (count : Nat) (change : Edit) : Nat :=
  (if change.removes document then 0 else count) +
    if change.document? = some document then change.additions else 0

/-- Number of declarations made for a document since it was last removed, or
since the beginning if it never was. -/
def declaredSince (document : DocumentId) (changes : List Edit) : Nat :=
  changes.foldl (recount document) 0

end Index.Edit

namespace Log

variable {document : DocumentId}

@[simp]
theorem length_batch (document : DocumentId) (contributions : Contributions) :
    (batch document contributions).length = contributions.size := by
  simp [batch, Contributions.size]

@[simp]
theorem without_ownedBy (log : Log) (document : DocumentId) :
    (log.ownedBy document).without document = [] := by
  refine List.filter_eq_nil_iff.mpr fun record recordMem => ?_
  simp [(mem_ownedBy.mp recordMem).2]

theorem length_ownedBy_edit (log : Log) (document : DocumentId)
    (change : Index.Edit) :
    ((log.edit change).ownedBy document).length =
      change.recount document (log.ownedBy document).length := by
  rw [ownedBy, only_edit, ← ownedBy]
  cases change with
  | clear => rfl
  | addOperator owner _ | addFeature owner _ _ | add owner _
  | replace owner _ | remove owner =>
      by_cases own : owner = document <;>
        simp [Index.Edit.bearsOn, Index.Edit.document?, Index.Edit.recount,
          Index.Edit.removes, Index.Edit.additions, edit, own]

theorem length_ownedBy_run (log : Log) (document : DocumentId)
    (changes : List Index.Edit) :
    ((changes.foldl edit log).ownedBy document).length =
      changes.foldl (Index.Edit.recount document)
        (log.ownedBy document).length := by
  induction changes generalizing log with
  | nil => rfl
  | cons change changes ih =>
      rw [List.foldl_cons, ih, length_ownedBy_edit, List.foldl_cons]

end Log

/-- A removal accounts for all declarations made for the document since it was
last removed.  If there are none, it says so and changes nothing.  Otherwise
its notice counts them, and the index loses just as many values. -/
theorem Index.remove_accounts (precedence : Precedence) (changes : List Edit)
    (document : DocumentId) :
    let index := (empty precedence).run changes
    let declared := Edit.declaredSince document changes
    (index.notices (.remove document) = [.nothingRemoved document] ∧
        index.remove document = index ↔ declared = 0) ∧
      (declared ≠ 0 →
        index.notices (.remove document) =
            [.contributionsRemoved document declared] ∧
          (index.remove document).stored + declared = index.stored) := by
  intro index declared
  have holds : index.Holds (changes.foldl Log.edit []) :=
    (holds_empty precedence).run changes
  have counted : ((changes.foldl Log.edit []).ownedBy document).length =
      declared := Log.length_ownedBy_run [] document changes
  have notice := holds.removalNotice_eq document
  have stored := holds.stored_remove document
  rw [counted] at notice stored
  have notices : index.notices (.remove document) =
      [index.removalNotice document] := rfl
  rw [notices, notice]
  refine ⟨⟨?_, ?_⟩, ?_⟩
  · rintro ⟨saysNothing, _⟩
    by_contra something
    rw [if_neg something] at saysNothing
    simp at saysNothing
  · intro nothing
    rw [if_pos nothing]
    exact ⟨rfl, holds.remove_eq_self (counted.trans nothing)⟩
  · intro something
    rw [if_neg something]
    exact ⟨rfl, stored⟩

/-- What was declared before the replacement does not count, and a declaration
that is repeated counts each time. -/
theorem Index.remove_accounts_replaced :
    let concat := Overload.binary .concat .string .string .string
    let changes : List Edit :=
      [.add ⟨1⟩ ⟨[concat], []⟩, .clear, .add ⟨2⟩ ⟨[concat], []⟩,
        .addFeature ⟨1⟩ "A" .aliasType,
        .replace ⟨1⟩ ⟨[concat, concat], [("A", .classType)]⟩,
        .addFeature ⟨1⟩ "A" .classType]
    let index := (empty .standard).run changes
    Edit.declaredSince ⟨1⟩ changes = 4 ∧
      index.notices (.remove ⟨1⟩) = [.contributionsRemoved ⟨1⟩ 4] ∧
      (index.remove ⟨1⟩).stored + 4 = index.stored := by
  intro concat changes index
  have counted : Edit.declaredSince ⟨1⟩ changes = 4 := rfl
  have accounts := (remove_accounts .standard changes ⟨1⟩).2
  rw [counted] at accounts
  exact ⟨counted, accounts (by decide)⟩

end LuaTyping
