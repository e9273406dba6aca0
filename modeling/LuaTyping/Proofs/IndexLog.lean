import LuaTyping.Index.Query
import LuaTyping.Proofs.EntryLog
import Mathlib.Data.Finset.Card

/-!
# The type index as a log

Three tables make up an index: overloads by kind, features by name, and the
keys that each document has touched.  Together they stand for a flat log of
declarations, to which additions are appended and from which removing a
document deletes its declarations.  Removal only visits the touched keys, so
the log determines the tables only as long as the reverse index is exact;
that is part of what every change preserves.

Both groupings are filed in the same way, so the argument is made once for
values of any type under keys of any type.
-/

namespace LuaTyping

/-- Values filed under keys by documents, oldest first. -/
abbrev Filings (κ α : Type) := List (κ × DocumentId × α)

namespace Filings

variable {κ α : Type} [DecidableEq κ]

/-- What is filed under a key. -/
def under (filings : Filings κ α) (key : κ) : Additions α :=
  (filings.filter fun filing => filing.1 = key).map Prod.snd

@[simp]
theorem mem_under {filings : Filings κ α} {key : κ}
    {addition : DocumentId × α} :
    addition ∈ filings.under key ↔ (key, addition) ∈ filings := by
  simp [under]

theorem under_ne_nil {filings : Filings κ α} {key : κ} :
    filings.under key ≠ [] ↔ key ∈ filings.map Prod.fst := by
  simp [under, List.filter_eq_nil_iff]

@[simp]
theorem under_concat (filings : Filings κ α) (key other : κ)
    (addition : DocumentId × α) :
    under (filings ++ [(key, addition)]) other =
      if key = other then filings.under other ++ [addition]
      else filings.under other := by
  by_cases here : key = other <;> simp [under, here]

/-- The filings without those of a document under some keys. -/
def withdrawn (filings : Filings κ α) (document : DocumentId)
    (keys : List κ) : Filings κ α :=
  filings.filter fun filing =>
    ¬ (filing.1 ∈ keys ∧ filing.2.1 = document)

@[simp]
theorem under_withdrawn (filings : Filings κ α) (document : DocumentId)
    (key other : κ) :
    (filings.withdrawn document [key]).under other =
      if key = other then (filings.under other).without document
      else filings.under other := by
  unfold withdrawn under Additions.without
  by_cases here : key = other
  · subst here
    rw [if_pos rfl, List.filter_map, List.filter_filter, List.filter_filter]
    refine congrArg (List.map Prod.snd) (List.filter_congr ?_)
    intro filing _
    by_cases filed : filing.1 = key <;> simp [filed]
  · rw [if_neg here, List.filter_filter]
    refine congrArg (List.map Prod.snd) (List.filter_congr ?_)
    intro filing _
    by_cases filed : filing.1 = other
    · simp [filed, Ne.symm here]
    · simp [filed]

theorem withdrawn_cons (filings : Filings κ α) (document : DocumentId)
    (key : κ) (keys : List κ) :
    (filings.withdrawn document [key]).withdrawn document keys =
      filings.withdrawn document (key :: keys) := by
  unfold withdrawn
  rw [List.filter_filter]
  refine List.filter_congr fun filing _ => ?_
  by_cases own : filing.2.1 = document <;> simp [own, Bool.and_comm]

/-- The filings without those of a document. -/
def without (filings : Filings κ α) (document : DocumentId) : Filings κ α :=
  filings.filter fun filing => filing.2.1 ≠ document

theorem withdrawn_eq_without {filings : Filings κ α} {document : DocumentId}
    {keys : List κ}
    (touched : ∀ filing ∈ filings, filing.2.1 = document → filing.1 ∈ keys) :
    filings.withdrawn document keys = filings.without document := by
  refine List.filter_congr fun filing filingMem => ?_
  by_cases own : filing.2.1 = document
  · simp [own, touched filing filingMem own]
  · simp [own]

end Filings

namespace Table

variable {κ α : Type}

theorem isEmpty_iff_keys (table : Table κ α) :
    table.isEmpty = true ↔ table.keys = [] := by
  simp [isEmpty, keys]

theorem size_eq_card [DecidableEq κ] (table : Table κ α) {keys : List κ}
    (sameKeys : ∀ key, key ∈ table.keys ↔ key ∈ keys) :
    table.size = keys.toFinset.card := by
  have sameSet : table.keys.toFinset = keys.toFinset := by
    ext key
    rw [List.mem_toFinset, List.mem_toFinset, sameKeys]
  calc
    table.size = table.keys.length := (List.length_map Prod.fst).symm
    _ = table.keys.toFinset.card :=
      (List.toFinset_card_of_nodup table.keys_nodup).symm
    _ = keys.toFinset.card := congrArg _ sameSet

end Table

/-- A place of a table that holds what a log says: nothing if the log is empty,
and otherwise an entry with its additions. -/
def Filed {α : Type} (place : Option (Entry α)) (log : Additions α) : Prop :=
  match place with
  | none => log = []
  | some entry => log ≠ [] ∧ entry.Holds log

namespace Filed

variable {α : Type} {place : Option (Entry α)} {log : Additions α}

theorem isSome_iff (filed : Filed place log) :
    place.isSome = true ↔ log ≠ [] := by
  cases place with
  | none => simpa [Filed] using filed
  | some entry => simpa using filed.1

theorem holds_getD (filed : Filed place log) :
    (place.getD .empty).Holds log := by
  cases place with
  | none =>
      obtain rfl : log = [] := filed
      exact Entry.holds_empty
  | some entry => exact filed.2

theorem values (filed : Filed place log) :
    (place.map Entry.values).getD [] = log.grouped := by
  cases place with
  | none =>
      obtain rfl : log = [] := filed
      rfl
  | some entry => exact filed.2.values

/-- Removing a document from an entry, which is dropped if nothing is left. -/
theorem remove (filed : Filed place log) (document : DocumentId) :
    Filed
      (place.bind fun entry =>
        if (entry.remove document).2.isEmpty then none
        else some (entry.remove document).2)
      (log.without document) := by
  cases place with
  | none =>
      obtain rfl : log = [] := filed
      rfl
  | some entry =>
      have rest := filed.2.remove document
      rw [Option.bind_some]
      split
      · rename_i isEmpty
        exact rest.isEmpty_iff.mp isEmpty
      · rename_i nonempty
        exact ⟨fun nothing => nonempty (rest.isEmpty_iff.mpr nothing), rest⟩

end Filed

/-- A table of entries that holds the given filings and nothing else. -/
def Files {κ α : Type} [DecidableEq κ] (entries : Table κ (Entry α))
    (filings : Filings κ α) : Prop :=
  ∀ key, Filed (entries.get? key) (filings.under key)

namespace Files

variable {κ α : Type} [DecidableEq κ] {entries : Table κ (Entry α)}
  {filings : Filings κ α}

theorem empty : Files (.empty : Table κ (Entry α)) [] :=
  fun _ => rfl

theorem file (files : Files entries filings) (key : κ)
    (document : DocumentId) (value : α) :
    Files (Index.file entries key document value)
      (filings ++ [(key, document, value)]) := by
  intro other
  unfold Index.file
  rw [Table.get?_insert, Filings.under_concat]
  by_cases here : key = other
  · subst here
    rw [if_pos rfl, if_pos rfl]
    exact ⟨by simp, (files key).holds_getD.add document value⟩
  · rw [if_neg here, if_neg here]
    exact files other

theorem get?_withdraw (document : DocumentId)
    (state : Nat × Table κ (Entry α)) (key other : κ) :
    (Index.withdraw document state key).2.get? other =
      if key = other then
        (state.2.get? other).bind fun entry =>
          if (entry.remove document).2.isEmpty then none
          else some (entry.remove document).2
      else state.2.get? other := by
  unfold Index.withdraw
  by_cases here : key = other
  · subst here
    rw [if_pos rfl]
    split
    · rename_i nothing
      rw [nothing, Option.bind_none]
    · rename_i entry found
      rw [found, Option.bind_some]
      dsimp only
      split <;> simp
  · rw [if_neg here]
    split
    · rfl
    · dsimp only
      split <;> simp [here]

theorem withdraw {state : Nat × Table κ (Entry α)}
    (files : Files state.2 filings) (document : DocumentId) (key : κ) :
    Files (Index.withdraw document state key).2
      (filings.withdrawn document [key]) := by
  intro other
  rw [get?_withdraw, Filings.under_withdrawn]
  split
  · exact (files other).remove document
  · exact files other

theorem withdrawAll {state : Nat × Table κ (Entry α)}
    (files : Files state.2 filings) (document : DocumentId) (keys : List κ) :
    Files (keys.foldl (Index.withdraw document) state).2
      (filings.withdrawn document keys) := by
  induction keys generalizing state filings with
  | nil => simpa [Filings.withdrawn] using files
  | cons key keys ih =>
      rw [← Filings.withdrawn_cons]
      exact ih (files.withdraw document key)

theorem values (files : Files entries filings) (key : κ) :
    ((entries.get? key).map Entry.values).getD [] =
      (filings.under key).grouped :=
  (files key).values

theorem mem_keys (files : Files entries filings) {key : κ} :
    key ∈ entries.keys ↔ key ∈ filings.map Prod.fst := by
  rw [← Table.contains_iff_mem_keys, Table.contains, (files key).isSome_iff,
    Filings.under_ne_nil]

theorem size (files : Files entries filings) :
    entries.size = (filings.map Prod.fst).toFinset.card :=
  entries.size_eq_card fun _ => files.mem_keys

theorem isEmpty_iff (files : Files entries filings) :
    entries.isEmpty = true ↔ filings = [] := by
  have sameKeys : entries.keys = [] ↔ filings.map Prod.fst = [] := by
    rw [List.eq_nil_iff_forall_not_mem, List.eq_nil_iff_forall_not_mem]
    exact forall_congr' fun key => not_congr files.mem_keys
  rw [entries.isEmpty_iff_keys, sameKeys, List.map_eq_nil_iff]

end Files

/-- A declaration of a document: an overload, or a feature of a name. -/
inductive Record where
  | operator (document : DocumentId) (overload : Overload)
  | feature (document : DocumentId) (name : Name) (feature : Feature)

namespace Record

/-- The document that made a declaration. -/
def document : Record → DocumentId
  | .operator document _ => document
  | .feature document _ _ => document

/-- How a declaration is filed among the overloads. -/
def overload? : Record → Option (OperatorKind × DocumentId × Overload)
  | .operator document overload => some (overload.kind, document, overload)
  | .feature _ _ _ => none

/-- How a declaration is filed among the features. -/
def feature? : Record → Option (Name × DocumentId × Feature)
  | .operator _ _ => none
  | .feature document name declared => some (name, document, declared)

end Record

/-- Declarations in the order in which they were made. -/
abbrev Log := List Record

namespace Log

/-- The overloads of a log, filed under their kinds. -/
def overloads (log : Log) : Filings OperatorKind Overload :=
  log.filterMap Record.overload?

/-- The features of a log, filed under the names they are declared for. -/
def features (log : Log) : Filings Name Feature :=
  log.filterMap Record.feature?

/-- The log without the declarations of a document. -/
def without (log : Log) (document : DocumentId) : Log :=
  log.filter fun record => record.document ≠ document

/-- The declarations of the documents that a test accepts. -/
def only (log : Log) (keep : DocumentId → Bool) : Log :=
  log.filter fun record => keep record.document

/-- The declarations of a batch, overloads first. -/
def batch (document : DocumentId) (contributions : Contributions) : Log :=
  contributions.operators.map (.operator document) ++
    contributions.features.map fun declared =>
      .feature document declared.1 declared.2

/-- Carry out a change of an index on a log. -/
def edit (log : Log) : Index.Edit → Log
  | .addOperator document overload => log ++ [.operator document overload]
  | .addFeature document name feature =>
      log ++ [.feature document name feature]
  | .add document contributions => log ++ batch document contributions
  | .replace document contributions =>
      log.without document ++ batch document contributions
  | .remove document => log.without document
  | .clear => []

variable {log : Log} {document : DocumentId}

theorem without_eq_self
    (others : ∀ record ∈ log, record.document ≠ document) :
    log.without document = log := by
  refine List.filter_eq_self.mpr fun record recordMem => ?_
  exact decide_eq_true (others record recordMem)

@[simp]
theorem mem_overloads {kind : OperatorKind} {overload : Overload} :
    (kind, document, overload) ∈ log.overloads ↔
      .operator document overload ∈ log ∧ overload.kind = kind := by
  simp only [overloads, List.mem_filterMap]
  constructor
  · rintro ⟨record, recordMem, filed⟩
    cases record with
    | operator =>
        simp only [Record.overload?, Option.some.injEq, Prod.mk.injEq] at filed
        obtain ⟨kindEq, rfl, rfl⟩ := filed
        exact ⟨recordMem, kindEq⟩
    | feature => simp [Record.overload?] at filed
  · rintro ⟨recordMem, rfl⟩
    exact ⟨_, recordMem, rfl⟩

@[simp]
theorem mem_features {name : Name} {feature : Feature} :
    (name, document, feature) ∈ log.features ↔
      .feature document name feature ∈ log := by
  simp only [features, List.mem_filterMap]
  constructor
  · rintro ⟨record, recordMem, filed⟩
    cases record with
    | operator => simp [Record.feature?] at filed
    | feature =>
        simp only [Record.feature?, Option.some.injEq, Prod.mk.injEq] at filed
        obtain ⟨rfl, rfl, rfl⟩ := filed
        exact recordMem
  · intro recordMem
    exact ⟨_, recordMem, rfl⟩

/-- Singling out the declarations of some documents singles out what these
documents have filed. -/
theorem filterMap_only {κ α : Type}
    {file? : Record → Option (κ × DocumentId × α)}
    (attributed : ∀ record filing, file? record = some filing →
      filing.2.1 = record.document)
    (log : Log) (keep : DocumentId → Bool) :
    (log.only keep).filterMap file? =
      (log.filterMap file?).filter fun filing => keep filing.2.1 := by
  unfold only
  rw [List.filterMap_filter, List.filter_filterMap]
  refine List.filterMap_congr fun record _ => ?_
  cases filed : file? record with
  | none => simp
  | some filing =>
      have owner := attributed record filing filed
      by_cases kept : keep record.document <;>
        simp [Option.filter, owner, kept]

@[simp]
theorem overloads_only (log : Log) (keep : DocumentId → Bool) :
    (log.only keep).overloads =
      log.overloads.filter fun filing => keep filing.2.1 := by
  refine filterMap_only (fun record filing filed => ?_) log keep
  cases record with
  | operator =>
      obtain rfl := Option.some.inj filed
      rfl
  | feature => simp [Record.overload?] at filed

@[simp]
theorem features_only (log : Log) (keep : DocumentId → Bool) :
    (log.only keep).features =
      log.features.filter fun filing => keep filing.2.1 := by
  refine filterMap_only (fun record filing filed => ?_) log keep
  cases record with
  | operator => simp [Record.feature?] at filed
  | feature =>
      obtain rfl := Option.some.inj filed
      rfl

@[simp]
theorem overloads_without (log : Log) (document : DocumentId) :
    (log.without document).overloads = log.overloads.without document :=
  log.overloads_only fun other => other ≠ document

@[simp]
theorem features_without (log : Log) (document : DocumentId) :
    (log.without document).features = log.features.without document :=
  log.features_only fun other => other ≠ document

end Log

/-- A place of the reverse index that lists the keys which a document has
touched according to a log.  There is none for a document without
declarations. -/
structure Tracked (place : Option Touched) (log : Log)
    (document : DocumentId) : Prop where
  isSome_iff :
    place.isSome = true ↔ ∃ record ∈ log, record.document = document
  kinds : ∀ kind, kind ∈ (place.getD .empty).kinds ↔
    ∃ overload, .operator document overload ∈ log ∧ overload.kind = kind
  names : ∀ name, name ∈ (place.getD .empty).names ↔
    ∃ feature, .feature document name feature ∈ log

namespace Tracked

variable {place : Option Touched} {log : Log} {document : DocumentId}

theorem none_of_forall (others : ∀ record ∈ log, record.document ≠ document) :
    Tracked none log document where
  isSome_iff := by simpa using others
  kinds kind := by
    refine iff_of_false (by simp [Touched.empty]) ?_
    rintro ⟨overload, recordMem, _⟩
    exact others _ recordMem rfl
  names name := by
    refine iff_of_false (by simp [Touched.empty]) ?_
    rintro ⟨feature, recordMem⟩
    exact others _ recordMem rfl

/-- Only the declarations of the document itself matter. -/
theorem congr {other : Log} (tracked : Tracked place log document)
    (sameRecords : ∀ record : Record, record.document = document →
      (record ∈ other ↔ record ∈ log)) :
    Tracked place other document where
  isSome_iff := by
    rw [tracked.isSome_iff]
    constructor
    · rintro ⟨record, recordMem, own⟩
      exact ⟨record, (sameRecords record own).mpr recordMem, own⟩
    · rintro ⟨record, recordMem, own⟩
      exact ⟨record, (sameRecords record own).mp recordMem, own⟩
  kinds kind := by
    rw [tracked.kinds]
    exact exists_congr fun overload => and_congr_left fun _ =>
      (sameRecords (.operator document overload) rfl).symm
  names name := by
    rw [tracked.names]
    exact exists_congr fun feature =>
      (sameRecords (.feature document name feature) rfl).symm

theorem addKind (tracked : Tracked place log document)
    (overload : Overload) :
    Tracked (some ((place.getD .empty).addKind overload.kind))
      (log ++ [.operator document overload]) document where
  isSome_iff := by
    refine iff_of_true rfl ⟨.operator document overload, ?_, rfl⟩
    simp
  kinds kind := by
    rw [Option.getD_some, Touched.addKind, List.mem_insert_iff, tracked.kinds]
    constructor
    · rintro (rfl | ⟨earlier, recordMem, kindEq⟩)
      · exact ⟨overload, by simp, rfl⟩
      · exact ⟨earlier, by simp [recordMem], kindEq⟩
    · rintro ⟨declared, recordMem, kindEq⟩
      rcases List.mem_append.mp recordMem with earlier | last
      · exact .inr ⟨declared, earlier, kindEq⟩
      · simp only [List.mem_singleton, Record.operator.injEq, true_and] at last
        exact .inl (by rw [← kindEq, last])
  names name := by
    rw [Option.getD_some, Touched.addKind, tracked.names]
    simp

theorem addName (tracked : Tracked place log document) (name : Name)
    (feature : Feature) :
    Tracked (some ((place.getD .empty).addName name))
      (log ++ [.feature document name feature]) document where
  isSome_iff := by
    refine iff_of_true rfl ⟨.feature document name feature, ?_, rfl⟩
    simp
  kinds kind := by
    rw [Option.getD_some, Touched.addName, tracked.kinds]
    simp
  names other := by
    rw [Option.getD_some, Touched.addName, List.mem_insert_iff, tracked.names]
    constructor
    · rintro (rfl | ⟨earlier, recordMem⟩)
      · exact ⟨feature, by simp⟩
      · exact ⟨earlier, by simp [recordMem]⟩
    · rintro ⟨declared, recordMem⟩
      rcases List.mem_append.mp recordMem with earlier | last
      · exact .inr ⟨declared, earlier⟩
      · simp only [List.mem_singleton, Record.feature.injEq, true_and] at last
        exact .inl last.1

/-- A document has filed overloads under the listed kinds only. -/
theorem kinds_cover {keys : Touched}
    (tracked : Tracked (some keys) log document) :
    ∀ filing ∈ log.overloads, filing.2.1 = document →
      filing.1 ∈ keys.kinds := by
  rintro ⟨kind, _, overload⟩ filingMem rfl
  exact (tracked.kinds kind).mpr ⟨overload, Log.mem_overloads.mp filingMem⟩

/-- A document has filed features under the listed names only. -/
theorem names_cover {keys : Touched}
    (tracked : Tracked (some keys) log document) :
    ∀ filing ∈ log.features, filing.2.1 = document →
      filing.1 ∈ keys.names := by
  rintro ⟨name, _, feature⟩ filingMem rfl
  exact (tracked.names name).mpr ⟨feature, Log.mem_features.mp filingMem⟩

/-- A new declaration changes the place of its own document only. -/
theorem insert {touched : Table DocumentId Touched} {record : Record}
    {keys : Touched}
    (tracked : ∀ document, Tracked (touched.get? document) log document)
    (own : Tracked (some keys) (log ++ [record]) record.document)
    (other : DocumentId) :
    Tracked ((touched.insert record.document keys).get? other)
      (log ++ [record]) other := by
  rw [Table.get?_insert]
  by_cases isOwn : record.document = other
  · subst isOwn
    rw [if_pos rfl]
    exact own
  · rw [if_neg isOwn]
    refine (tracked other).congr fun earlier earlierOf => ?_
    have notLast : earlier ≠ record := by
      rintro rfl
      exact isOwn earlierOf
    simp [notLast]

end Tracked

namespace Index

/-- An index that holds the declarations of a log and nothing else. -/
structure Holds (index : Index) (log : Log) : Prop where
  operators : Files index.operatorEntries log.overloads
  features : Files index.featureEntries log.features
  touched : ∀ document, Tracked (index.touched.get? document) log document

variable {index : Index} {log : Log}

theorem holds_empty (precedence : Precedence) :
    (empty precedence).Holds [] where
  operators := .empty
  features := .empty
  touched _ := .none_of_forall (by simp)

theorem Holds.addOperator (holds : index.Holds log) (document : DocumentId)
    (overload : Overload) :
    (index.addOperator document overload).Holds
      (log ++ [.operator document overload]) where
  operators := by
    rw [Log.overloads, List.filterMap_append]
    exact holds.operators.file overload.kind document overload
  features := by
    have unchanged :
        Log.features (log ++ [.operator document overload]) = log.features := by
      rw [Log.features, List.filterMap_append]
      exact List.append_nil _
    rw [unchanged]
    exact holds.features
  touched :=
    .insert holds.touched ((holds.touched document).addKind overload)

theorem Holds.addFeature (holds : index.Holds log) (document : DocumentId)
    (name : Name) (feature : Feature) :
    (index.addFeature document name feature).Holds
      (log ++ [.feature document name feature]) where
  operators := by
    have unchanged : Log.overloads (log ++ [.feature document name feature]) =
        log.overloads := by
      rw [Log.overloads, List.filterMap_append]
      exact List.append_nil _
    rw [unchanged]
    exact holds.operators
  features := by
    rw [Log.features, List.filterMap_append]
    exact holds.features.file name document feature
  touched :=
    .insert holds.touched ((holds.touched document).addName name feature)

theorem Holds.addOperators (holds : index.Holds log) (document : DocumentId)
    (overloads : List Overload) :
    (overloads.foldl (fun index overload => index.addOperator document overload)
      index).Holds (log ++ overloads.map (.operator document)) := by
  induction overloads generalizing index log with
  | nil => simpa using holds
  | cons overload overloads ih =>
      have rest := ih (holds.addOperator document overload)
      rwa [List.append_assoc] at rest

theorem Holds.addFeatures (holds : index.Holds log) (document : DocumentId)
    (features : List (Name × Feature)) :
    (features.foldl
      (fun index declared => index.addFeature document declared.1 declared.2)
      index).Holds
      (log ++ features.map fun declared =>
        .feature document declared.1 declared.2) := by
  induction features generalizing index log with
  | nil => simpa using holds
  | cons declared features ih =>
      have rest := ih (holds.addFeature document declared.1 declared.2)
      rwa [List.append_assoc] at rest

theorem Holds.add (holds : index.Holds log) (document : DocumentId)
    (contributions : Contributions) :
    (index.add document contributions).Holds
      (log ++ Log.batch document contributions) := by
  rw [Log.batch, ← List.append_assoc]
  exact (holds.addOperators document contributions.operators).addFeatures
    document contributions.features

/-- Removing a document visits all that it has declared. -/
theorem Holds.remove (holds : index.Holds log) (document : DocumentId) :
    (index.remove document).Holds (log.without document) := by
  have tracked := holds.touched document
  unfold Index.remove Index.evict
  split
  · rename_i untouched
    rw [untouched] at tracked
    have unchanged : log.without document = log := by
      apply Log.without_eq_self
      intro record recordMem own
      have noRecord := mt tracked.isSome_iff.mpr (by simp)
      exact noRecord ⟨record, recordMem, own⟩
    rw [unchanged]
    exact holds
  · rename_i keys found
    rw [found] at tracked
    -- The document has filed nothing under keys that are not listed, so to
    -- withdraw it from the listed keys is to withdraw it altogether.
    refine ⟨?_, ?_, ?_⟩
    · rw [Log.overloads_without,
        ← Filings.withdrawn_eq_without tracked.kinds_cover]
      exact holds.operators.withdrawAll document keys.kinds
    · rw [Log.features_without,
        ← Filings.withdrawn_eq_without tracked.names_cover]
      exact holds.features.withdrawAll document keys.names
    · intro other
      dsimp only
      rw [Table.get?_erase]
      by_cases own : document = other
      · subst own
        rw [if_pos rfl]
        refine .none_of_forall fun record recordMem => ?_
        simpa using (List.mem_filter.mp recordMem).2
      · rw [if_neg own]
        refine (holds.touched other).congr fun record recordOf => ?_
        simp [Log.without, recordOf, Ne.symm own]

theorem Holds.edit (holds : index.Holds log) (change : Edit) :
    (index.edit change).Holds (log.edit change) := by
  cases change with
  | addOperator document overload => exact holds.addOperator document overload
  | addFeature document name feature =>
      exact holds.addFeature document name feature
  | add document contributions => exact holds.add document contributions
  | replace document contributions =>
      exact (holds.remove document).add document contributions
  | remove document => exact holds.remove document
  | clear => exact holds_empty index.precedence

/-- The index after a series of changes. -/
def run (index : Index) (changes : List Edit) : Index :=
  changes.foldl edit index

theorem Holds.run (holds : index.Holds log) (changes : List Edit) :
    (index.run changes).Holds (changes.foldl Log.edit log) := by
  induction changes generalizing index log with
  | nil => exact holds
  | cons change changes ih => exact ih (holds.edit change)

end Index

end LuaTyping
