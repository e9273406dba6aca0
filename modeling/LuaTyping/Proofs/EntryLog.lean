import LuaTyping.Index.Entry
import Mathlib.Data.List.Induction
import Mathlib.Data.List.Nodup
import Mathlib.Data.List.Perm.Basic

/-!
# Entries as logs

An entry groups its values by document.  What it holds can be said without
groups: it is a log of additions, each with its document, from which removing
a document deletes the additions of that document.  The documents then stand
in the order of their first surviving addition, and every document has its
additions in the order of the log.
-/

namespace LuaTyping

/-- Additions of values by documents, oldest first. -/
abbrev Additions (α : Type) := List (DocumentId × α)

namespace Additions

variable {α : Type}

/-- The documents in the order of their first addition. -/
def documents (log : Additions α) : List DocumentId :=
  (log.map Prod.fst).eraseDups

/-- The values that a document added, in order. -/
def valuesOf (log : Additions α) (document : DocumentId) : List α :=
  (log.filter fun addition => addition.1 = document).map Prod.snd

/-- All values, document by document. -/
def grouped (log : Additions α) : List α :=
  log.documents.flatMap log.valuesOf

/-- The log without the additions of a document. -/
def without (log : Additions α) (document : DocumentId) : Additions α :=
  log.filter fun addition => addition.1 ≠ document

@[simp]
theorem mem_documents {log : Additions α} {document : DocumentId} :
    document ∈ log.documents ↔ ∃ value, (document, value) ∈ log := by
  simp [documents]

@[simp]
theorem mem_valuesOf {log : Additions α} {document : DocumentId} {value : α} :
    value ∈ log.valuesOf document ↔ (document, value) ∈ log := by
  simp [valuesOf]

@[simp]
theorem mem_grouped {log : Additions α} {value : α} :
    value ∈ log.grouped ↔ ∃ document, (document, value) ∈ log := by
  simp only [grouped, List.mem_flatMap, mem_documents, mem_valuesOf]
  constructor
  · rintro ⟨document, _, addition⟩
    exact ⟨document, addition⟩
  · rintro ⟨document, addition⟩
    exact ⟨document, ⟨value, addition⟩, addition⟩

@[simp]
theorem documents_eq_nil {log : Additions α} :
    log.documents = [] ↔ log = [] := by
  cases log with
  | nil => simp [documents]
  | cons addition log => simp [documents, List.eraseDups_cons]

private theorem eraseDups_concat (documents : List DocumentId)
    (document : DocumentId) :
    (documents ++ [document]).eraseDups =
      if document ∈ documents then documents.eraseDups
      else documents.eraseDups ++ [document] := by
  rw [List.eraseDups_append]
  split <;> simp_all [List.removeAll, List.eraseDups_cons]

private theorem eraseDups_filter_ne (documents : List DocumentId)
    (document : DocumentId) :
    (documents.filter fun other => other ≠ document).eraseDups =
      documents.eraseDups.filter fun other => other ≠ document := by
  induction documents using List.reverseRecOn with
  | nil => rfl
  | append_singleton documents last ih =>
      rw [List.filter_append, eraseDups_concat]
      by_cases dropped : last = document
      · have nothing : [last].filter (fun other => other ≠ document) = [] := by
          simp [dropped]
        rw [nothing, List.append_nil, ih]
        split <;> simp [dropped]
      · have kept : [last].filter (fun other => other ≠ document) = [last] := by
          simp [dropped]
        rw [kept, eraseDups_concat, ih]
        by_cases known : last ∈ documents <;> simp [known, dropped]

@[simp]
theorem documents_concat (log : Additions α) (document : DocumentId)
    (value : α) :
    documents (log ++ [(document, value)]) =
      if document ∈ log.documents then log.documents
      else log.documents ++ [document] := by
  simp only [documents, List.map_append, List.map_cons, List.map_nil,
    eraseDups_concat, List.mem_eraseDups]

@[simp]
theorem valuesOf_concat (log : Additions α) (document other : DocumentId)
    (value : α) :
    valuesOf (log ++ [(document, value)]) other =
      if document = other then log.valuesOf other ++ [value]
      else log.valuesOf other := by
  by_cases own : document = other <;> simp [valuesOf, own]

@[simp]
theorem documents_without (log : Additions α) (document : DocumentId) :
    (log.without document).documents =
      log.documents.filter fun other => other ≠ document := by
  rw [documents, documents, ← eraseDups_filter_ne, List.filter_map]
  rfl

@[simp]
theorem valuesOf_without (log : Additions α) (document other : DocumentId) :
    (log.without document).valuesOf other =
      if document = other then [] else log.valuesOf other := by
  unfold without valuesOf
  rw [List.filter_filter]
  by_cases own : document = other
  · subst own
    simp
  · rw [if_neg own]
    congr 2
    funext addition
    by_cases here : addition.1 = other
    · simp [here, Ne.symm own]
    · simp [here]

end Additions

namespace Table

variable {κ α : Type} [DecidableEq κ]

/-- The values are what looking up the keys yields. -/
theorem map_get?_keys (table : Table κ α) :
    table.keys.map table.get? = table.values.map some := by
  unfold keys values
  rw [List.map_map, List.map_map]
  refine List.map_congr_left fun entry entryMem => ?_
  exact find_of_mem table.keys_nodup entryMem

end Table

/-- The groups of a list under different keys make up the list, if every
element has one of the keys. -/
theorem groups_perm {α κ : Type} [DecidableEq κ] (keyOf : α → κ)
    {keys : List κ} (nodup : keys.Nodup) {elements : List α}
    (covered : ∀ element ∈ elements, keyOf element ∈ keys) :
    (keys.flatMap fun key =>
      elements.filter fun element => keyOf element = key).Perm elements := by
  induction keys generalizing elements with
  | nil =>
      obtain rfl : elements = [] := by
        apply List.eq_nil_iff_forall_not_mem.mpr
        intro element elementMem
        exact List.not_mem_nil (covered element elementMem)
      rfl
  | cons key keys ih =>
      rw [List.nodup_cons] at nodup
      have othersCovered :
          ∀ element ∈ elements.filter fun other => !decide (keyOf other = key),
            keyOf element ∈ keys := by
        intro element elementMem
        obtain ⟨inElements, notFirst⟩ := List.mem_filter.mp elementMem
        rcases List.mem_cons.mp (covered element inElements) with first | later
        · simp [first] at notFirst
        · exact later
      -- The later groups lack nothing when the first one is taken out.
      have laterGroups : (keys.flatMap fun later =>
            (elements.filter fun other => !decide (keyOf other = key)).filter
              fun element => keyOf element = later) =
          keys.flatMap fun later =>
            elements.filter fun element => keyOf element = later := by
        refine List.flatMap_congr fun later laterMem => ?_
        have notFirst : later ≠ key := fun equal => nodup.1 (equal ▸ laterMem)
        rw [List.filter_filter]
        refine List.filter_congr fun element _ => ?_
        by_cases here : keyOf element = later <;> simp [here, notFirst]
      have others := ih nodup.2 othersCovered
      rw [laterGroups] at others
      rw [List.flatMap_cons]
      exact (others.append_left _).trans (List.filter_append_perm _ elements)

namespace Entry

variable {α : Type} {entry : Entry α} {log : Additions α}

/-- An entry that holds the additions of a log and nothing else. -/
structure Holds (entry : Entry α) (log : Additions α) : Prop where
  documents : entry.documents = log.documents
  valuesOf : ∀ document, entry.valuesOf document = log.valuesOf document

theorem holds_empty : (empty : Entry α).Holds [] :=
  ⟨rfl, fun _ => rfl⟩

theorem Holds.add (holds : entry.Holds log) (document : DocumentId)
    (value : α) :
    (entry.add document value).Holds (log ++ [(document, value)]) where
  documents := by
    rw [Additions.documents_concat, ← holds.documents]
    exact entry.buckets.keys_insert document _
  valuesOf other := by
    by_cases own : document = other <;>
      simp [own, ← holds.valuesOf, Entry.valuesOf, Entry.add]

theorem Holds.remove (holds : entry.Holds log) (document : DocumentId) :
    (entry.remove document).2.Holds (log.without document) where
  documents := by
    rw [Additions.documents_without, ← holds.documents]
    exact entry.buckets.keys_erase document
  valuesOf other := by
    by_cases own : document = other <;>
      simp [own, ← holds.valuesOf, Entry.valuesOf, Entry.remove]

theorem Holds.values (holds : entry.Holds log) :
    entry.values = log.grouped := by
  have lookups : entry.documents.map entry.valuesOf =
      entry.buckets.values := by
    have found := congrArg (List.map fun bucket => Option.getD bucket [])
      entry.buckets.map_get?_keys
    rw [List.map_map, List.map_map] at found
    exact found.trans (List.map_id _)
  rw [Additions.grouped, ← holds.documents, ← funext holds.valuesOf,
    List.flatMap_def]
  exact congrArg List.flatten lookups.symm

theorem Holds.values_perm (holds : entry.Holds log) :
    entry.values.Perm (log.map Prod.snd) := by
  have nodup : log.documents.Nodup := by
    rw [← holds.documents]
    exact entry.buckets.keys_nodup
  have grouped : log.grouped = (log.documents.flatMap fun document =>
      log.filter fun addition => addition.1 = document).map Prod.snd := by
    rw [List.map_flatMap]
    rfl
  rw [holds.values, grouped]
  refine (groups_perm Prod.fst nodup fun addition additionMem => ?_).map _
  exact Additions.mem_documents.mpr ⟨addition.2, additionMem⟩

theorem Holds.isEmpty_iff (holds : entry.Holds log) :
    entry.isEmpty = true ↔ log = [] := by
  rw [← Additions.documents_eq_nil, ← holds.documents]
  simp [Entry.isEmpty, Table.isEmpty, Entry.documents, Table.keys]

end Entry

end LuaTyping
