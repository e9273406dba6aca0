import LuaTyping.Proofs.EntryLog

/-!
# Histories of an entry

Documents add values to an entry and withdraw them as a whole, in any
interleaving.  Next to the entry a log is kept, to which an addition appends
and from which the removal of a document deletes.  After every series of
changes the entry is the log, grouped by document: the groups stand in the
order in which their documents first appear in the log, and within a group the
order of the log is kept.

First-match queries depend on this order.  A document that comes back after
its removal therefore stands behind all others, and the removal of one document
does not move the others.
-/

namespace LuaTyping

namespace Entry

variable {α : Type}

/-- A change to an entry. -/
inductive Edit (α : Type) where
  | add (document : DocumentId) (value : α)
  | remove (document : DocumentId)
  deriving DecidableEq, Repr

/-- Carry out a change. -/
def edit (entry : Entry α) : Edit α → Entry α
  | .add document value => entry.add document value
  | .remove document => (entry.remove document).2

/-- The entry after a series of changes. -/
def run (entry : Entry α) (changes : List (Edit α)) : Entry α :=
  changes.foldl edit entry

end Entry

namespace Additions

variable {α : Type}

/-- Keep the log up with a change. -/
def edit (log : Additions α) : Entry.Edit α → Additions α
  | .add document value => log ++ [(document, value)]
  | .remove document => log.without document

/-- The additions that survive a series of changes. -/
def surviving (changes : List (Entry.Edit α)) : Additions α :=
  changes.foldl edit []

theorem length_valuesOf_add_without (log : Additions α)
    (document : DocumentId) :
    (log.valuesOf document).length + (log.without document).length =
      log.length := by
  unfold valuesOf without
  rw [List.length_map]
  simp only [ne_eq, decide_not]
  exact (List.length_eq_length_filter_add _).symm

private theorem idxOf_lt_concat {documents : List DocumentId}
    {known document : DocumentId} (knownMem : known ∈ documents)
    (fresh : document ∉ documents) :
    (documents ++ [document]).idxOf known <
      (documents ++ [document]).idxOf document := by
  have earlier := List.idxOf_lt_length_of_mem knownMem
  rw [List.idxOf_append_of_mem knownMem, List.idxOf_append_of_notMem fresh]
  omega

/-- Documents stand in the order of their first additions. -/
theorem documents_pairwise (log : Additions α) :
    log.documents.Pairwise fun earlier later =>
      (log.map Prod.fst).idxOf earlier < (log.map Prod.fst).idxOf later := by
  induction log using List.reverseRecOn with
  | nil => exact List.Pairwise.nil
  | append_singleton log addition ih =>
      obtain ⟨document, value⟩ := addition
      have logged : ∀ {known}, known ∈ documents log ↔
          known ∈ log.map Prod.fst := List.mem_eraseDups
      rw [documents_concat, List.map_append]
      -- A further addition leaves the first additions where they are.
      have kept : (documents log).Pairwise fun earlier later =>
          (log.map Prod.fst ++ [document]).idxOf earlier <
            (log.map Prod.fst ++ [document]).idxOf later := by
        apply ih.imp_of_mem
        intro earlier later earlierMem laterMem inOrder
        rw [List.idxOf_append_of_mem (logged.mp earlierMem),
          List.idxOf_append_of_mem (logged.mp laterMem)]
        exact inOrder
      split
      · exact kept
      · rename_i fresh
        apply List.pairwise_append.mpr
        refine ⟨kept, List.pairwise_singleton _ _, ?_⟩
        intro known knownMem latest latestMem
        obtain rfl : latest = document := List.mem_singleton.mp latestMem
        exact idxOf_lt_concat (logged.mp knownMem) (mt logged.mpr fresh)

end Additions

namespace Entry

variable {α : Type} {entry : Entry α} {log : Additions α}

theorem size_eq_length_values (entry : Entry α) :
    entry.size = entry.values.length := by
  unfold size values
  induction entry.buckets.values with
  | nil => rfl
  | cons bucket buckets ih =>
      rw [List.foldr_cons, List.flatten_cons, List.length_append, ih]

theorem Holds.size_eq (holds : entry.Holds log) : entry.size = log.length := by
  rw [size_eq_length_values, holds.values_perm.length_eq, List.length_map]

/-- A removal counts what it deletes from the log. -/
theorem Holds.fst_remove (holds : entry.Holds log) (document : DocumentId) :
    (entry.remove document).1 + (log.without document).length =
      log.length := by
  change (entry.valuesOf document).length + _ = _
  rw [holds.valuesOf]
  exact log.length_valuesOf_add_without document

theorem Holds.edit (holds : entry.Holds log) (change : Edit α) :
    (entry.edit change).Holds (log.edit change) := by
  cases change with
  | add document value => exact holds.add document value
  | remove document => exact holds.remove document

theorem Holds.run (holds : entry.Holds log) (changes : List (Edit α)) :
    (entry.run changes).Holds (changes.foldl Additions.edit log) := by
  induction changes generalizing entry log with
  | nil => exact holds
  | cons change changes ih => exact ih (holds.edit change)

/-- After any changes an entry is a stable grouping of the surviving
additions.  It lists their documents in the order of first additions and for
every document its values in the order of the log; all its values, document by
document, are those of the log in another order.  It is as large as the log,
and empty together with it, and a removal counts the additions that it
deletes. -/
theorem run_groups_surviving (changes : List (Edit α)) :
    let entry := (empty : Entry α).run changes
    let log := Additions.surviving changes
    ((∀ document,
          document ∈ entry.documents ↔ ∃ value, (document, value) ∈ log) ∧
        entry.documents.Nodup ∧
        entry.documents.Pairwise fun earlier later =>
          (log.map Prod.fst).idxOf earlier <
            (log.map Prod.fst).idxOf later) ∧
      (∀ document, entry.valuesOf document =
        (log.filter fun addition => addition.1 = document).map Prod.snd) ∧
      (entry.values = entry.documents.flatMap entry.valuesOf ∧
        entry.values.Perm (log.map Prod.snd)) ∧
      (entry.size = log.length ∧ (entry.isEmpty = true ↔ log = []) ∧
        (entry.isEmpty = true ↔ entry.size = 0)) ∧
      ∀ document, (entry.remove document).1 + (log.without document).length =
        log.length := by
  intro entry log
  have holds : entry.Holds log := holds_empty.run changes
  refine ⟨⟨?_, entry.buckets.keys_nodup, ?_⟩, holds.valuesOf,
    ⟨?_, holds.values_perm⟩, ⟨holds.size_eq, holds.isEmpty_iff, ?_⟩,
    holds.fst_remove⟩
  · simp [holds.documents]
  · rw [holds.documents]
    exact log.documents_pairwise
  · rw [holds.values, Additions.grouped, holds.documents,
      funext holds.valuesOf]
  · rw [holds.isEmpty_iff, holds.size_eq, List.length_eq_zero_iff]

/-- A document that is removed and comes back stands behind the others. -/
example :
    let entry := (empty : Entry Char).run
      [.add ⟨1⟩ 'a', .add ⟨2⟩ 'b', .add ⟨3⟩ 'c', .add ⟨2⟩ 'd', .remove ⟨1⟩,
        .add ⟨1⟩ 'e', .add ⟨2⟩ 'f']
    entry.documents = [⟨2⟩, ⟨3⟩, ⟨1⟩] ∧
      entry.values = ['b', 'd', 'f', 'c', 'e'] := by
  decide

end Entry

end LuaTyping
