/-!
# Insertion-ordered tables

A table is a finite map that remembers the order in which its keys first
appeared.  Storing a value under a key that is already present keeps the place
of the key; erasing a key keeps the order of the others.  Lookups see a map,
while enumerations and first-match queries see the order.
-/

namespace LuaTyping

/-- A finite map with its keys in the order of their first insertion. -/
structure Table (κ α : Type) where
  entries : List (κ × α)
  keys_nodup : (entries.map Prod.fst).Nodup

namespace Table

variable {κ α : Type}

/-- The table without entries. -/
def empty : Table κ α where
  entries := []
  keys_nodup := List.nodup_nil

instance : Inhabited (Table κ α) := ⟨empty⟩

/-- The keys in order of first insertion. -/
def keys (table : Table κ α) : List κ :=
  table.entries.map Prod.fst

/-- The values in the order of their keys. -/
def values (table : Table κ α) : List α :=
  table.entries.map Prod.snd

/-- Number of keys. -/
def size (table : Table κ α) : Nat :=
  table.entries.length

/-- Whether the table has no entry. -/
def isEmpty (table : Table κ α) : Bool :=
  table.entries.isEmpty

variable [DecidableEq κ]

/-- The value of the first entry under a key. -/
def find (key : κ) : List (κ × α) → Option α
  | [] => none
  | entry :: entries =>
      if entry.1 = key then some entry.2 else find key entries

/-- The value under a key. -/
def get? (table : Table κ α) (key : κ) : Option α :=
  find key table.entries

/-- Whether a key is present. -/
def contains (table : Table κ α) (key : κ) : Bool :=
  (table.get? key).isSome

/-- Store a value in the place of its key, or at the end if the key is new. -/
def put (key : κ) (value : α) : List (κ × α) → List (κ × α)
  | [] => [(key, value)]
  | entry :: entries =>
      if entry.1 = key then (key, value) :: entries
      else entry :: put key value entries

theorem map_fst_put (key : κ) (value : α) (entries : List (κ × α)) :
    (put key value entries).map Prod.fst =
      if key ∈ entries.map Prod.fst then entries.map Prod.fst
      else entries.map Prod.fst ++ [key] := by
  induction entries with
  | nil => simp [put]
  | cons entry entries ih =>
      by_cases atKey : entry.1 = key
      · simp [put, atKey]
      · have notHere : ¬ key = entry.1 := fun equal => atKey equal.symm
        simp only [put, atKey, if_false, List.map_cons, ih, List.mem_cons,
          notHere, false_or]
        split <;> simp

theorem find_put (key other : κ) (value : α) (entries : List (κ × α)) :
    find other (put key value entries) =
      if key = other then some value else find other entries := by
  induction entries with
  | nil => simp [put, find]
  | cons entry entries ih =>
      by_cases atKey : entry.1 = key
      · by_cases sought : key = other <;> simp [put, find, atKey, sought]
      · by_cases sought : entry.1 = other
        · subst sought
          have apart : ¬ key = entry.1 := fun equal => atKey equal.symm
          simp [put, find, atKey, apart]
        · simp [put, find, atKey, sought, ih]

theorem find_filter_ne (key other : κ) (entries : List (κ × α)) :
    find other (entries.filter fun entry => entry.1 ≠ key) =
      if key = other then none else find other entries := by
  induction entries with
  | nil => simp [find]
  | cons entry entries ih =>
      by_cases atKey : entry.1 = key
      · by_cases sought : key = other <;> simp_all [find]
      · by_cases sought : entry.1 = other
        · subst sought
          have apart : ¬ key = entry.1 := fun equal => atKey equal.symm
          simp [find, atKey, apart]
        · simp_all [find]

theorem find_isSome (key : κ) (entries : List (κ × α)) :
    (find key entries).isSome = true ↔ key ∈ entries.map Prod.fst := by
  induction entries with
  | nil => simp [find]
  | cons entry entries ih =>
      by_cases atKey : entry.1 = key
      · simp [find, atKey]
      · have notHere : ¬ key = entry.1 := fun equal => atKey equal.symm
        simp [find, atKey, notHere, ih]

theorem find_of_mem {entries : List (κ × α)}
    (nodup : (entries.map Prod.fst).Nodup) {entry : κ × α}
    (entryMem : entry ∈ entries) : find entry.1 entries = some entry.2 := by
  induction entries with
  | nil => simp at entryMem
  | cons first entries ih =>
      rw [List.map_cons, List.nodup_cons] at nodup
      rcases List.mem_cons.mp entryMem with rfl | later
      · simp [find]
      · have apart : ¬ first.1 = entry.1 := by
          intro equal
          exact nodup.1 (equal ▸ List.mem_map_of_mem later)
        rw [find, if_neg apart]
        exact ih nodup.2 later

theorem mem_of_find {key : κ} {value : α} {entries : List (κ × α)}
    (found : find key entries = some value) : (key, value) ∈ entries := by
  induction entries with
  | nil => simp [find] at found
  | cons entry entries ih =>
      rw [find] at found
      by_cases atKey : entry.1 = key
      · obtain rfl : entry.2 = value := by simpa [atKey] using found
        simp [← atKey]
      · rw [if_neg atKey] at found
        exact List.mem_cons_of_mem entry (ih found)

/-- Store a value under a key.  A new key comes last; a known key keeps its
place and loses its old value. -/
def insert (table : Table κ α) (key : κ) (value : α) : Table κ α where
  entries := put key value table.entries
  keys_nodup := by
    rw [map_fst_put]
    split
    · exact table.keys_nodup
    · rename_i absent
      refine List.nodup_append.mpr ⟨table.keys_nodup, by simp, ?_⟩
      intro first firstMem second secondMem equal
      have secondEq : second = key := by simpa using secondMem
      exact absent (secondEq ▸ equal ▸ firstMem)

/-- Keep the entries that a test accepts. -/
def filter (table : Table κ α) (keep : κ → α → Bool) : Table κ α where
  entries := table.entries.filter fun entry => keep entry.1 entry.2
  keys_nodup :=
    table.keys_nodup.sublist (List.filter_sublist.map Prod.fst)

/-- Drop a key with its value. -/
def erase (table : Table κ α) (key : κ) : Table κ α :=
  table.filter fun other _ => other ≠ key

/-- The table that holds the given pairs, of which later ones win. -/
def ofList (pairs : List (κ × α)) : Table κ α :=
  pairs.foldl (fun table pair => table.insert pair.1 pair.2) empty

@[simp]
theorem get?_empty (key : κ) : (empty : Table κ α).get? key = none :=
  rfl

theorem get?_eq_some_iff (table : Table κ α) {key : κ} {value : α} :
    table.get? key = some value ↔ (key, value) ∈ table.entries :=
  ⟨mem_of_find, find_of_mem table.keys_nodup⟩

/-- What holds of all entries holds of all that can be looked up. -/
theorem forall_entries (table : Table κ α) (holds : κ → α → Prop) :
    (∀ entry ∈ table.entries, holds entry.1 entry.2) ↔
      ∀ key value, table.get? key = some value → holds key value := by
  simp only [get?_eq_some_iff, Prod.forall]

@[simp]
theorem get?_insert (table : Table κ α) (key other : κ) (value : α) :
    (table.insert key value).get? other =
      if key = other then some value else table.get? other :=
  find_put key other value table.entries

theorem get?_foldl_insert {pairs : List (κ × α)}
    (nodup : (pairs.map Prod.fst).Nodup) (table : Table κ α) (key : κ) :
    (pairs.foldl (fun table pair => table.insert pair.1 pair.2) table).get?
        key = (find key pairs).or (table.get? key) := by
  induction pairs generalizing table with
  | nil => simp [find]
  | cons pair pairs ih =>
      rw [List.map_cons, List.nodup_cons] at nodup
      rw [List.foldl_cons, ih nodup.2, get?_insert, find]
      by_cases atKey : pair.1 = key
      · have absent : find key pairs = none := by
          rw [← Option.not_isSome_iff_eq_none, find_isSome, ← atKey]
          exact nodup.1
        simp [atKey, absent]
      · simp [atKey]

theorem get?_ofList {pairs : List (κ × α)}
    (nodup : (pairs.map Prod.fst).Nodup) (key : κ) :
    (ofList pairs).get? key = find key pairs := by
  rw [ofList, get?_foldl_insert nodup, get?_empty, Option.or_none]

@[simp]
theorem keys_insert (table : Table κ α) (key : κ) (value : α) :
    (table.insert key value).keys =
      if key ∈ table.keys then table.keys else table.keys ++ [key] :=
  map_fst_put key value table.entries

@[simp]
theorem get?_erase (table : Table κ α) (key other : κ) :
    (table.erase key).get? other =
      if key = other then none else table.get? other :=
  find_filter_ne key other table.entries

@[simp]
theorem keys_erase (table : Table κ α) (key : κ) :
    (table.erase key).keys = table.keys.filter (fun other => other ≠ key) := by
  simp [keys, erase, filter, List.filter_map, Function.comp_def]

@[simp]
theorem contains_iff_mem_keys (table : Table κ α) (key : κ) :
    table.contains key = true ↔ key ∈ table.keys :=
  find_isSome key table.entries

end Table

end LuaTyping
