import LuaTyping.Proofs.IndexLog
import LuaTyping.Store

/-!
# Surviving definitions

A store forgets how it came about.  All that counts of a history of changes is
which registrations survive it: those of a name that is not registered again,
of a document that is not dropped afterwards, in a store that is not cleared
afterwards.  A name may move to another document in this way, and then only
the document that registered it last can take it away.

The store after a history has the surviving definitions under their names and
nothing else, and every answer follows from that.  So it answers like a store
in which nothing but these definitions was ever registered, in whatever order.
Since queries read the declared supertypes off the store, this goes for
subtyping as well.
-/

namespace LuaTyping

namespace Store

namespace Edit

/-- What a change registers. -/
def declared : Edit → List Definition
  | .register definition => [definition]
  | .dropDocument _ | .clear => []

/-- Whether a definition in the store outlives a change. -/
def keeps : Edit → Definition → Bool
  | .register later, definition => later.name ≠ definition.name
  | .dropDocument document, definition => definition.document ≠ some document
  | .clear, _ => false

end Edit

/-- The store after a series of changes. -/
def run (store : Store) (changes : List Edit) : Store :=
  changes.foldl edit store

/-- The definitions whose registration survives: no later change registers
their name, drops their document or clears the store. -/
def surviving : List Edit → List Definition
  | [] => []
  | change :: later =>
      change.declared.filter
          (fun definition => later.all fun next => next.keeps definition) ++
        surviving later

/-- A store that has the given definitions under their names and nothing
else. -/
structure Holds (store : Store) (definitions : List Definition) : Prop where
  nodup : (definitions.map Definition.name).Nodup
  get?_iff : ∀ name definition, store.get? name = some definition ↔
    definition ∈ definitions ∧ definition.name = name

variable {store : Store} {definitions : List Definition}

theorem holds_empty : empty.Holds [] where
  nodup := List.nodup_nil
  get?_iff name definition := by simp [empty, Store.get?]

theorem Holds.register (holds : store.Holds definitions)
    (definition : Definition) :
    (store.register definition).Holds
      (definitions.filter (Edit.register definition).keeps ++ [definition]) where
  nodup := by
    rw [List.map_append, List.nodup_append]
    refine ⟨?_, by simp, ?_⟩
    · exact holds.nodup.sublist (List.filter_sublist.map Definition.name)
    · rintro _ keptName _ ownName rfl
      obtain ⟨kept, keptMem, rfl⟩ := List.mem_map.mp keptName
      have sameName : kept.name = definition.name := by simpa using ownName
      have outlives := (List.mem_filter.mp keptMem).2
      simp [Edit.keeps, sameName] at outlives
  get?_iff name found := by
    change (store.definitions.insert definition.name definition).get? name =
      some found ↔ _
    rw [Table.get?_insert, List.mem_append, List.mem_filter,
      List.mem_singleton]
    by_cases own : definition.name = name
    · subst own
      simp only [if_pos, Option.some.injEq]
      constructor
      · rintro rfl
        exact ⟨.inr rfl, rfl⟩
      · rintro ⟨⟨_, kept⟩ | rfl, sameName⟩
        · simp [Edit.keeps, sameName] at kept
        · rfl
    · rw [if_neg own]
      refine (holds.get?_iff name found).trans ?_
      constructor
      · rintro ⟨foundMem, rfl⟩
        exact ⟨.inl ⟨foundMem, by simpa [Edit.keeps] using own⟩, rfl⟩
      · rintro ⟨⟨foundMem, _⟩ | rfl, sameName⟩
        · exact ⟨foundMem, sameName⟩
        · exact absurd sameName own

theorem Holds.dropDocument (holds : store.Holds definitions)
    (document : DocumentId) :
    (store.dropDocument document).Holds
      (definitions.filter (Edit.dropDocument document).keeps) where
  nodup := holds.nodup.sublist (List.filter_sublist.map Definition.name)
  get?_iff name definition := by
    have stored := holds.get?_iff name definition
    rw [Store.get?, Table.get?_eq_some_iff] at stored
    rw [Store.get?, Table.get?_eq_some_iff]
    change (name, definition) ∈ store.definitions.entries.filter _ ↔ _
    rw [List.mem_filter, List.mem_filter, stored]
    exact and_right_comm

theorem Holds.edit (holds : store.Holds definitions) (change : Edit) :
    (store.edit change).Holds
      (definitions.filter change.keeps ++ change.declared) := by
  cases change with
  | register definition => exact holds.register definition
  | dropDocument document =>
      rw [Edit.declared, List.append_nil]
      exact holds.dropDocument document
  | clear =>
      have nothing : definitions.filter Edit.clear.keeps = [] :=
        List.filter_eq_nil_iff.mpr (by simp [Edit.keeps])
      rw [Edit.declared, nothing]
      exact holds_empty

theorem Holds.run (holds : store.Holds definitions) (changes : List Edit) :
    (store.run changes).Holds
      (definitions.filter
          (fun definition => changes.all fun change => change.keeps definition) ++
        surviving changes) := by
  induction changes generalizing store definitions with
  | nil =>
      change store.Holds _
      simpa [surviving] using holds
  | cons change later ih =>
      -- What survives of the change itself has to outlive the later ones.
      have rest := ih (holds.edit change)
      rw [List.filter_append, List.filter_filter, List.append_assoc] at rest
      change ((store.edit change).run later).Holds _
      simpa [surviving, Bool.and_comm] using rest

theorem holds_surviving (changes : List Edit) :
    (empty.run changes).Holds (surviving changes) :=
  holds_empty.run changes

/-- Registrations of different names all survive. -/
theorem surviving_registrations
    (nodup : (definitions.map Definition.name).Nodup) :
    surviving (definitions.map .register) = definitions := by
  induction definitions with
  | nil => rfl
  | cons definition definitions ih =>
      rw [List.map_cons, List.nodup_cons] at nodup
      have outlives : (definitions.map Edit.register).all
          (fun next => next.keeps definition) = true := by
        rw [List.all_map, List.all_eq_true]
        intro later laterMem
        simp only [Function.comp_apply, Edit.keeps, ne_eq, decide_eq_true_eq]
        intro sameName
        exact nodup.1 (sameName ▸ List.mem_map_of_mem laterMem)
      rw [List.map_cons, surviving, Edit.declared, ih nodup.2,
        List.filter_cons, if_pos outlives]
      rfl

theorem Holds.perm {others : List Definition}
    (holds : store.Holds definitions) (arranged : others.Perm definitions) :
    store.Holds others where
  nodup := (arranged.map Definition.name).nodup_iff.mpr holds.nodup
  get?_iff name definition := by
    rw [holds.get?_iff, arranged.mem_iff]

/-- At most one definition has a given name, and it is found there. -/
theorem Holds.filter_name (holds : store.Holds definitions) (name : Name) :
    (definitions.filter fun definition => definition.name = name) =
      (store.get? name).toList := by
  have named : ∀ definition,
      (definition ∈ definitions.filter fun definition =>
        definition.name = name) ↔ store.get? name = some definition := by
    intro definition
    rw [holds.get?_iff, List.mem_filter, decide_eq_true_eq]
  have nodup : (definitions.filter fun definition =>
      definition.name = name).Nodup := holds.nodup.of_map.filter _
  generalize (definitions.filter fun definition =>
    definition.name = name) = matching at named nodup
  cases found : store.get? name with
  | none =>
      apply List.eq_nil_iff_forall_not_mem.mpr
      intro definition definitionMem
      have lookup := (named definition).mp definitionMem
      rw [found] at lookup
      contradiction
  | some definition =>
      apply List.perm_singleton.mp
      apply (List.perm_ext_iff_of_nodup nodup (List.nodup_singleton _)).mpr
      intro other
      rw [named, found, Option.some.injEq, List.mem_singleton, eq_comm]

/-- The supertypes that a list of definitions declares for a name. -/
def supersIn (definitions : List Definition) (name : Name) : List Ty :=
  (definitions.filter fun definition => definition.name = name).flatMap
    Definition.supers

/-- A store whose answers are those of a list of definitions. -/
structure Keeps (store : Store) (definitions : List Definition) : Prop
    extends store.Holds definitions where
  contains_iff : ∀ name, store.contains name = true ↔
    ∃ definition ∈ definitions, definition.name = name
  size_eq : store.size = definitions.length
  isEmpty_iff : store.isEmpty = true ↔ definitions = []
  supers_eq : ∀ name, store.supers name = supersIn definitions name
  definition?_iff : ∀ type definition,
    store.definition? type = some definition ↔
      definition ∈ definitions ∧ type.declaredName? = some definition.name
  /-- Subtype queries follow the declared supertypes of the list. -/
  check_eq : ∀ limits source target,
    (store.context limits).check source target =
      Context.check { supers := supersIn definitions, limits } source target

theorem Holds.supers_eq (holds : store.Holds definitions) (name : Name) :
    store.supers name = supersIn definitions name := by
  unfold Store.supers supersIn
  rw [holds.filter_name]
  cases store.get? name <;> simp

theorem Holds.contains_iff (holds : store.Holds definitions) (name : Name) :
    store.contains name = true ↔
      ∃ definition ∈ definitions, definition.name = name := by
  rw [Store.contains, Table.contains, Option.isSome_iff_exists]
  exact exists_congr (holds.get?_iff name)

theorem Holds.size_eq (holds : store.Holds definitions) :
    store.size = definitions.length := by
  have sameNames :
      store.definitions.keys.Perm (definitions.map Definition.name) := by
    apply (List.perm_ext_iff_of_nodup store.definitions.keys_nodup
      holds.nodup).mpr
    intro name
    change name ∈ store.definitions.keys ↔ _
    simpa [Store.contains] using holds.contains_iff name
  have counted := sameNames.length_eq
  rwa [Table.keys, List.length_map, List.length_map] at counted

theorem Holds.keeps (holds : store.Holds definitions) :
    store.Keeps definitions where
  toHolds := holds
  contains_iff := holds.contains_iff
  size_eq := holds.size_eq
  isEmpty_iff := by
    rw [← List.length_eq_zero_iff, ← holds.size_eq]
    exact List.isEmpty_iff_length_eq_zero
  supers_eq := holds.supers_eq
  definition?_iff type definition := by
    rw [Store.definition?, Option.bind_eq_some_iff]
    constructor
    · rintro ⟨name, named, found⟩
      obtain ⟨definitionMem, rfl⟩ := (holds.get?_iff name definition).mp found
      exact ⟨definitionMem, named⟩
    · rintro ⟨definitionMem, named⟩
      exact ⟨definition.name, named,
        (holds.get?_iff _ _).mpr ⟨definitionMem, rfl⟩⟩
  check_eq limits source target := by
    rw [Store.context, funext holds.supers_eq]

/-- Two stores that no question can tell apart. -/
structure SameAnswers (first second : Store) : Prop where
  get? : ∀ name, first.get? name = second.get? name
  contains : ∀ name, first.contains name = second.contains name
  size : first.size = second.size
  isEmpty : first.isEmpty = second.isEmpty
  supers : ∀ name, first.supers name = second.supers name
  definition? : ∀ type, first.definition? type = second.definition? type
  /-- Subtype queries have the same answer, the same flag and the same
  record. -/
  check : ∀ limits source target,
    (first.context limits).check source target =
      (second.context limits).check source target

theorem sameAnswers_of_get? {first second : Store}
    (sameLookups : ∀ name, first.get? name = second.get? name) :
    first.SameAnswers second := by
  have contains : ∀ name, first.contains name = second.contains name :=
    fun name => congrArg Option.isSome (sameLookups name)
  have sameKeys : ∀ name,
      name ∈ first.definitions.keys ↔ name ∈ second.definitions.keys := by
    intro name
    simpa [Store.contains] using Bool.eq_iff_iff.mp (contains name)
  have size : first.size = second.size :=
    (Table.size_eq_card _ sameKeys).trans
      (Table.size_eq_card _ fun _ => Iff.rfl).symm
  have supers : ∀ name, first.supers name = second.supers name := by
    intro name
    rw [Store.supers, Store.supers, sameLookups]
  refine ⟨sameLookups, contains, size, ?_, supers, ?_, ?_⟩
  · unfold Store.isEmpty Table.isEmpty
    rw [Bool.eq_iff_iff, List.isEmpty_iff_length_eq_zero,
      List.isEmpty_iff_length_eq_zero]
    exact iff_of_eq (congrArg (· = 0) size)
  · intro type
    rw [Store.definition?, Store.definition?, funext sameLookups]
  · intro limits source target
    rw [Store.context, Store.context, funext supers]

theorem Holds.sameAnswers {first second : Store}
    (firstHolds : first.Holds definitions)
    (secondHolds : second.Holds definitions) : first.SameAnswers second := by
  apply sameAnswers_of_get?
  intro name
  ext definition
  rw [firstHolds.get?_iff, secondHolds.get?_iff]

/-- After any changes a store keeps the surviving definitions and nothing
else, and it answers like a fresh one in which only these were registered, in
any order. -/
theorem run_answers_as_surviving (changes : List Edit) :
    (empty.run changes).Keeps (surviving changes) ∧
      ∀ order : List Definition, order.Perm (surviving changes) →
        (empty.run changes).SameAnswers
          (empty.run (order.map .register)) := by
  have held := holds_surviving changes
  refine ⟨held.keeps, fun order arranged => ?_⟩
  have arrangedHeld := held.perm arranged
  have registered := holds_surviving (order.map .register)
  rw [surviving_registrations arrangedHeld.nodup] at registered
  exact arrangedHeld.sameAnswers registered

/-- A cat moves to another document before its first one is dropped, and the
root of all has no document. -/
theorem run_answers_as_surviving_moved :
    let cat : Definition :=
      { name := "Cat", supers := [.named "Pet"], document := some ⟨1⟩ }
    let dog : Definition := { name := "Dog", document := some ⟨1⟩ }
    let moved : Definition :=
      { name := "Cat", supers := [.named "Animal"], document := some ⟨2⟩ }
    let animal : Definition := { name := "Animal", supers := [.named "Root"] }
    let changes : List Edit :=
      [.register cat, .register dog, .register moved, .register animal,
        .dropDocument ⟨1⟩]
    let store := empty.run changes
    (store.get? "Cat" = some moved ∧ store.get? "Dog" = none ∧
        store.size = 2 ∧ store.supers "Cat" = [.named "Animal"]) ∧
      [animal, moved].Perm (surviving changes) ∧
      store.SameAnswers (empty.run [.register animal, .register moved]) := by
  intro cat dog moved animal changes store
  obtain ⟨keeps, sameAnswers⟩ := run_answers_as_surviving changes
  have survivors : surviving changes = [moved, animal] := rfl
  have arranged : [animal, moved].Perm (surviving changes) :=
    .swap moved animal []
  have movedFound : store.get? "Cat" = some moved :=
    (keeps.get?_iff "Cat" moved).mpr ⟨survivors ▸ List.mem_cons_self, rfl⟩
  exact ⟨⟨movedFound, rfl, keeps.size_eq, keeps.supers_eq "Cat"⟩, arranged,
    sameAnswers [animal, moved] arranged⟩

end Store

end LuaTyping
