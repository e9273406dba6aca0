import LuaTyping.Proofs.RepeatedInstantiation
import LuaTyping.Proofs.UnionMembers

/-!
# Instances of equal types

Instantiation respects equality: types that are the same, instantiated with
the same bindings, yield types that are the same.  Order and repetition of
union members and the indices of slots are lost on the result.

The step from the parts of a type to the type is stated for two substitutions
that bind the same parameters to types that are the same.  Unions need their
members to be formed, which holds of everything that instantiation returns.
-/

namespace LuaTyping

namespace Substitution

/-- Substitutions that bind the same parameters, to types that are the
same. -/
def Agrees (first second : Substitution) : Prop :=
  ∀ name, Option.Rel (fun type other => type.same other = true)
    (first.get? name) (second.get? name)

theorem agrees_refl (substitution : Substitution) :
    substitution.Agrees substitution := by
  intro name
  cases substitution.get? name with
  | none => exact .none
  | some type => exact .some type.same_refl

variable {first second : Substitution} (agrees : first.Agrees second)
  (name : Name)

include agrees

theorem Agrees.insert {type other : Ty} (same : type.same other = true) :
    Agrees (first.insert name type) (second.insert name other) := by
  intro sought
  rw [Table.get?_insert, Table.get?_insert]
  split
  · exact .some same
  · exact agrees sought

theorem Agrees.unbound_or_bound :
    (first.get? name = none ∧ second.get? name = none) ∨
      ∃ type other, first.get? name = some type ∧
        second.get? name = some other ∧ type.same other = true := by
  have lookups := agrees name
  generalize first.get? name = found, second.get? name = other at lookups ⊢
  cases lookups with
  | none => exact .inl ⟨rfl, rfl⟩
  | some same => exact .inr ⟨_, _, rfl, rfl, same⟩

theorem Agrees.atName_same :
    (first.atName name).same (second.atName name) = true := by
  rw [atName, atName]
  rcases agrees.unbound_or_bound name with
    ⟨unbound, otherUnbound⟩ | ⟨type, other, bound, otherBound, same⟩
  · simp [unbound, otherUnbound]
  · rw [bound, otherBound]
    exact same

theorem Agrees.atExpand_same :
    (first.atExpand name).same (second.atExpand name) = true := by
  rw [atExpand, atExpand]
  rcases agrees.unbound_or_bound name with
    ⟨unbound, otherUnbound⟩ | ⟨type, other, bound, otherBound, same⟩
  · simp [unbound, otherUnbound]
  · rw [bound, otherBound]
    cases Ty.same_iff_alike.mp same with
    | results types => exact same
    | repeating base => exact same
    | _ => exact Ty.same_refl _

theorem Agrees.atBase_eq : first.atBase name = second.atBase name := by
  rw [atBase, atBase]
  rcases agrees.unbound_or_bound name with
    ⟨unbound, otherUnbound⟩ | ⟨type, other, bound, otherBound, same⟩
  · rw [unbound, otherUnbound]
  · rw [bound, otherBound, Option.bind_some, Option.bind_some,
      Ty.declaredName?_of_same same]

omit agrees

/-- Arguments that are the same, position by position, make substitutions that
agree. -/
theorem agrees_ofArguments (parameters : List Name)
    {arguments others : List Ty}
    (same : List.Forall₂ (fun type other => type.same other = true)
      arguments others) :
    (ofArguments parameters arguments).Agrees
      (ofArguments parameters others) := by
  -- After the first argument the tables are no longer empty, so the induction
  -- is over any two substitutions that agree.
  have bindRest : ∀ first second : Substitution, first.Agrees second →
      Agrees
        ((parameters.zip arguments).foldl
          (fun table pair => table.insert pair.1 pair.2) first)
        ((parameters.zip others).foldl
          (fun table pair => table.insert pair.1 pair.2) second) := by
    induction same generalizing parameters with
    | nil => simp
    | cons head tail ih =>
        cases parameters with
        | nil => simp
        | cons parameter parameters =>
            intro first second agrees
            exact ih parameters _ _ (agrees.insert parameter head)
  exact bindRest _ _ (agrees_refl _)

end Substitution

/-- Slots that hold types which are the same. -/
abbrev Slot.Same (first second : Slot Ty) : Prop :=
  first.type.same second.type = true

theorem spreadLast_singleton_same {first second : Slot Ty}
    {firsts seconds : List (Slot Ty)} (same : first.Same second)
    (spreads : spreadLast [first] = .ok firsts)
    (otherSpreads : spreadLast [second] = .ok seconds) :
    List.Forall₂ Slot.Same firsts seconds := by
  obtain ⟨index, type, origin⟩ := first
  obtain ⟨otherIndex, other, otherOrigin⟩ := second
  cases Ty.same_iff_alike.mp same with
  | @results types others sameTypes =>
      have typesEq : firsts.map Slot.type = types := types_placeResults spreads
      have othersEq : seconds.map Slot.type = others :=
        types_placeResults otherSpreads
      rw [← typesEq, ← othersEq, List.forall₂_map_left_iff,
        List.forall₂_map_right_iff] at sameTypes
      exact sameTypes
  | repeating sameBase =>
      obtain rfl := Except.ok.inj spreads
      obtain rfl := Except.ok.inj otherSpreads
      exact .nil
  | _ =>
      obtain rfl := Except.ok.inj spreads
      obtain rfl := Except.ok.inj otherSpreads
      exact .cons same .nil

theorem spreadLast_same {firsts seconds spread otherSpread : List (Slot Ty)}
    (same : List.Forall₂ Slot.Same firsts seconds)
    (spreads : spreadLast firsts = .ok spread)
    (otherSpreads : spreadLast seconds = .ok otherSpread) :
    List.Forall₂ Slot.Same spread otherSpread := by
  induction same generalizing spread otherSpread with
  | nil =>
      obtain rfl := Except.ok.inj spreads
      obtain rfl := Except.ok.inj otherSpreads
      exact .nil
  | cons head tail ih =>
      cases tail with
      | nil => exact spreadLast_singleton_same head spreads otherSpreads
      | cons next rest =>
          rw [spreadLast] at spreads otherSpreads
          obtain ⟨later, spreadsLater, rfl⟩ := bind_pure_eq_ok.mp spreads
          obtain ⟨otherLater, otherSpreadsLater, rfl⟩ :=
            bind_pure_eq_ok.mp otherSpreads
          exact .cons head (ih spreadsLater otherSpreadsLater)

namespace Ty

instance : DecidablePred Substitution.Formed := fun substitution =>
  decidable_of_iff (∀ entry ∈ substitution.entries, entry.2.WellFormed)
    (substitution.forall_entries fun _ type => type.WellFormed)

theorem wellFormed_of_mentioned {substitution : Substitution} {type result : Ty}
    (formed : ∀ name replacement, type.Mentions name →
      substitution.get? name = some replacement → replacement.WellFormed)
    (succeeds : type.instantiate substitution = .ok result) :
    result.WellFormed := by
  apply wellFormed_of_merged
  refine forall_nodes_of_instantiate ?_ ?_ ?_ succeeds
  · intro name nameMem
    apply WellFormed.merged
    rw [Substitution.atName]
    cases found : substitution.get? name with
    | none => exact .named name
    | some replacement =>
        exact formed name replacement ⟨_, nameMem, rfl⟩ found
  · intro name nameMem
    apply WellFormed.merged
    rcases substitution.atExpand_eq_or name with kept | found
    · rw [kept]
      exact .expand name
    · exact formed name _ ⟨_, nameMem, rfl⟩ found
  · intro node _ notNamed notExpand made rebuilds
    cases instantiated_of_eq_ok rebuilds with
    | named name => exact absurd rfl notNamed
    | expand name => exact absurd rfl notExpand
    | union ofMembers => exact distinctFrom_pairwise [] _
    | _ => trivial

theorem wellFormed_of_instantiate {substitution : Substitution}
    (formed : substitution.Formed) {type result : Ty}
    (succeeds : type.instantiate substitution = .ok result) :
    result.WellFormed :=
  wellFormed_of_mentioned (fun name replacement _ => formed name replacement)
    succeeds

theorem wellFormed_instances {substitution : Substitution}
    (formed : substitution.Formed) {types instances : List Ty}
    (ofTypes : List.Forall₂ (InstantiatesTo substitution) types instances) :
    ∀ result ∈ instances, result.WellFormed := by
  intro result resultMem
  obtain ⟨_, _, ofType⟩ := exists_of_mem_right ofTypes resultMem
  exact wellFormed_of_instantiate formed ofType

section Step

variable {first second : Substitution}

/-- Two types whose instances are the same, if there are any. -/
def SameInstances (first second : Substitution) (type other : Ty) : Prop :=
  ∀ result otherResult, type.instantiate first = .ok result →
    other.instantiate second = .ok otherResult →
      result.same otherResult = true

theorem forall₂_same_of_instances {types others instances otherInstances :
      List Ty}
    (paired : List.Forall₂ (SameInstances first second) types others)
    (ofTypes : List.Forall₂ (InstantiatesTo first) types instances)
    (ofOthers : List.Forall₂ (InstantiatesTo second) others otherInstances) :
    List.Forall₂ (fun result otherResult => result.same otherResult = true)
      instances otherInstances := by
  induction paired generalizing instances otherInstances with
  | nil =>
      cases ofTypes
      cases ofOthers
      exact .nil
  | cons head tail ih =>
      cases ofTypes with
      | cons ofType ofTypes =>
      cases ofOthers with
      | cons ofOther ofOthers =>
          exact .cons (head _ _ ofType ofOther) (ih ofTypes ofOthers)

theorem exists_same_instance {types others instances otherInstances : List Ty}
    (sameParts : ∀ type ∈ types, ∀ other ∈ others, type.same other = true →
      SameInstances first second type other)
    (included : ∀ type ∈ types, ∃ other ∈ others, type.same other = true)
    (ofTypes : List.Forall₂ (InstantiatesTo first) types instances)
    (ofOthers : List.Forall₂ (InstantiatesTo second) others otherInstances) :
    ∀ result ∈ instances, ∃ otherResult ∈ otherInstances,
      result.same otherResult = true := by
  intro result resultMem
  obtain ⟨type, typeMem, ofType⟩ := exists_of_mem_right ofTypes resultMem
  obtain ⟨other, otherMem, same⟩ := included type typeMem
  obtain ⟨otherResult, otherResultMem, ofOther⟩ :=
    exists_of_mem_left ofOthers otherMem
  exact ⟨otherResult, otherResultMem, sameParts type typeMem other otherMem
    same result otherResult ofType ofOther⟩

theorem sameInstances_tuple {slots others : List (Slot Ty)}
    (paired : List.Forall₂ (SameInstances first second)
      (slots.map Slot.type) (others.map Slot.type)) :
    SameInstances first second (.tuple slots) (.tuple others) := by
  intro result otherResult succeeds otherSucceeds
  cases instantiated_of_eq_ok succeeds with
  | @tuple _ placed spread ofSlots spreads =>
  cases instantiated_of_eq_ok otherSucceeds with
  | @tuple _ otherPlaced otherSpread ofOthers otherSpreads =>
      have samePlaced := forall₂_same_of_instances paired
        (types_of_instantiates ofSlots) (types_of_instantiates ofOthers)
      rw [List.forall₂_map_left_iff, List.forall₂_map_right_iff] at samePlaced
      exact same_iff_alike.mpr
        (.tuple (spreadLast_same samePlaced spreads otherSpreads))

variable (firstFormed : first.Formed) (secondFormed : second.Formed)

include firstFormed secondFormed

theorem SameInstances.symm {type other : Ty}
    (paired : SameInstances first second type other) :
    SameInstances second first other type := by
  intro result otherResult succeeds otherSucceeds
  exact same_symm (wellFormed_of_instantiate firstFormed otherSucceeds)
    (wellFormed_of_instantiate secondFormed succeeds)
    (paired otherResult result otherSucceeds succeeds)

theorem sameInstances_union {members others : List Ty}
    (membersFormed : (Ty.union members).WellFormed)
    (othersFormed : (Ty.union others).WellFormed)
    (sameParts : ∀ member ∈ members, ∀ other ∈ others,
      member.same other = true → SameInstances first second member other)
    (same : (Ty.union members).same (.union others) = true) :
    SameInstances first second (.union members) (.union others) := by
  intro result otherResult succeeds otherSucceeds
  have sameBack : ∀ other ∈ others, ∀ member ∈ members,
      other.same member = true → SameInstances second first other member := by
    intro other otherMem member memberMem otherSame
    have memberSame := same_symm (othersFormed.of_part otherMem)
      (membersFormed.of_part memberMem) otherSame
    exact (sameParts member memberMem other otherMem memberSame).symm
      firstFormed secondFormed
  cases same_iff_alike.mp same with
  | union _ included =>
  cases same_iff_alike.mp (same_symm membersFormed othersFormed same) with
  | union _ covered =>
  cases instantiated_of_eq_ok succeeds with
  | union ofMembers =>
  cases instantiated_of_eq_ok otherSucceeds with
  | union ofOthers =>
      exact unionOf_same (wellFormed_instances firstFormed ofMembers)
        (wellFormed_instances secondFormed ofOthers)
        (exists_same_instance sameParts included ofMembers ofOthers)
        (exists_same_instance sameBack covered ofOthers ofMembers)

variable (agrees : first.Agrees second)

include agrees

/-- If equal parts have equal instances, so do equal types. -/
theorem sameInstances_of_parts {type other : Ty} (typeFormed : type.WellFormed)
    (otherFormed : other.WellFormed)
    (sameParts : ∀ part ∈ type.parts, ∀ counterpart ∈ other.parts,
      part.same counterpart = true →
        SameInstances first second part counterpart)
    (same : type.same other = true) :
    SameInstances first second type other := by
  intro result otherResult succeeds otherSucceeds
  cases same_iff_alike.mp same with
  | named name =>
      cases instantiated_of_eq_ok succeeds
      cases instantiated_of_eq_ok otherSucceeds
      exact agrees.atName_same name
  | expand name =>
      cases instantiated_of_eq_ok succeeds
      cases instantiated_of_eq_ok otherSucceeds
      exact agrees.atExpand_same name
  | union lengthEq included =>
      exact sameInstances_union firstFormed secondFormed typeFormed otherFormed
        sameParts same result otherResult succeeds otherSucceeds
  | @tuple slots others sameSlots =>
      have sameTypes : List.Forall₂ (fun type other => type.same other = true)
          (slots.map Slot.type) (others.map Slot.type) := by
        rw [List.forall₂_map_left_iff, List.forall₂_map_right_iff]
        exact sameSlots
      exact sameInstances_tuple (forall₂_imp_of_mem sameParts sameTypes)
        result otherResult succeeds otherSucceeds
  | @generic base _ _ arguments =>
      cases instantiated_of_eq_ok succeeds with
      | generic _ ofArguments =>
      cases instantiated_of_eq_ok otherSucceeds with
      | generic _ ofOthers =>
          rw [agrees.atBase_eq base]
          exact same_iff_alike.mpr (.generic (forall₂_same_of_instances
            (forall₂_imp_of_mem sameParts arguments) ofArguments ofOthers))
  | results types =>
      cases instantiated_of_eq_ok succeeds with
      | results ofTypes =>
      cases instantiated_of_eq_ok otherSucceeds with
      | results ofOthers =>
          exact same_iff_alike.mpr (.results (forall₂_same_of_instances
            (forall₂_imp_of_mem sameParts types) ofTypes ofOthers))
  | array element =>
      cases instantiated_of_eq_ok succeeds with
      | array ofElement =>
      cases instantiated_of_eq_ok otherSucceeds with
      | array ofOther =>
          exact same_iff_alike.mpr (.array (sameParts _ List.mem_cons_self _
            List.mem_cons_self element _ _ ofElement ofOther))
  | variadic element =>
      cases instantiated_of_eq_ok succeeds with
      | variadic ofElement =>
      cases instantiated_of_eq_ok otherSucceeds with
      | variadic ofOther =>
          exact same_iff_alike.mpr (.variadic (sameParts _ List.mem_cons_self _
            List.mem_cons_self element _ _ ofElement ofOther))
  | repeating base =>
      cases instantiated_of_eq_ok succeeds with
      | repeating ofBase =>
      cases instantiated_of_eq_ok otherSucceeds with
      | repeating ofOther =>
          exact same_iff_alike.mpr (.repeating (sameParts _ List.mem_cons_self
            _ List.mem_cons_self base _ _ ofBase ofOther))
  | _ =>
      cases instantiated_of_eq_ok succeeds
      cases instantiated_of_eq_ok otherSucceeds
      exact same

end Step

/-- Types that are the same have instances that are the same, if the
substitutions agree. -/
theorem sameInstances_of_agrees {first second : Substitution}
    (firstFormed : first.Formed) (secondFormed : second.Formed)
    (agrees : first.Agrees second) {type other : Ty}
    (typeFormed : type.WellFormed) (otherFormed : other.WellFormed)
    (same : type.same other = true) :
    SameInstances first second type other := by
  induction type using Ty.inductionOnParts generalizing other with
  | step type ih =>
      refine sameInstances_of_parts firstFormed secondFormed agrees typeFormed
        otherFormed ?_ same
      intro part partMem counterpart counterpartMem
      exact ih part partMem (typeFormed.of_part partMem)
        (otherFormed.of_part counterpartMem)

theorem sameInstances_of_same {substitution : Substitution}
    (formed : substitution.Formed) {type other : Ty}
    (typeFormed : type.WellFormed) (otherFormed : other.WellFormed)
    (same : type.same other = true) :
    SameInstances substitution substitution type other :=
  sameInstances_of_agrees formed formed substitution.agrees_refl typeFormed
    otherFormed same

/-- Types that are the same, instantiated with substitutions that bind the
same parameters to types that are the same, yield types that are the same. -/
theorem instantiate_respects_same (first second : Substitution)
    (firstFormed : first.Formed) (secondFormed : second.Formed)
    (agrees : first.Agrees second) (type other : Ty)
    (typeFormed : type.WellFormed) (otherFormed : other.WellFormed)
    (same : type.same other = true) (result otherResult : Ty)
    (succeeds : type.instantiate first = .ok result)
    (otherSucceeds : other.instantiate second = .ok otherResult) :
    result.same otherResult = true :=
  sameInstances_of_agrees firstFormed secondFormed agrees typeFormed
    otherFormed same result otherResult succeeds otherSucceeds

/-- Two members merge, of which the first union keeps one and the second union
the other. -/
theorem instantiate_respects_same_merging :
    let first : Substitution := .ofArguments ["A", "B"]
      [unionOf [.string, .nil], .tuple [⟨3, unionOf [.nil, .string], none⟩]]
    let second : Substitution := .ofArguments ["A", "B"]
      [unionOf [.string, .nil], .tuple [⟨5, unionOf [.nil, .string], none⟩]]
    let type := unionOf [.tuple [⟨0, .named "A", none⟩], .integer, .named "B"]
    let other := unionOf
      [.integer, .named "B", .tuple [⟨7, .named "A", some ⟨⟨1⟩, 2⟩⟩]]
    let result := Ty.union
      [.tuple [⟨0, unionOf [.string, .nil], none⟩], .integer]
    let otherResult := Ty.union
      [.integer, .tuple [⟨5, unionOf [.nil, .string], none⟩]]
    first.Formed ∧ second.Formed ∧ first.Agrees second ∧
      type.WellFormed ∧ other.WellFormed ∧ type.same other = true ∧
      type.instantiate first = .ok result ∧
      other.instantiate second = .ok otherResult ∧
      result.same otherResult = true := by
  intro first second type other result otherResult
  have firstFormed : first.Formed := by decide
  have secondFormed : second.Formed := by decide
  have agrees : first.Agrees second := by
    apply Substitution.agrees_ofArguments
    rw [← sameList_iff]
    decide
  have typeFormed : type.WellFormed := by decide
  have otherFormed : other.WellFormed := by decide
  have same : type.same other = true := by decide
  have succeeds : type.instantiate first = .ok result := by rfl
  have otherSucceeds : other.instantiate second = .ok otherResult := by rfl
  exact ⟨firstFormed, secondFormed, agrees, typeFormed, otherFormed, same,
    succeeds, otherSucceeds, instantiate_respects_same first second firstFormed
      secondFormed agrees type other typeFormed otherFormed same result
      otherResult succeeds otherSucceeds⟩

end Ty

end LuaTyping
