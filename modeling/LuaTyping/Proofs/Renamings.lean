import LuaTyping.Proofs.EqualInstances

/-!
# Renamings can be undone

All parameters are replaced at once, so a substitution that permutes names
swaps them as easily as it moves them around.  Putting the old names back then
restores the type as it was, with the order of union members, the indices and
origins of slots, and the bases of generics.  Placeholders for call results
are not renamed, since a name does not stand for call results.

No two members of a union become the same on the way: the way back would make
them the same again, because instantiation respects equality.
-/

namespace LuaTyping

namespace Substitution

/-- Bind one label of each of several names to the other label. -/
def relabel (names : List Name) (old new : Name → Name) : Substitution :=
  .ofArguments (names.map old) (names.map fun name => .named (new name))

section Lookups

variable {names : List Name} {old new : Name → Name}
  (nodup : (names.map old).Nodup)

include nodup

theorem get?_relabel (label : Name) :
    (relabel names old new).get? label =
      Table.find label (names.map fun name => (old name, .named (new name))) := by
  rw [relabel, ofArguments, List.zip_map']
  apply Table.get?_ofList
  rw [List.map_map]
  exact nodup

theorem get?_relabel_of_mem {name : Name} (nameMem : name ∈ names) :
    (relabel names old new).get? (old name) = some (.named (new name)) := by
  rw [get?_relabel nodup]
  have entryMem := List.mem_map_of_mem
    (f := fun name => (old name, Ty.named (new name))) nameMem
  apply Table.find_of_mem _ entryMem
  rw [List.map_map]
  exact nodup

theorem get?_relabel_of_not_mem {label : Name}
    (absent : label ∉ names.map old) :
    (relabel names old new).get? label = none := by
  rw [get?_relabel nodup, ← Option.not_isSome_iff_eq_none, Table.find_isSome,
    List.map_map]
  exact absent

/-- A substitution that puts in nothing but names. -/
def OnlyNames (substitution : Substitution) : Prop :=
  ∀ name type, substitution.get? name = some type →
    ∃ other, type = .named other

theorem onlyNames_relabel : (relabel names old new).OnlyNames := by
  intro label type found
  rw [get?_relabel nodup] at found
  obtain ⟨name, _, isEntry⟩ := List.mem_map.mp (Table.mem_of_find found)
  exact ⟨new name, (Prod.mk.inj isEntry).2.symm⟩

end Lookups

section OnlyNames

variable {substitution : Substitution}

theorem OnlyNames.formed (names : substitution.OnlyNames) :
    substitution.Formed := by
  intro name type found
  obtain ⟨other, rfl⟩ := names name type found
  exact .named other

theorem OnlyNames.atExpand_eq (names : substitution.OnlyNames) (name : Name) :
    substitution.atExpand name = .expand name := by
  rw [atExpand]
  cases found : substitution.get? name with
  | none => rfl
  | some type =>
      obtain ⟨other, rfl⟩ := names name type found
      rfl

theorem atBase_of_atName {name other : Name}
    (becomes : substitution.atName name = .named other) :
    substitution.atBase name = other := by
  rw [atName] at becomes
  rw [atBase]
  cases found : substitution.get? name with
  | none =>
      rw [found, Option.getD_none] at becomes
      simpa using becomes
  | some type =>
      rw [found, Option.getD_some] at becomes
      simp [becomes, Ty.declaredName?]

end OnlyNames

/-- Substitutions of names of which the second one puts the names back that
the first one replaces. -/
structure Restores (first second : Substitution) : Prop where
  onlyNames : first.OnlyNames
  onlyNamesBack : second.OnlyNames
  back : ∀ name, ∃ other, first.atName name = .named other ∧
    second.atName other = .named name

theorem restores_relabel {names : List Name} {rename : Name → Name}
    (nodup : names.Nodup) (permutes : (names.map rename).Perm names) :
    (relabel names id rename).Restores (relabel names rename id) := by
  have labels : (names.map id).Nodup := by rwa [List.map_id]
  have newLabels : (names.map rename).Nodup := permutes.nodup_iff.mpr nodup
  refine ⟨onlyNames_relabel labels, onlyNames_relabel newLabels, ?_⟩
  intro name
  by_cases nameMem : name ∈ names
  · have there : (relabel names id rename).get? name =
        some (.named (rename name)) := get?_relabel_of_mem labels nameMem
    have back : (relabel names rename id).get? (rename name) =
        some (.named name) := get?_relabel_of_mem newLabels nameMem
    refine ⟨rename name, ?_, ?_⟩
    · rw [atName, there, Option.getD_some]
    · rw [atName, back, Option.getD_some]
  · have notNew : name ∉ names.map rename := by rwa [permutes.mem_iff]
    have notOld : name ∉ names.map id := by rwa [List.map_id]
    exact ⟨name,
      atName_of_unbound (get?_relabel_of_not_mem labels notOld),
      atName_of_unbound (get?_relabel_of_not_mem newLabels notNew)⟩

end Substitution

namespace Ty

/-- A type that one substitution makes of another one and that a second
substitution turns back. -/
structure RenamedTo (first second : Substitution) (type renamed : Ty) :
    Prop where
  there : type.instantiate first = .ok renamed
  back : renamed.instantiate second = .ok type
  kind : renamed.kind = type.kind

theorem endsInCall_eq_of_kinds {slots placed : List (Slot Ty)}
    (kinds : List.Forall₂ (fun slot placed =>
      placed.type.kind = slot.type.kind) slots placed) :
    (Ty.tuple placed).endsInCall = (Ty.tuple slots).endsInCall := by
  induction kinds with
  | nil => rfl
  | cons head tail ih =>
      cases tail with
      | nil => simp [endsInCall, head]
      | cons next rest =>
          simp only [endsInCall, List.getLast?_cons_cons] at ih ⊢
          exact ih

variable {first second : Substitution}

theorem exists_renamedTo_tuple {slots : List (Slot Ty)}
    (plain : (Ty.tuple slots).endsInCall = false)
    (renamedTypes : ∀ slot ∈ slots,
      ∃ renamed, RenamedTo first second slot.type renamed) :
    ∃ renamed, RenamedTo first second (.tuple slots) renamed := by
  have renamedSlots : ∀ slot ∈ slots, ∃ placed : Slot Ty,
      placed.index = slot.index ∧ placed.origin = slot.origin ∧
        RenamedTo first second slot.type placed.type := by
    intro slot slotMem
    obtain ⟨renamed, pair⟩ := renamedTypes slot slotMem
    exact ⟨⟨slot.index, renamed, slot.origin⟩, rfl, rfl, pair⟩
  obtain ⟨placed, paired⟩ := exists_forall₂ renamedSlots
  have ofSlots : List.Forall₂ (Slot.Instantiates first) slots placed :=
    paired.imp fun _ _ pair => ⟨pair.1, pair.2.1, pair.2.2.there⟩
  have ofPlaced : List.Forall₂ (Slot.Instantiates second) placed slots :=
    (paired.imp fun _ _ pair =>
      ⟨pair.1.symm, pair.2.1.symm, pair.2.2.back⟩).flip
  have placedPlain : (Ty.tuple placed).endsInCall = false := by
    rw [endsInCall_eq_of_kinds (paired.imp fun _ _ pair => pair.2.2.kind)]
    exact plain
  exact ⟨.tuple placed,
    (Instantiated.tuple ofSlots (spreadLast_eq_self placedPlain)).eq_ok,
    (Instantiated.tuple ofPlaced (spreadLast_eq_self plain)).eq_ok, rfl⟩

variable (restores : first.Restores second)

include restores

theorem distinct_renamed {members renamed : List Ty}
    (apart : members.Pairwise fun first later => later.same first = false)
    (paired : List.Forall₂ (RenamedTo first second) members renamed) :
    distinct renamed = renamed := by
  have renamedApart : renamed.Pairwise fun first later =>
      later.same first = false := by
    induction paired with
    | nil => exact .nil
    | @cons member image members images head tail ih =>
        rw [List.pairwise_cons] at apart
        refine List.pairwise_cons.mpr ⟨?_, ih apart.2⟩
        intro later laterMem
        obtain ⟨source, sourceMem, sourcePaired⟩ :=
          exists_of_mem_right tail laterMem
        -- Were the images the same, the way back would merge the members.
        by_contra merged
        have formed := restores.onlyNames.formed
        have same := sameInstances_of_same restores.onlyNamesBack.formed
          (wellFormed_of_instantiate formed sourcePaired.there)
          (wellFormed_of_instantiate formed head.there) (by simpa using merged)
          source member sourcePaired.back head.back
        simp [apart.1 source sourceMem] at same
  exact distinctFrom_eq_self (by simp) renamedApart

theorem exists_renamedTo_union {members : List Ty}
    (formed : (Ty.union members).WellFormed)
    (renamedMembers : ∀ member ∈ members,
      ∃ renamed, RenamedTo first second member renamed) :
    ∃ renamed, RenamedTo first second (.union members) renamed := by
  obtain ⟨renamed, paired⟩ := exists_forall₂ renamedMembers
  have there : (Ty.union members).instantiate first =
      .ok (unionOf renamed) :=
    (Instantiated.union (paired.imp fun _ _ pair => pair.there)).eq_ok
  rw [unionOf, distinct_renamed restores formed.members_pairwise paired]
    at there
  have back : (Ty.union renamed).instantiate second =
      .ok (unionOf members) :=
    (Instantiated.union (paired.imp fun _ _ pair => pair.back).flip).eq_ok
  have unmerged : distinct members = members :=
    distinctFrom_eq_self (by simp) formed.members_pairwise
  rw [unionOf, unmerged] at back
  exact ⟨.union renamed, there, back, rfl⟩

theorem exists_renamedTo {type : Ty} (formed : type.WellFormed)
    (plain : ∀ node ∈ type.nodes, node.endsInCall = false) :
    ∃ renamed, RenamedTo first second type renamed := by
  induction type using Ty.inductionOnParts with
  | step type ih =>
      have renamedParts : ∀ part ∈ type.parts,
          ∃ renamed, RenamedTo first second part renamed := by
        intro part partMem
        refine ih part partMem (formed.of_part partMem) ?_
        intro node nodeMem
        exact plain node (mem_nodes_of_part partMem nodeMem)
      have renamedList := exists_forall₂ renamedParts
      cases type with
      | named name =>
          obtain ⟨other, there, back⟩ := restores.back name
          exact ⟨.named other, congrArg Except.ok there,
            congrArg Except.ok back, rfl⟩
      | expand name =>
          exact ⟨.expand name,
            congrArg Except.ok (restores.onlyNames.atExpand_eq name),
            congrArg Except.ok (restores.onlyNamesBack.atExpand_eq name), rfl⟩
      | union members =>
          exact exists_renamedTo_union restores formed renamedParts
      | tuple slots =>
          exact exists_renamedTo_tuple (plain _ (mem_nodes_self _)) fun slot
            slotMem => renamedParts slot.type (List.mem_map_of_mem slotMem)
      | generic base arguments =>
          obtain ⟨renamed, paired⟩ := renamedList
          obtain ⟨other, there, back⟩ := restores.back base
          have ofArguments := (Instantiated.generic base
            (paired.imp fun _ _ pair => pair.there)).eq_ok
          have ofRenamed := (Instantiated.generic other
            (paired.imp fun _ _ pair => pair.back).flip).eq_ok
          rw [Substitution.atBase_of_atName there] at ofArguments
          rw [Substitution.atBase_of_atName back] at ofRenamed
          exact ⟨.generic other renamed, ofArguments, ofRenamed, rfl⟩
      | results types =>
          obtain ⟨renamed, paired⟩ := renamedList
          exact ⟨.results renamed,
            (Instantiated.results
              (paired.imp fun _ _ pair => pair.there)).eq_ok,
            (Instantiated.results
              (paired.imp fun _ _ pair => pair.back).flip).eq_ok, rfl⟩
      | array element =>
          obtain ⟨renamed, pair⟩ := renamedParts element List.mem_cons_self
          exact ⟨.array renamed, (Instantiated.array pair.there).eq_ok,
            (Instantiated.array pair.back).eq_ok, rfl⟩
      | variadic element =>
          obtain ⟨renamed, pair⟩ := renamedParts element List.mem_cons_self
          exact ⟨.variadic renamed, (Instantiated.variadic pair.there).eq_ok,
            (Instantiated.variadic pair.back).eq_ok, rfl⟩
      | repeating base =>
          obtain ⟨renamed, pair⟩ := renamedParts base List.mem_cons_self
          exact ⟨.repeating renamed, (Instantiated.repeating pair.there).eq_ok,
            (Instantiated.repeating pair.back).eq_ok, rfl⟩
      | _ => exact ⟨_, rfl, rfl, rfl⟩

omit restores

/-- Names that were permuted throughout a type can be put back. -/
theorem instantiate_restores (names : List Name) (rename : Name → Name)
    (nodup : names.Nodup) (permutes : (names.map rename).Perm names)
    (type : Ty) (formed : type.WellFormed)
    (plain : ∀ node ∈ type.nodes, node.endsInCall = false) :
    ∃ renamed,
      type.instantiate (.relabel names id rename) = .ok renamed ∧
        renamed.instantiate (.relabel names rename id) = .ok type := by
  have restores := Substitution.restores_relabel nodup permutes
  obtain ⟨renamed, pair⟩ := exists_renamedTo restores formed plain
  exact ⟨renamed, pair.there, pair.back⟩

/-- Keys and values are swapped.  The names stand in members of a union whose
order matters, in the base of a generic, in a slot with an index of its own
and in a placeholder, which is not renamed. -/
theorem instantiate_restores_swap :
    let rename : Name → Name := fun name =>
      if name = "K" then "V" else if name = "V" then "K" else name
    let type := unionOf
      [.named "V", .named "K", .generic "K" [.named "V", .string],
        .tuple [⟨3, .results [.named "K"], none⟩,
          ⟨7, .expand "V", some ⟨⟨1⟩, 2⟩⟩]]
    let renamed := Ty.union
      [.named "K", .named "V", .generic "V" [.named "K", .string],
        .tuple [⟨3, .results [.named "V"], none⟩,
          ⟨7, .expand "V", some ⟨⟨1⟩, 2⟩⟩]]
    (["K", "V"].map rename).Perm ["K", "V"] ∧ type.WellFormed ∧
      (∀ node ∈ type.nodes, node.endsInCall = false) ∧
      type.instantiate (.relabel ["K", "V"] id rename) = .ok renamed ∧
      renamed.instantiate (.relabel ["K", "V"] rename id) = .ok type := by
  intro rename type renamed
  have permutes : (["K", "V"].map rename).Perm ["K", "V"] := by decide
  have formed : type.WellFormed := by
    refine .union ?_
    simp only [List.forall_mem_cons, List.not_mem_nil, false_implies,
      implies_true, and_true]
    refine ⟨.named _, .named _, .generic ?_, .tuple ?_⟩
    · exact List.forall_mem_cons.mpr
        ⟨.named _, List.forall_mem_singleton.mpr (.named _)⟩
    · refine List.forall_mem_cons.mpr
        ⟨.results ?_, List.forall_mem_singleton.mpr (.expand _)⟩
      exact List.forall_mem_singleton.mpr (.named _)
  have plain : ∀ node ∈ type.nodes, node.endsInCall = false := by decide
  obtain ⟨other, there, back⟩ := instantiate_restores ["K", "V"] rename
    (by decide) permutes type formed plain
  obtain rfl : other = renamed := Except.ok.inj (there.symm.trans (by rfl))
  exact ⟨permutes, formed, plain, there, back⟩

end Ty

end LuaTyping
