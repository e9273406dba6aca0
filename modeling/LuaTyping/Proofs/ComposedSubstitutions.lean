import LuaTyping.Proofs.EqualInstances

/-!
# Composed substitutions

Instantiating twice is instantiating once with the composed substitution: what
the first substitution puts in is instantiated with the second one, and what
it leaves alone is left to the second one.

Call results are kept out, since spreading them depends on when they turn up,
and so are generics over parameters of the first substitution, since the base
of a generic takes over a name and drops everything else.  Without call
results every instantiation succeeds.

The two ways drop repeated union members at different moments.  They keep the
same ones, because the second substitution respects equality.
-/

namespace LuaTyping

/-- A type without call results and without placeholders for them. -/
def Ty.CallFree (type : Ty) : Prop :=
  ∀ node ∈ type.nodes, node.kind ≠ .multiReturn ∧ node.kind ≠ .expand

instance (type : Ty) : Decidable type.CallFree :=
  inferInstanceAs (Decidable (∀ node ∈ type.nodes,
    node.kind ≠ .multiReturn ∧ node.kind ≠ .expand))

namespace Substitution

/-- A substitution that puts in no call results and no placeholders for
them. -/
def CallFree (substitution : Substitution) : Prop :=
  ∀ name type, substitution.get? name = some type → type.CallFree

/-- A substitution that binds the parameters of the first one to what the
second one makes of their types, and all others as the second one does. -/
structure Composes (first second composed : Substitution) : Prop where
  bound : ∀ name type, first.get? name = some type →
    ∃ result, type.instantiate second = .ok result ∧
      composed.get? name = some result
  unbound : ∀ name, first.get? name = none →
    composed.get? name = second.get? name

private theorem exists_composed_entries {second : Substitution}
    {entries : List (Name × Ty)}
    (succeed : ∀ entry ∈ entries, ∃ result,
      entry.2.instantiate second = .ok result) :
    ∃ composed : Substitution,
      (∀ name type, Table.find name entries = some type →
        ∃ result, type.instantiate second = .ok result ∧
          composed.get? name = some result) ∧
      ∀ name, Table.find name entries = none →
        composed.get? name = second.get? name := by
  induction entries with
  | nil => exact ⟨second, by simp [Table.find], fun _ _ => rfl⟩
  | cons entry entries ih =>
      obtain ⟨result, succeeds⟩ := succeed entry (by simp)
      obtain ⟨composed, ofBound, ofUnbound⟩ := ih fun later laterMem =>
        succeed later (by simp [laterMem])
      refine ⟨composed.insert entry.1 result, ?_, ?_⟩
      · intro name type found
        rw [Table.find] at found
        by_cases atName : entry.1 = name
        · obtain rfl : entry.2 = type := by simpa [atName] using found
          exact ⟨result, succeeds, by simp [atName]⟩
        · rw [if_neg atName] at found
          simpa [atName] using ofBound name type found
      · intro name absent
        rw [Table.find] at absent
        by_cases atName : entry.1 = name
        · simp [atName] at absent
        · rw [if_neg atName] at absent
          simpa [atName] using ofUnbound name absent

theorem exists_composes {first second : Substitution}
    (succeed : ∀ name type, first.get? name = some type →
      ∃ result, type.instantiate second = .ok result) :
    ∃ composed, first.Composes second composed := by
  have entriesSucceed : ∀ entry ∈ first.entries, ∃ result,
      entry.2.instantiate second = .ok result := by
    intro entry entryMem
    have bound : first.get? entry.1 = some entry.2 :=
      Table.find_of_mem first.keys_nodup entryMem
    exact succeed entry.1 entry.2 bound
  obtain ⟨composed, ofBound, ofUnbound⟩ :=
    exists_composed_entries entriesSucceed
  exact ⟨composed, ofBound, ofUnbound⟩

end Substitution

namespace Ty

variable {substitution first second composed : Substitution}
  {type middle result : Ty}

theorem CallFree.of_part {part : Ty} (free : type.CallFree)
    (partMem : part ∈ type.parts) : part.CallFree :=
  fun node nodeMem => free node (mem_nodes_of_part partMem nodeMem)

theorem callFree_atName (free : substitution.CallFree) (name : Name) :
    (substitution.atName name).CallFree := by
  rw [Substitution.atName]
  cases found : substitution.get? name with
  | none =>
      intro node nodeMem
      obtain rfl : node = .named name := by simpa [nodes] using nodeMem
      simp [kind]
  | some replacement => exact free name replacement found

theorem callFree_of_instantiate (typeFree : type.CallFree)
    (free : substitution.CallFree)
    (succeeds : type.instantiate substitution = .ok result) :
    result.CallFree := by
  refine forall_nodes_of_instantiate ?_ ?_ ?_ succeeds
  · intro name _
    exact callFree_atName free name
  · intro name isExpand
    exact absurd rfl (typeFree _ isExpand).2
  · intro node nodeMem notNamed notExpand made rebuilds
    rw [kind_eq_of_instantiate notNamed notExpand rebuilds]
    exact typeFree node nodeMem

theorem CallFree.endsInCall {slots : List (Slot Ty)}
    (free : ∀ slot ∈ slots, slot.type.CallFree) :
    (Ty.tuple slots).endsInCall = false := by
  rcases List.eq_nil_or_concat' slots with rfl | ⟨before, last, rfl⟩
  · rfl
  · have lastFree := free last (by simp) last.type last.type.mem_nodes_self
    simpa [Ty.endsInCall] using lastFree.1

theorem callFree_slots {slots placed : List (Slot Ty)}
    (slotsFree : ∀ slot ∈ slots, slot.type.CallFree)
    (free : substitution.CallFree)
    (ofSlots : List.Forall₂ (Slot.Instantiates substitution) slots placed) :
    ∀ slot ∈ placed, slot.type.CallFree := by
  intro slot slotMem
  obtain ⟨source, sourceMem, instantiates⟩ :=
    exists_of_mem_right ofSlots slotMem
  exact callFree_of_instantiate (slotsFree source sourceMem) free
    instantiates.type

/-- Without call results there is nothing to spread, so nothing fails. -/
theorem CallFree.exists_instantiate (typeFree : type.CallFree)
    (free : substitution.CallFree) :
    ∃ result, type.instantiate substitution = .ok result := by
  induction type using Ty.inductionOnParts with
  | step type ih =>
      apply exists_instantiate_of_parts
      · intro part partMem
        exact ih part partMem (typeFree.of_part partMem)
      · rintro slots placed rfl ofSlots
        have slotsFree : ∀ slot ∈ slots, slot.type.CallFree :=
          fun slot slotMem => typeFree.of_part (List.mem_map_of_mem slotMem)
        have plain := CallFree.endsInCall
          (callFree_slots slotsFree free ofSlots)
        exact ⟨placed, spreadLast_eq_self plain⟩

/-- One pass with a substitution does what passes with two others do. -/
def CombinesPasses (first second composed : Substitution) (type : Ty) : Prop :=
  ∀ middle result, type.instantiate first = .ok middle →
    middle.instantiate second = .ok result →
      type.instantiate composed = .ok result

theorem combinesPasses_named (composes : first.Composes second composed)
    (name : Name) : CombinesPasses first second composed (.named name) := by
  intro middle result ofName ofMiddle
  obtain rfl : first.atName name = middle := Except.ok.inj ofName
  have becomes : composed.atName name = result := by
    rw [Substitution.atName] at ofMiddle ⊢
    cases found : first.get? name with
    | none =>
        rw [found, Option.getD_none] at ofMiddle
        rw [composes.unbound name found]
        exact Except.ok.inj ofMiddle
    | some replacement =>
        rw [found, Option.getD_some] at ofMiddle
        obtain ⟨made, ofReplacement, bound⟩ :=
          composes.bound name replacement found
        rw [bound, Option.getD_some]
        exact Except.ok.inj (ofReplacement.symm.trans ofMiddle)
  exact congrArg Except.ok becomes

theorem combinesPasses_union (firstFormed : first.Formed)
    (secondFormed : second.Formed) (firstFree : first.CallFree)
    (secondFree : second.CallFree) {members : List Ty}
    (membersFree : ∀ member ∈ members, member.CallFree)
    (combines : ∀ member ∈ members,
      CombinesPasses first second composed member) :
    CombinesPasses first second composed (.union members) := by
  intro middle result ofUnion ofMiddle
  cases instantiated_of_eq_ok ofUnion with
  | @union _ instances ofMembers =>
  cases instantiated_of_eq_ok ofMiddle with
  | @union _ kept ofKept =>
      have instancesSucceed : ∀ made ∈ instances, ∃ image,
          made.WellFormed ∧ made.instantiate second = .ok image := by
        intro made madeMem
        obtain ⟨member, memberMem, ofMember⟩ :=
          exists_of_mem_right ofMembers madeMem
        have madeFree := callFree_of_instantiate
          (membersFree member memberMem) firstFree ofMember
        obtain ⟨image, ofMade⟩ := madeFree.exists_instantiate secondFree
        exact ⟨image, wellFormed_of_instantiate firstFormed ofMember, ofMade⟩
      obtain ⟨images, ofInstances⟩ := exists_forall₂ instancesSucceed
      -- The instances kept by the first pass stand for all of them, because
      -- the second pass maps types that are the same to such types again.
      obtain ⟨keptImages, ofDistinct, distinctEq⟩ := exists_distinct_images
        (fun made image other otherImage ofMade ofOther same =>
          sameInstances_of_same secondFormed ofMade.1 ofOther.1 same image
            otherImage ofMade.2 ofOther.2) ofInstances
      have keptEq : keptImages = kept := by
        have ofKeptImages := instantiateList_eq_ok.mpr
          (ofDistinct.imp fun _ _ related => related.2)
        rw [instantiateList_eq_ok.mpr ofKept] at ofKeptImages
        exact (Except.ok.inj ofKeptImages).symm
      have ofComposed :
          List.Forall₂ (InstantiatesTo composed) members images := by
        refine forall₂_compose ?_ ofMembers ofInstances
        intro member memberMem made image _ ofMember ofMade
        exact combines member memberMem made image ofMember ofMade.2
      have succeeds := (Instantiated.union ofComposed).eq_ok
      rw [unionOf, ← distinctEq, keptEq] at succeeds
      exact succeeds

theorem combinesPasses_tuple (firstFree : first.CallFree)
    {slots : List (Slot Ty)} (slotsFree : ∀ slot ∈ slots, slot.type.CallFree)
    (combines : ∀ slot ∈ slots,
      CombinesPasses first second composed slot.type) :
    CombinesPasses first second composed (.tuple slots) := by
  intro middle result ofTuple ofMiddle
  cases instantiated_of_eq_ok ofTuple with
  | @tuple _ placed spread ofSlots spreads =>
      have plain := CallFree.endsInCall
        (callFree_slots slotsFree firstFree ofSlots)
      obtain rfl : placed = spread :=
        Except.ok.inj ((spreadLast_eq_self plain).symm.trans spreads)
      cases instantiated_of_eq_ok ofMiddle with
      | @tuple _ placedTwice spreadTwice ofPlaced spreadsTwice =>
          have ofComposed :
              List.Forall₂ (Slot.Instantiates composed) slots placedTwice := by
            refine forall₂_compose ?_ ofSlots ofPlaced
            intro slot slotMem _ _ _ once twice
            exact ⟨twice.index.trans once.index,
              twice.origin.trans once.origin,
              combines slot slotMem _ _ once.type twice.type⟩
          exact (Instantiated.tuple ofComposed spreadsTwice).eq_ok

theorem combinesPasses_list {types instances results : List Ty}
    (combines : ∀ type ∈ types, CombinesPasses first second composed type)
    (ofTypes : List.Forall₂ (InstantiatesTo first) types instances)
    (ofInstances : List.Forall₂ (InstantiatesTo second) instances results) :
    List.Forall₂ (InstantiatesTo composed) types results := by
  refine forall₂_compose ?_ ofTypes ofInstances
  intro type typeMem made result _
  exact combines type typeMem made result

theorem combinesPasses_of_composes (firstFormed : first.Formed)
    (secondFormed : second.Formed) (firstFree : first.CallFree)
    (secondFree : second.CallFree) (composes : first.Composes second composed)
    (typeFree : type.CallFree)
    (basesUnbound : ∀ base arguments, .generic base arguments ∈ type.nodes →
      first.get? base = none) :
    CombinesPasses first second composed type := by
  induction type using Ty.inductionOnParts with
  | step type ih =>
      have combines : ∀ part ∈ type.parts,
          CombinesPasses first second composed part := by
        intro part partMem
        refine ih part partMem (typeFree.of_part partMem) ?_
        intro base arguments genericMem
        exact basesUnbound base arguments
          (mem_nodes_of_part partMem genericMem)
      have partsFree : ∀ part ∈ type.parts, part.CallFree :=
        fun part partMem => typeFree.of_part partMem
      cases type with
      | named name => exact combinesPasses_named composes name
      | union members =>
          exact combinesPasses_union firstFormed secondFormed firstFree
            secondFree partsFree combines
      | tuple slots =>
          exact combinesPasses_tuple firstFree
            (fun slot slotMem => partsFree _ (List.mem_map_of_mem slotMem))
            (fun slot slotMem => combines _ (List.mem_map_of_mem slotMem))
      | generic base arguments =>
          intro middle result ofGeneric ofMiddle
          have unbound := basesUnbound base arguments (mem_nodes_self _)
          cases instantiated_of_eq_ok ofGeneric with
          | generic _ ofArguments =>
          cases instantiated_of_eq_ok ofMiddle with
          | generic _ ofInstances =>
              have ofComposed :=
                combinesPasses_list combines ofArguments ofInstances
              have sameBase : composed.atBase base = second.atBase base := by
                rw [Substitution.atBase, Substitution.atBase,
                  composes.unbound base unbound]
              rw [Substitution.atBase_of_unbound unbound, ← sameBase]
              exact (Instantiated.generic base ofComposed).eq_ok
      | array element =>
          intro middle result ofArray ofMiddle
          cases instantiated_of_eq_ok ofArray with
          | array ofElement =>
          cases instantiated_of_eq_ok ofMiddle with
          | array ofMade =>
              exact (Instantiated.array (combines element List.mem_cons_self
                _ _ ofElement ofMade)).eq_ok
      | variadic element =>
          intro middle result ofVariadic ofMiddle
          cases instantiated_of_eq_ok ofVariadic with
          | variadic ofElement =>
          cases instantiated_of_eq_ok ofMiddle with
          | variadic ofMade =>
              exact (Instantiated.variadic (combines element
                List.mem_cons_self _ _ ofElement ofMade)).eq_ok
      | expand name => exact absurd rfl (typeFree _ (mem_nodes_self _)).2
      | results types => exact absurd rfl (typeFree _ (mem_nodes_self _)).1
      | repeating base => exact absurd rfl (typeFree _ (mem_nodes_self _)).1
      | _ =>
          -- A type without parameters passes through unchanged.
          intro middle result ofType ofMiddle
          obtain rfl := Except.ok.inj ofType
          exact ofMiddle

/-- Instantiating twice is instantiating once with the composed substitution,
which exists. -/
theorem instantiate_composes (type : Ty) (first second : Substitution)
    (firstFormed : first.Formed) (secondFormed : second.Formed)
    (typeFree : type.CallFree) (firstFree : first.CallFree)
    (secondFree : second.CallFree)
    (basesUnbound : ∀ base arguments, .generic base arguments ∈ type.nodes →
      first.get? base = none) :
    (∃ composed, first.Composes second composed) ∧
      ∀ composed, first.Composes second composed →
        ∃ middle result, type.instantiate first = .ok middle ∧
          middle.instantiate second = .ok result ∧
            type.instantiate composed = .ok result := by
  constructor
  · apply Substitution.exists_composes
    intro name replacement bound
    exact (firstFree name replacement bound).exists_instantiate secondFree
  · intro composed composes
    obtain ⟨middle, ofType⟩ := typeFree.exists_instantiate firstFree
    have middleFree := callFree_of_instantiate typeFree firstFree ofType
    obtain ⟨result, ofMiddle⟩ := middleFree.exists_instantiate secondFree
    exact ⟨middle, result, ofType, ofMiddle,
      combinesPasses_of_composes firstFormed secondFormed firstFree secondFree
        composes typeFree basesUnbound middle result ofType ofMiddle⟩

/-- The first pass merges two members, what it puts in mentions a parameter of
the second pass, and both bind the same parameter. -/
theorem instantiate_composes_rows :
    let first : Substitution := Table.ofList [("K", .array (.named "V"))]
    let second : Substitution :=
      Table.ofList [("V", .string), ("K", .integer)]
    let composed : Substitution :=
      Table.ofList [("K", .array .string), ("V", .string)]
    let type := unionOf [.named "K", .array (.named "V"),
      .generic "Map" [.named "K", .named "V"]]
    let result := Ty.union
      [.array .string, .generic "Map" [.array .string, .string]]
    first.Formed ∧ second.Formed ∧ type.CallFree ∧ first.CallFree ∧
      second.CallFree ∧ first.Composes second composed ∧
      ∃ middle, type.instantiate first = .ok middle ∧
        middle.instantiate second = .ok result ∧
        type.instantiate composed = .ok result := by
  intro first second composed type result
  have firstBound : ∀ name replacement, first.get? name = some replacement →
      name = "K" ∧ replacement = .array (.named "V") := by
    intro name replacement found
    simp [first, Table.ofList] at found
    exact ⟨found.1.symm, found.2.symm⟩
  have secondBound : ∀ name replacement,
      second.get? name = some replacement →
        replacement = .integer ∨ replacement = .string := by
    intro name replacement found
    simp only [second, Table.ofList, List.foldl_cons, List.foldl_nil,
      Table.get?_insert, Table.get?_empty] at found
    split at found
    · exact .inl (Option.some.inj found).symm
    · split at found
      · exact .inr (Option.some.inj found).symm
      · simp at found
  have firstFormed : first.Formed := by
    intro name replacement found
    obtain ⟨_, rfl⟩ := firstBound name replacement found
    exact .array (.named "V")
  have secondFormed : second.Formed := by
    intro name replacement found
    rcases secondBound name replacement found with rfl | rfl
    · exact .named "integer"
    · exact .named "string"
  have firstFree : first.CallFree := by
    intro name replacement found
    obtain ⟨_, rfl⟩ := firstBound name replacement found
    decide
  have secondFree : second.CallFree := by
    intro name replacement found
    rcases secondBound name replacement found with rfl | rfl <;> decide
  have typeFree : type.CallFree := by decide
  have basesUnbound : ∀ base arguments,
      .generic base arguments ∈ type.nodes → first.get? base = none := by
    intro base arguments genericMem
    obtain ⟨rfl, _⟩ : base = "Map" ∧ arguments = [.named "K", .named "V"] := by
      simpa [type, unionOf, distinct, distinctFrom, among, same, nodes,
        nodesOfList] using genericMem
    rfl
  have composes : first.Composes second composed := by
    constructor
    · intro name replacement found
      obtain ⟨rfl, rfl⟩ := firstBound name replacement found
      exact ⟨.array .string, rfl, rfl⟩
    · intro name absent
      have notBound : ¬ "K" = name := by
        rintro rfl
        simp [first, Table.ofList] at absent
      simp [composed, second, Table.ofList, notBound]
  obtain ⟨middle, other, ofType, ofMiddle, ofComposed⟩ :=
    (instantiate_composes type first second firstFormed secondFormed typeFree
      firstFree secondFree basesUnbound).2 composed composes
  obtain rfl : other = result :=
    Except.ok.inj (ofComposed.symm.trans (by rfl))
  exact ⟨firstFormed, secondFormed, typeFree, firstFree, secondFree, composes,
    middle, ofType, ofMiddle, ofComposed⟩

end Ty

end LuaTyping
