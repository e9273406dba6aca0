import LuaTyping.Proofs.InstanceNodes

/-!
# Repeated instantiation

Instantiating a type once does not settle it, even if the types that were put
in mention no parameter.  A tuple spreads the call results in its last slot
only once, and what comes last then may be call results again.  A tuple that
changed inside a union may become the same as another member, so that the two
merge.

Every pass that changes something takes call results out of the type, and no
later pass puts any in.  The number of call results after the first pass
therefore bounds the number of passes that can still change the type.
-/

namespace LuaTyping

namespace Substitution

/-- A substitution that puts in types which can be formed. -/
def Formed (substitution : Substitution) : Prop :=
  ∀ name type, substitution.get? name = some type → type.WellFormed

/-- A substitution that puts in types which mention none of the parameters it
binds. -/
def Apart (substitution : Substitution) : Prop :=
  ∀ name type, substitution.get? name = some type →
    ∀ identifier, type.Mentions identifier →
      substitution.get? identifier = none

variable {substitution : Substitution} {name : Name}

theorem atName_of_unbound (unbound : substitution.get? name = none) :
    substitution.atName name = .named name := by
  rw [atName, unbound, Option.getD_none]

theorem atExpand_of_unbound (unbound : substitution.get? name = none) :
    substitution.atExpand name = .expand name := by
  rw [atExpand, unbound]

theorem atBase_of_unbound (unbound : substitution.get? name = none) :
    substitution.atBase name = name := by
  rw [atBase, unbound, Option.bind_none, Option.getD_none]

theorem atExpand_eq_or (substitution : Substitution) (name : Name) :
    substitution.atExpand name = .expand name ∨
      substitution.get? name = some (substitution.atExpand name) := by
  unfold atExpand
  split
  · rename_i types found
    exact .inr found
  · rename_i base found
    exact .inr found
  · exact .inl rfl

/-- The base of a generic is renamed at most once. -/
theorem Apart.atBase_atBase (apart : substitution.Apart) (base : Name) :
    substitution.atBase (substitution.atBase base) =
      substitution.atBase base := by
  cases found : (substitution.get? base).bind Ty.declaredName? with
  | none =>
      have kept : substitution.atBase base = base := by
        rw [atBase, found, Option.getD_none]
      rw [kept, kept]
  | some renamed =>
      have becomes : substitution.atBase base = renamed := by
        rw [atBase, found, Option.getD_some]
      obtain ⟨type, bound, declared⟩ := Option.bind_eq_some_iff.mp found
      have mentioned : type.Mentions renamed := by
        refine ⟨type, type.mem_nodes_self, ?_⟩
        cases type <;> simp_all [Ty.declaredName?, Ty.identifier?]
      rw [becomes]
      exact atBase_of_unbound (apart base type bound renamed mentioned)

end Substitution

namespace Ty

variable {substitution : Substitution} {type result : Ty}

/-- A node at which instantiation finds nothing to replace and nothing to
merge. -/
def Stable (substitution : Substitution) : Ty → Prop
  | .named name => substitution.atName name = .named name
  | .expand name => substitution.atExpand name = .expand name
  | .generic base _ => substitution.atBase base = base
  | .union members =>
      members.Pairwise fun first later => later.same first = false
  | _ => True

/-- A type in which instantiation at most spreads call results. -/
def Settled (substitution : Substitution) (type : Ty) : Prop :=
  ∀ node ∈ type.nodes, node.Stable substitution

theorem settled_iff :
    type.Settled substitution ↔
      type.Stable substitution ∧
        ∀ part ∈ type.parts, part.Settled substitution :=
  forall_nodes

theorem settled_of_unbound (formed : type.WellFormed)
    (unbound : ∀ identifier, type.Mentions identifier →
      substitution.get? identifier = none) :
    type.Settled substitution := by
  intro node nodeMem
  have nodeFormed := formed.of_node node nodeMem
  cases node with
  | named name =>
      exact Substitution.atName_of_unbound (unbound name ⟨_, nodeMem, rfl⟩)
  | expand name =>
      exact Substitution.atExpand_of_unbound (unbound name ⟨_, nodeMem, rfl⟩)
  | generic base arguments =>
      exact Substitution.atBase_of_unbound (unbound base ⟨_, nodeMem, rfl⟩)
  | union members => exact nodeFormed.members_pairwise
  | _ => trivial

section FirstPass

variable (formed : substitution.Formed) (apart : substitution.Apart)

include formed apart

theorem settled_atName (name : Name) :
    (substitution.atName name).Settled substitution := by
  cases found : substitution.get? name with
  | none =>
      have kept := Substitution.atName_of_unbound found
      rw [kept]
      exact settled_iff.mpr ⟨kept, by simp [parts]⟩
  | some type =>
      rw [Substitution.atName, found, Option.getD_some]
      exact settled_of_unbound (formed name type found)
        (apart name type found)

theorem settled_atExpand (name : Name) :
    (substitution.atExpand name).Settled substitution := by
  rcases substitution.atExpand_eq_or name with kept | found
  · rw [kept]
    exact settled_iff.mpr ⟨kept, by simp [parts]⟩
  · exact settled_of_unbound (formed name _ found) (apart name _ found)

end FirstPass

/-- Whatever is instantiated is settled afterwards. -/
theorem settled_of_instantiate (formed : substitution.Formed)
    (apart : substitution.Apart)
    (succeeds : type.instantiate substitution = .ok result) :
    result.Settled substitution := by
  refine forall_nodes_of_instantiate
    (fun name _ => settled_atName formed apart name)
    (fun name _ => settled_atExpand formed apart name) ?_ succeeds
  intro node nodeMem notNamed notExpand made rebuilds
  cases instantiated_of_eq_ok rebuilds with
  | named name => exact absurd rfl notNamed
  | expand name => exact absurd rfl notExpand
  | union ofMembers => exact distinctFrom_pairwise [] _
  | generic base ofArguments => exact apart.atBase_atBase base
  | _ => trivial

/-- What a pass can do to a type: return it as it is, or take call results out
of it. -/
def FixedOrFewer (substitution : Substitution) (type : Ty) : Prop :=
  type.instantiate substitution = .ok type ∨
    (0 < type.callCount ∧
      ∀ result, type.instantiate substitution = .ok result →
        result.callCount < type.callCount)

theorem instances_eq_of_fixed {types instances : List Ty}
    (fixed : ∀ type ∈ types, type.instantiate substitution = .ok type)
    (ofTypes : List.Forall₂ (InstantiatesTo substitution) types instances) :
    instances = types := by
  have unchanged : instantiateList substitution types = .ok types :=
    instantiateList_eq_ok.mpr (List.forall₂_same.mpr fixed)
  rw [instantiateList_eq_ok.mpr ofTypes] at unchanged
  exact Except.ok.inj unchanged

theorem fixed_or_fewer_of_forall {types : List Ty}
    (each : ∀ type ∈ types, type.FixedOrFewer substitution) :
    (∀ type ∈ types, type.instantiate substitution = .ok type) ∨
      (0 < callCountOf types ∧
        ∀ instances,
          List.Forall₂ (InstantiatesTo substitution) types instances →
            callCountOf instances < callCountOf types) := by
  induction types with
  | nil => exact .inl (by simp)
  | cons type types ih =>
      have rest := ih fun later laterMem =>
        each later (List.mem_cons_of_mem _ laterMem)
      rcases each type List.mem_cons_self with fixed | ⟨positive, fewer⟩
      · rcases rest with restFixed | ⟨restPositive, restFewer⟩
        · exact .inl (List.forall_mem_cons.mpr ⟨fixed, restFixed⟩)
        · refine .inr ⟨?_, ?_⟩
          · rw [callCountOf_cons]
            omega
          · rintro _ (_ | ⟨ofType, ofTypes⟩)
            obtain rfl := Except.ok.inj (fixed.symm.trans ofType)
            have drop := restFewer _ ofTypes
            rw [callCountOf_cons, callCountOf_cons]
            omega
      · refine .inr ⟨?_, ?_⟩
        · rw [callCountOf_cons]
          omega
        · rintro _ (_ | ⟨ofType, ofTypes⟩)
          have drop := fewer _ ofType
          rw [callCountOf_cons, callCountOf_cons]
          rcases rest with restFixed | ⟨_, restFewer⟩
          · rw [instances_eq_of_fixed restFixed ofTypes]
            omega
          · have restDrop := restFewer _ ofTypes
            omega

end Ty

/-- Call results in the last slot are gone once they are spread. -/
theorem Spreads.fewer_of_endsInCall {slots spread : List (Slot Ty)}
    (spreads : Spreads slots spread)
    (ends : (Ty.tuple slots).endsInCall = true) :
    Ty.callCountOf (spread.map Slot.type) <
      Ty.callCountOf (slots.map Slot.type) := by
  cases spreads with
  | empty => simp [Ty.endsInCall] at ends
  | @kept slots last plain =>
      have isCall : last.type.kind = .multiReturn := by
        simpa [Ty.endsInCall] using ends
      exact absurd isCall (Ty.callResults?_eq_none_iff.mp plain)
  | @listed slots placed last types isListed places =>
      have lastCount : last.type.callCount = Ty.callCountOf types + 1 := by
        rw [isListed]
        exact Ty.callCount_eq _
      rw [Ty.callCountOf_concat, List.map_append, Ty.callCountOf_append,
        types_placeResults places]
      omega
  | @repeating slots last base isRepeating =>
      have lastCount : last.type.callCount = Ty.callCountOf [base] + 1 := by
        rw [isRepeating]
        exact Ty.callCount_eq _
      rw [Ty.callCountOf_concat]
      omega

theorem callCountOf_spreadLast_le {slots spread : List (Slot Ty)}
    (spreads : spreadLast slots = .ok spread) :
    Ty.callCountOf (spread.map Slot.type) ≤
      Ty.callCountOf (slots.map Slot.type) := by
  cases ends : (Ty.tuple slots).endsInCall with
  | false =>
      rw [spreadLast_eq_self ends] at spreads
      obtain rfl := Except.ok.inj spreads
      exact Nat.le_refl _
  | true =>
      exact Nat.le_of_lt
        ((spreads_of_spreadLast spreads).fewer_of_endsInCall ends)

namespace Ty

variable {substitution : Substitution} {type result : Ty}

theorem types_of_instantiates {slots placed : List (Slot Ty)}
    (ofSlots : List.Forall₂ (Slot.Instantiates substitution) slots placed) :
    List.Forall₂ (InstantiatesTo substitution)
      (slots.map Slot.type) (placed.map Slot.type) := by
  rw [List.forall₂_map_left_iff, List.forall₂_map_right_iff]
  exact ofSlots.imp fun _ _ instantiates => instantiates.type

/-- A pass over a stable node keeps its kind and adds no call results to those
of the instantiated parts. -/
theorem exists_instances (stable : type.Stable substitution)
    (succeeds : type.instantiate substitution = .ok result) :
    result.kind = type.kind ∧
      ∃ instances,
        List.Forall₂ (InstantiatesTo substitution) type.parts instances ∧
        callCountOf result.parts ≤ callCountOf instances := by
  cases instantiated_of_eq_ok succeeds with
  | named name =>
      have kept : substitution.atName name = .named name := stable
      rw [kept]
      exact ⟨rfl, [], .nil, Nat.le_refl _⟩
  | expand name =>
      have kept : substitution.atExpand name = .expand name := stable
      rw [kept]
      exact ⟨rfl, [], .nil, Nat.le_refl _⟩
  | union ofMembers =>
      exact ⟨rfl, _, ofMembers, callCountOf_le_of_sublist (distinct_sublist _)⟩
  | @tuple slots placed spread ofSlots spreads =>
      exact ⟨rfl, _, types_of_instantiates ofSlots,
        callCountOf_spreadLast_le spreads⟩
  | generic base ofArguments => exact ⟨rfl, _, ofArguments, Nat.le_refl _⟩
  | results ofTypes => exact ⟨rfl, _, ofTypes, Nat.le_refl _⟩
  | array ofPart | variadic ofPart | repeating ofPart =>
      exact ⟨rfl, _, .cons ofPart .nil, Nat.le_refl _⟩
  | _ => exact ⟨rfl, [], .nil, Nat.le_refl _⟩

/-- A tuple whose members are fixed may still have call results to spread. -/
theorem fewer_of_fixed_slots {slots : List (Slot Ty)}
    (ends : (Ty.tuple slots).endsInCall = true)
    (fixed : ∀ slot ∈ slots,
      slot.type.instantiate substitution = .ok slot.type)
    (succeeds : (Ty.tuple slots).instantiate substitution = .ok result) :
    result.callCount < (Ty.tuple slots).callCount := by
  have inPlace :
      List.Forall₂ (Slot.Instantiates substitution) slots slots :=
    List.forall₂_same.mpr fun slot slotMem => ⟨rfl, rfl, fixed slot slotMem⟩
  cases instantiated_of_eq_ok succeeds with
  | @tuple _ placed spread ofSlots spreads =>
      have unchanged := instantiateSlots_eq_ok.mpr inPlace
      rw [instantiateSlots_eq_ok.mpr ofSlots] at unchanged
      obtain rfl := Except.ok.inj unchanged
      rw [callCount_eq, callCount_eq]
      exact (spreads_of_spreadLast spreads).fewer_of_endsInCall ends

/-- Where the parts are fixed and nothing is left to spread, so is the
whole. -/
theorem fixed_of_fixed_parts (stable : type.Stable substitution)
    (plain : type.endsInCall = false)
    (fixed : ∀ part ∈ type.parts,
      part.instantiate substitution = .ok part) :
    type.instantiate substitution = .ok type := by
  cases type with
  | named name =>
      have kept : substitution.atName name = .named name := stable
      exact congrArg Except.ok kept
  | expand name =>
      have kept : substitution.atExpand name = .expand name := stable
      exact congrArg Except.ok kept
  | union members =>
      have unmerged : distinct members = members :=
        distinctFrom_eq_self (by simp) stable
      have succeeds : (Ty.union members).instantiate substitution =
          .ok (unionOf members) :=
        (Instantiated.union (List.forall₂_same.mpr fixed)).eq_ok
      rw [unionOf, unmerged] at succeeds
      exact succeeds
  | tuple slots =>
      refine (Instantiated.tuple (List.forall₂_same.mpr ?_)
        (spreadLast_eq_self plain)).eq_ok
      intro slot slotMem
      exact ⟨rfl, rfl, fixed slot.type (List.mem_map_of_mem slotMem)⟩
  | generic base arguments =>
      have kept : substitution.atBase base = base := stable
      have succeeds :=
        (Instantiated.generic base (List.forall₂_same.mpr fixed)).eq_ok
      rw [kept] at succeeds
      exact succeeds
  | results types =>
      exact (Instantiated.results (List.forall₂_same.mpr fixed)).eq_ok
  | array element =>
      exact (Instantiated.array (fixed element (by simp [parts]))).eq_ok
  | variadic element =>
      exact (Instantiated.variadic (fixed element (by simp [parts]))).eq_ok
  | repeating base =>
      exact (Instantiated.repeating (fixed base (by simp [parts]))).eq_ok
  | _ => rfl

theorem fixedOrFewer_of_fixed_parts (stable : type.Stable substitution)
    (fixed : ∀ part ∈ type.parts,
      part.instantiate substitution = .ok part) :
    type.FixedOrFewer substitution := by
  cases ends : type.endsInCall with
  | false => exact .inl (fixed_of_fixed_parts stable ends fixed)
  | true =>
      refine .inr ⟨callCount_pos_of_endsInCall ends, fun result succeeds => ?_⟩
      cases type with
      | tuple slots =>
          refine fewer_of_fixed_slots ends (fun slot slotMem => ?_) succeeds
          exact fixed slot.type (List.mem_map_of_mem slotMem)
      | _ => simp [endsInCall] at ends

theorem fixedOrFewer_of_settled (settled : type.Settled substitution) :
    type.FixedOrFewer substitution := by
  induction type using Ty.inductionOnParts with
  | step type ih =>
      obtain ⟨stable, partsSettled⟩ := settled_iff.mp settled
      have each : ∀ part ∈ type.parts, part.FixedOrFewer substitution :=
        fun part partMem => ih part partMem (partsSettled part partMem)
      rcases fixed_or_fewer_of_forall each with fixed | ⟨positive, fewer⟩
      · exact fixedOrFewer_of_fixed_parts stable fixed
      · refine .inr ⟨?_, fun result succeeds => ?_⟩
        · rw [callCount_eq]
          omega
        · obtain ⟨sameKind, instances, ofParts, atMost⟩ :=
            exists_instances stable succeeds
          have drop := fewer instances ofParts
          rw [callCount_eq result, callCount_eq type, sameKind]
          omega

/-- Instantiate a type several times over, each time what came out last. -/
def instantiateTimes (substitution : Substitution) :
    Nat → Ty → Except InstantiationError Ty
  | 0, type => .ok type
  | count + 1, type => do
      let result ← type.instantiate substitution
      instantiateTimes substitution count result

theorem instantiateTimes_of_fixed
    (fixed : type.instantiate substitution = .ok type) (count : Nat) :
    instantiateTimes substitution count type = .ok type := by
  induction count with
  | zero => rfl
  | succ count ih => exact bind_eq_ok.mpr ⟨type, fixed, ih⟩

theorem fixed_of_instantiateTimes (formed : substitution.Formed)
    (apart : substitution.Apart) {count : Nat} {last : Ty}
    (settled : type.Settled substitution) (enough : type.callCount ≤ count)
    (passes : instantiateTimes substitution count type = .ok last) :
    last.instantiate substitution = .ok last := by
  induction count generalizing type with
  | zero =>
      obtain rfl := Except.ok.inj passes
      rcases fixedOrFewer_of_settled settled with fixed | ⟨positive, _⟩
      · exact fixed
      · omega
  | succ count ih =>
      rcases fixedOrFewer_of_settled settled with fixed | ⟨_, fewer⟩
      · -- All passes return the type itself.
        rw [instantiateTimes_of_fixed fixed] at passes
        obtain rfl := Except.ok.inj passes
        exact fixed
      · -- One pass is used up, and so is at least one of the call results.
        obtain ⟨next, succeeds, morePasses⟩ := bind_eq_ok.mp passes
        have drop := fewer next succeeds
        exact ih (settled_of_instantiate formed apart succeeds) (by omega)
          morePasses

/-- After the first pass, as many passes as there are call results left settle
a type for good. -/
theorem instantiate_stabilises (substitution : Substitution)
    (formed : substitution.Formed) (apart : substitution.Apart)
    (type result : Ty)
    (succeeds : type.instantiate substitution = .ok result) :
    (∀ last,
        instantiateTimes substitution result.callCount result = .ok last →
          last.instantiate substitution = .ok last) ∧
      (result.callCount = 0 →
        result.instantiate substitution = .ok result) := by
  have settled := settled_of_instantiate formed apart succeeds
  refine ⟨fun last passes => ?_, fun noCalls => ?_⟩
  · exact fixed_of_instantiateTimes formed apart settled (Nat.le_refl _) passes
  · exact fixed_of_instantiateTimes formed apart settled (Nat.le_of_eq noCalls)
      rfl

/-- Spreading once more makes the two members of a union the same. -/
theorem instantiate_stabilises_merging :
    let substitution : Substitution :=
      Table.ofList [("R", .results [.string, .results [.integer]])]
    let type := unionOf [tupleOf [.named "R"], tupleOf [.string, .integer]]
    let result := Ty.union
      [tupleOf [.string, .results [.integer]], tupleOf [.string, .integer]]
    let last := Ty.union [tupleOf [.string, .integer]]
    substitution.Formed ∧ substitution.Apart ∧
      type.instantiate substitution = .ok result ∧ result.callCount = 1 ∧
      instantiateTimes substitution 1 result = .ok last ∧
      last.instantiate substitution = .ok last := by
  intro substitution type result last
  have bound : ∀ name replacement,
      substitution.get? name = some replacement →
        name = "R" ∧ replacement = .results [.string, .results [.integer]] := by
    intro name replacement found
    simp [substitution, Table.ofList] at found
    exact ⟨found.1.symm, found.2.symm⟩
  have formed : substitution.Formed := by
    intro name replacement found
    obtain ⟨_, rfl⟩ := bound name replacement found
    refine .results (List.forall_mem_cons.mpr ⟨.named _, ?_⟩)
    refine List.forall_mem_singleton.mpr (.results ?_)
    exact List.forall_mem_singleton.mpr (.named _)
  have apart : substitution.Apart := by
    intro name replacement found identifier mentioned
    obtain ⟨_, rfl⟩ := bound name replacement found
    have scalar : "string" = identifier ∨ "integer" = identifier := by
      simpa [Mentions, nodes, nodesOfList, identifier?, string, integer]
        using mentioned
    rcases scalar with rfl | rfl <;> rfl
  have succeeds : type.instantiate substitution = .ok result := by rfl
  refine ⟨formed, apart, succeeds, by decide, by rfl, ?_⟩
  exact (instantiate_stabilises substitution formed apart type result
    succeeds).1 last (by rfl)

end Ty

end LuaTyping
