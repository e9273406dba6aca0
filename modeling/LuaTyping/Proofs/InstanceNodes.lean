import LuaTyping.Proofs.InstantiationResults
import LuaTyping.Proofs.TypeNodes

/-!
# The nodes of an instance

Instantiation rebuilds a type node by node, except that names and placeholders
are replaced as a whole.  A node of the instance therefore comes from one of
two places: it was rebuilt from a node of the type, or it stands inside a type
that was put in.  Spreading call results moves nodes and adds none.
-/

namespace LuaTyping

theorem Ty.mem_nodes_of_part {type part node : Ty} (partMem : part ∈ type.parts)
    (nodeMem : node ∈ part.nodes) : node ∈ type.nodes := by
  rw [nodes_eq]
  exact List.mem_cons_of_mem _ (List.mem_flatMap.mpr ⟨part, partMem, nodeMem⟩)

/-- Whatever stands in a slot after spreading stood in a slot before. -/
theorem Spreads.exists_source {slots spread : List (Slot Ty)}
    (spreads : Spreads slots spread) {slot : Slot Ty}
    (slotMem : slot ∈ spread) :
    ∃ source ∈ slots, ∀ node ∈ slot.type.nodes, node ∈ source.type.nodes := by
  cases spreads with
  | empty => simp at slotMem
  | kept slots plain => exact ⟨slot, slotMem, fun _ nodeMem => nodeMem⟩
  | @listed slots placed last types isListed places =>
      rcases List.mem_append.mp slotMem with before | isPlaced
      · exact ⟨slot, by simp [before], fun _ nodeMem => nodeMem⟩
      · have typeMem : slot.type ∈ last.type.parts := by
          rw [isListed, Ty.parts, ← types_placeResults places]
          exact List.mem_map_of_mem isPlaced
        exact ⟨last, by simp, fun _ => Ty.mem_nodes_of_part typeMem⟩
  | repeating slots isRepeating =>
      exact ⟨slot, by simp [slotMem], fun _ nodeMem => nodeMem⟩

/-- A tuple that does not end in call results has nothing to spread. -/
theorem spreadLast_eq_self {slots : List (Slot Ty)}
    (plain : (Ty.tuple slots).endsInCall = false) :
    spreadLast slots = .ok slots := by
  rcases List.eq_nil_or_concat' slots with rfl | ⟨before, last, rfl⟩
  · rfl
  · have notCall : last.type.kind ≠ .multiReturn := by
      simpa [Ty.endsInCall] using plain
    exact spreadLast_of_plain before (Ty.callResults?_eq_none_iff.mpr notCall)

namespace Ty

variable {substitution : Substitution} {type result : Ty}

/-- Instantiation can only fail where call results are spread. -/
theorem exists_instantiate_of_parts
    (partsSucceed : ∀ part ∈ type.parts,
      ∃ made, part.instantiate substitution = .ok made)
    (spreadSucceeds : ∀ slots placed, type = .tuple slots →
      List.Forall₂ (Slot.Instantiates substitution) slots placed →
        ∃ spread, spreadLast placed = .ok spread) :
    ∃ result, type.instantiate substitution = .ok result := by
  have instancesExist := exists_forall₂ partsSucceed
  cases type with
  | union members =>
      obtain ⟨instances, ofMembers⟩ := instancesExist
      exact ⟨_, (Instantiated.union ofMembers).eq_ok⟩
  | tuple slots =>
      have slotsSucceed : ∀ slot ∈ slots,
          ∃ placed, Slot.Instantiates substitution slot placed := by
        intro slot slotMem
        obtain ⟨made, succeeds⟩ :=
          partsSucceed slot.type (List.mem_map_of_mem slotMem)
        exact ⟨⟨slot.index, made, slot.origin⟩, rfl, rfl, succeeds⟩
      obtain ⟨placed, ofSlots⟩ := exists_forall₂ slotsSucceed
      obtain ⟨spread, spreads⟩ := spreadSucceeds slots placed rfl ofSlots
      exact ⟨_, (Instantiated.tuple ofSlots spreads).eq_ok⟩
  | generic base arguments =>
      obtain ⟨instances, ofArguments⟩ := instancesExist
      exact ⟨_, (Instantiated.generic base ofArguments).eq_ok⟩
  | results types =>
      obtain ⟨instances, ofTypes⟩ := instancesExist
      exact ⟨_, (Instantiated.results ofTypes).eq_ok⟩
  | array element =>
      obtain ⟨made, succeeds⟩ := partsSucceed element List.mem_cons_self
      exact ⟨_, (Instantiated.array succeeds).eq_ok⟩
  | variadic element =>
      obtain ⟨made, succeeds⟩ := partsSucceed element List.mem_cons_self
      exact ⟨_, (Instantiated.variadic succeeds).eq_ok⟩
  | repeating base =>
      obtain ⟨made, succeeds⟩ := partsSucceed base List.mem_cons_self
      exact ⟨_, (Instantiated.repeating succeeds).eq_ok⟩
  | _ => exact ⟨_, rfl⟩

theorem kind_eq_of_instantiate (notNamed : type.kind ≠ .named)
    (notExpand : type.kind ≠ .expand)
    (succeeds : type.instantiate substitution = .ok result) :
    result.kind = type.kind := by
  cases instantiated_of_eq_ok succeeds with
  | named name => exact absurd rfl notNamed
  | expand name => exact absurd rfl notExpand
  | _ => rfl

/-- A property of all nodes of an instance follows from what is put in and
from what the other nodes are rebuilt to. -/
theorem forall_nodes_of_instantiate {holds : Ty → Prop}
    (atNames : ∀ name, .named name ∈ type.nodes →
      ∀ inner ∈ (substitution.atName name).nodes, holds inner)
    (atExpands : ∀ name, .expand name ∈ type.nodes →
      ∀ inner ∈ (substitution.atExpand name).nodes, holds inner)
    (rebuilt : ∀ node ∈ type.nodes, node.kind ≠ .named → node.kind ≠ .expand →
      ∀ made, node.instantiate substitution = .ok made → holds made)
    (succeeds : type.instantiate substitution = .ok result) :
    ∀ node ∈ result.nodes, holds node := by
  induction type using Ty.inductionOnParts generalizing result with
  | step type ih =>
      have ofPart : ∀ part ∈ type.parts, ∀ made,
          part.instantiate substitution = .ok made →
            ∀ node ∈ made.nodes, holds node := by
        intro part partMem made partSucceeds
        have below : ∀ node ∈ part.nodes, node ∈ type.nodes :=
          fun _ => mem_nodes_of_part partMem
        exact ih part partMem (fun name nameMem => atNames name (below _ nameMem))
          (fun name nameMem => atExpands name (below _ nameMem))
          (fun node nodeMem => rebuilt node (below node nodeMem)) partSucceeds
      have ofInstances : ∀ instances,
          List.Forall₂ (InstantiatesTo substitution) type.parts instances →
            ∀ made ∈ instances, ∀ node ∈ made.nodes, holds node := by
        intro instances ofParts made madeMem
        obtain ⟨part, partMem, partSucceeds⟩ :=
          exists_of_mem_right ofParts madeMem
        exact ofPart part partMem made partSucceeds
      have here : type.kind ≠ .named → type.kind ≠ .expand → holds result :=
        fun notNamed notExpand => rebuilt type type.mem_nodes_self notNamed
          notExpand result succeeds
      cases instantiated_of_eq_ok succeeds with
      | named name => exact atNames name (mem_nodes_self _)
      | expand name => exact atExpands name (mem_nodes_self _)
      | union ofMembers =>
          refine forall_nodes.mpr ⟨here (by simp [kind]) (by simp [kind]), ?_⟩
          intro member memberMem
          exact ofInstances _ ofMembers member
            ((distinct_sublist _).subset memberMem)
      | @tuple slots placed spread ofSlots spreads =>
          refine forall_nodes.mpr ⟨here (by simp [kind]) (by simp [kind]), ?_⟩
          intro part partMem node nodeMem
          obtain ⟨slot, slotMem, rfl⟩ := List.mem_map.mp partMem
          obtain ⟨source, sourceMem, fromSource⟩ :=
            (spreads_of_spreadLast spreads).exists_source slotMem
          obtain ⟨original, originalMem, instantiates⟩ :=
            exists_of_mem_right ofSlots sourceMem
          exact ofPart original.type (List.mem_map_of_mem originalMem) _
            instantiates.type node (fromSource node nodeMem)
      | generic base ofArguments =>
          exact forall_nodes.mpr ⟨here (by simp [kind]) (by simp [kind]),
            ofInstances _ ofArguments⟩
      | results ofTypes =>
          exact forall_nodes.mpr ⟨here (by simp [kind]) (by simp [kind]),
            ofInstances _ ofTypes⟩
      | array ofElement | variadic ofElement | repeating ofElement =>
          exact forall_nodes.mpr ⟨here (by simp [kind]) (by simp [kind]),
            ofInstances _ (.cons ofElement .nil)⟩
      | _ =>
          exact forall_nodes.mpr ⟨here (by simp [kind]) (by simp [kind]),
            by simp [parts]⟩

end Ty

end LuaTyping
