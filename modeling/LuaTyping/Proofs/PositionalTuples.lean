import LuaTyping.Proofs.IndexOverflow
import LuaTyping.Proofs.RepeatedInstantiation

/-!
# Positional tuples

The index of a slot need not agree with its position, but tuples made from
plain lists of types have it so, and instantiation keeps it so.  Call results
are numbered from the index of the slot that held them and not from its
position.  Where the two agree, the new slots carry their positions again,
whether the tuple gets longer or shorter.

A positional tuple overflows only if it would get more slots than there are
indices, so that instantiation succeeds as long as no tuple grows that long.
-/

namespace LuaTyping

namespace Ty

/-- Whether the slots of a tuple carry their positions. -/
def inOrder : Ty → Bool
  | .tuple slots => slots.map Slot.index == List.range slots.length
  | _ => true

/-- A type in which all tuples carry their positions. -/
def Positional (type : Ty) : Prop :=
  ∀ node ∈ type.nodes, node.inOrder = true

instance : DecidablePred Positional := fun type =>
  inferInstanceAs (Decidable (∀ node ∈ type.nodes, node.inOrder = true))

/-- Tuples made from lists of types carry their positions. -/
theorem positional_tupleOf {types : List Ty}
    (each : ∀ type ∈ types, type.Positional) :
    (tupleOf types).Positional := by
  refine forall_nodes.mpr ⟨?_, ?_⟩
  · simp only [tupleOf, inOrder, List.map_map, List.length_map,
      List.length_zipIdx, beq_iff_eq]
    apply List.ext_getElem <;> simp
  · intro part partMem
    obtain ⟨slot, slotMem, rfl⟩ := List.mem_map.mp partMem
    obtain ⟨⟨type, position⟩, typeMem, rfl⟩ := List.mem_map.mp slotMem
    exact each type (List.fst_mem_of_mem_zipIdx typeMem)

@[simp]
theorem inOrder_concat {before : List (Slot Ty)} {last : Slot Ty} :
    (Ty.tuple (before ++ [last])).inOrder = true ↔
      (Ty.tuple before).inOrder = true ∧ last.index = before.length := by
  simp [inOrder, List.range_succ]

end Ty

@[simp]
theorem map_index_numbered (origin : Option Origin) (index : Nat)
    (types : List Ty) :
    (numbered origin index types).map Slot.index =
      (List.range types.length).map (index + ·) := by
  apply List.ext_getElem <;> simp [numbered]

theorem inOrder_append_numbered {slots : List (Slot Ty)}
    (ordered : (Ty.tuple slots).inOrder = true) (origin : Option Origin)
    (types : List Ty) :
    (Ty.tuple (slots ++ numbered origin slots.length types)).inOrder = true := by
  have indices : slots.map Slot.index = List.range slots.length := by
    simpa [Ty.inOrder] using ordered
  have count : (numbered origin slots.length types).length = types.length := by
    simp [numbered]
  simp [Ty.inOrder, indices, count, List.range_add]

theorem inOrder_spreadFreely {slots : List (Slot Ty)}
    (ordered : (Ty.tuple slots).inOrder = true) :
    (Ty.tuple (spreadFreely slots)).inOrder = true := by
  rcases List.eq_nil_or_concat' slots with rfl | ⟨before, last, rfl⟩
  · rfl
  · obtain ⟨beforeOrdered, lastIndex⟩ := Ty.inOrder_concat.mp ordered
    rw [spreadFreely_concat, Slot.spread, lastIndex]
    split
    · exact inOrder_append_numbered beforeOrdered last.origin _
    · rw [List.append_nil]
      exact beforeOrdered
    · exact ordered

/-- A substitution that puts in positional types. -/
def Substitution.Positional (substitution : Substitution) : Prop :=
  ∀ name type, substitution.get? name = some type → type.Positional

instance : DecidablePred Substitution.Positional := fun substitution =>
  decidable_of_iff (∀ entry ∈ substitution.entries, entry.2.Positional)
    (substitution.forall_entries fun _ type => type.Positional)

namespace Ty

variable {substitution : Substitution} {type result : Ty}

/-- Number of slots that a tuple has once the call results listed in its last
slot are spread.  Where there are none it is taken as zero. -/
def spreadLength (substitution : Substitution) : Ty → Nat
  | .tuple slots =>
      match slots.getLast? with
      | some last =>
          match last.type.instantiate substitution with
          | .ok (.results types) => slots.length - 1 + types.length
          | _ => 0
      | none => 0
  | _ => 0

/-- No tuple inside a type gets more slots than there are indices. -/
def Fits (substitution : Substitution) (type : Ty) : Prop :=
  ∀ node ∈ type.nodes, node.spreadLength substitution ≤ UInt64.size

instance : Decidable (type.Fits substitution) :=
  inferInstanceAs (Decidable
    (∀ node ∈ type.nodes, node.spreadLength substitution ≤ UInt64.size))

/-- A positional tuple that fits does not overflow. -/
theorem not_overflows_of_fits {slots : List (Slot Ty)}
    (ordered : (Ty.tuple slots).inOrder = true)
    (fits : (Ty.tuple slots).spreadLength substitution ≤ UInt64.size)
    (within : ∀ slot ∈ slots, slot.type.Within substitution) :
    (Ty.tuple slots).overflows substitution = false := by
  rcases List.eq_nil_or_concat' slots with rfl | ⟨before, last, rfl⟩
  · rfl
  · have lastIndex := (inOrder_concat.mp ordered).2
    have succeeds := (within last (by simp)).instantiate_eq
    simp only [overflows, List.map_append, List.map_singleton,
      List.getLast?_concat, Option.any_some]
    rw [Slot.overflows]
    split
    · rename_i types isListed
      -- The results start at the position of the last slot, so the last index
      -- is one less than the number of slots.
      have listed : last.type.ideal substitution = .results types := isListed
      have length : before.length + types.length ≤ UInt64.size := by
        simpa [spreadLength, succeeds, listed] using fits
      have largest : Slot.maxIndex = UInt64.size - 1 := rfl
      simp only [Slot.ideal, lastIndex, Bool.and_eq_false_iff,
        decide_eq_false_iff_not]
      omega
    · rfl

theorem within_of_positional (positional : type.Positional)
    (fits : type.Fits substitution) : type.Within substitution := by
  induction type using Ty.inductionOnParts with
  | step type ih =>
      obtain ⟨orderedHere, orderedBelow⟩ := forall_nodes.mp positional
      obtain ⟨fitsHere, fitsBelow⟩ := forall_nodes.mp fits
      have withinParts : ∀ part ∈ type.parts, part.Within substitution := by
        intro part partMem
        exact ih part partMem (orderedBelow part partMem)
          (fitsBelow part partMem)
      refine within_iff.mpr ⟨?_, withinParts⟩
      cases type with
      | tuple slots =>
          apply not_overflows_of_fits orderedHere fitsHere
          intro slot slotMem
          exact withinParts slot.type (List.mem_map_of_mem slotMem)
      | _ => rfl

theorem map_index_of_instantiates {slots placed : List (Slot Ty)}
    (ofSlots : List.Forall₂ (Slot.Instantiates substitution) slots placed) :
    placed.map Slot.index = slots.map Slot.index := by
  induction ofSlots with
  | nil => rfl
  | cons head tail ih => rw [List.map_cons, List.map_cons, head.index, ih]

theorem positional_of_instantiate (positional : type.Positional)
    (allPositional : substitution.Positional)
    (succeeds : type.instantiate substitution = .ok result) :
    result.Positional := by
  refine forall_nodes_of_instantiate ?_ ?_ ?_ succeeds
  · intro name _
    rw [Substitution.atName]
    cases found : substitution.get? name with
    | none => simp [nodes, inOrder]
    | some replacement => exact allPositional name replacement found
  · intro name _
    rcases substitution.atExpand_eq_or name with kept | found
    · simp [kept, nodes, inOrder]
    · exact allPositional name _ found
  · intro node nodeMem notNamed notExpand made rebuilds
    cases instantiated_of_eq_ok rebuilds with
    | named name => exact absurd rfl notNamed
    | expand name => exact absurd rfl notExpand
    | @tuple slots placed spread ofSlots spreads =>
        obtain rfl := (spreadLast_eq_ok.mp spreads).2
        apply inOrder_spreadFreely
        have ordered := positional _ nodeMem
        simp only [inOrder, map_index_of_instantiates ofSlots,
          ← ofSlots.length_eq] at ordered ⊢
        exact ordered
    | _ => rfl

theorem exists_positional_instance (positional : type.Positional)
    (allPositional : substitution.Positional)
    (fits : type.Fits substitution) :
    ∃ result, type.instantiate substitution = .ok result ∧
      result.Positional := by
  have succeeds := (within_of_positional positional fits).instantiate_eq
  exact ⟨_, succeeds,
    positional_of_instantiate positional allPositional succeeds⟩

/-- Instantiate a type with several substitutions, one after the other. -/
def instantiateEach : List Substitution → Ty → Except InstantiationError Ty
  | [], type => .ok type
  | substitution :: later, type => do
      let result ← type.instantiate substitution
      instantiateEach later result

/-- In no pass a tuple gets more slots than there are indices. -/
def FitsEach : List Substitution → Ty → Prop
  | [], _ => True
  | substitution :: later, type =>
      type.Fits substitution ∧ ∀ result,
        type.instantiate substitution = .ok result → result.FitsEach later

theorem exists_positional_instances {substitutions : List Substitution}
    (positional : type.Positional)
    (allPositional : ∀ substitution ∈ substitutions, substitution.Positional)
    (fits : type.FitsEach substitutions) :
    ∃ result, type.instantiateEach substitutions = .ok result ∧
      result.Positional := by
  induction substitutions generalizing type with
  | nil => exact ⟨type, rfl, positional⟩
  | cons substitution later ih =>
      obtain ⟨next, succeeds, nextPositional⟩ := exists_positional_instance
        positional (allPositional substitution (by simp)) fits.1
      obtain ⟨result, reaches, resultPositional⟩ := ih nextPositional
        (fun other otherMem => allPositional other (by simp [otherMem]))
        (fits.2 next succeeds)
      exact ⟨result, bind_eq_ok.mpr ⟨next, succeeds, reaches⟩,
        resultPositional⟩

/-- Positional types stay positional under every instantiation, and none
fails, as long as no tuple gets more slots than there are indices. -/
theorem instantiate_positional (type : Ty) (positional : type.Positional) :
    (∀ substitution : Substitution, substitution.Positional →
      type.Fits substitution →
        ∃ result, type.instantiate substitution = .ok result ∧
          result.Positional) ∧
    ∀ substitutions : List Substitution,
      (∀ substitution ∈ substitutions, substitution.Positional) →
        type.FitsEach substitutions →
          ∃ result, type.instantiateEach substitutions = .ok result ∧
            result.Positional :=
  ⟨fun _ => exists_positional_instance positional,
    fun _ => exists_positional_instances positional⟩

/-- The first pass makes the outer tuple longer, the second one makes the
inner tuple that was put in shorter. -/
theorem instantiate_positional_twice :
    let first : Substitution := Table.ofList
      [("R", .results [.integer, tupleOf [.nil, .expand "S"]])]
    let second : Substitution := Table.ofList [("S", .repeating .string)]
    let type := tupleOf [.string, .expand "R"]
    let result := tupleOf [.string, .integer, tupleOf [.nil]]
    type.Positional ∧ first.Positional ∧ second.Positional ∧
      type.FitsEach [first, second] ∧
      type.instantiateEach [first, second] = .ok result ∧
      result.Positional := by
  intro first second type result
  have positional : type.Positional := by decide
  have firstPositional : first.Positional := by decide
  have secondPositional : second.Positional := by decide
  have fits : type.FitsEach [first, second] := by
    refine ⟨by decide, fun next succeeds => ⟨?_, fun _ _ => trivial⟩⟩
    obtain rfl : tupleOf [.string, .integer, tupleOf [.nil, .expand "S"]] =
        next := Except.ok.inj (.trans rfl succeeds)
    decide
  obtain ⟨last, reaches, lastPositional⟩ :=
    (instantiate_positional type positional).2 [first, second]
      (by simp [firstPositional, secondPositional]) fits
  obtain rfl : result = last := Except.ok.inj (.trans rfl reaches)
  exact ⟨positional, firstPositional, secondPositional, fits, reaches,
    lastPositional⟩

end Ty

end LuaTyping
