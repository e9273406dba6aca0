import LuaTyping.Proofs.EqualInstances

/-!
# Instantiation that binds nothing

A substitution that binds none of the identifiers in a type finds nothing to
replace there.  It still spreads call results: a tuple with call results in
its last slot comes out changed, however deep it lies.

Such a change shows in the whole type and no other change makes up for it.
Spreading takes call results out of the type, nothing puts any in, and types
that are the same hold equally many of them.
-/

namespace LuaTyping

namespace Ty

variable {substitution : Substitution} {type result : Ty}

theorem fixed_of_plain (settled : type.Settled substitution)
    (plain : ∀ node ∈ type.nodes, node.endsInCall = false) :
    type.instantiate substitution = .ok type := by
  induction type using Ty.inductionOnParts with
  | step type ih =>
      obtain ⟨stable, partsSettled⟩ := settled_iff.mp settled
      obtain ⟨plainHere, plainBelow⟩ := forall_nodes.mp plain
      apply fixed_of_fixed_parts stable plainHere
      intro part partMem
      exact ih part partMem (partsSettled part partMem)
        (plainBelow part partMem)

/-- If a pass returns a settled type as it is, it changed none of the parts:
a part that changed would have lost call results for good. -/
theorem fixed_parts_of_fixed (settled : type.Settled substitution)
    (fixed : type.instantiate substitution = .ok type) :
    ∀ part ∈ type.parts, part.instantiate substitution = .ok part := by
  obtain ⟨stable, partsSettled⟩ := settled_iff.mp settled
  obtain ⟨_, instances, ofParts, atMost⟩ := exists_instances stable fixed
  have each : ∀ part ∈ type.parts, part.FixedOrFewer substitution := by
    intro part partMem
    exact fixedOrFewer_of_settled (partsSettled part partMem)
  rcases fixed_or_fewer_of_forall each with partsFixed | ⟨_, fewer⟩
  · exact partsFixed
  · have drop := fewer instances ofParts
    omega

theorem plain_of_fixed (settled : type.Settled substitution)
    (fixed : type.instantiate substitution = .ok type) :
    ∀ node ∈ type.nodes, node.endsInCall = false := by
  induction type using Ty.inductionOnParts with
  | step type ih =>
      have partsSettled := (settled_iff.mp settled).2
      have partsFixed := fixed_parts_of_fixed settled fixed
      refine forall_nodes.mpr ⟨?_, ?_⟩
      · cases type with
        | tuple slots =>
            rw [← Bool.not_eq_true]
            intro ends
            have drop : (Ty.tuple slots).callCount <
                (Ty.tuple slots).callCount := by
              refine fewer_of_fixed_slots ends ?_ fixed
              intro slot slotMem
              exact partsFixed slot.type (List.mem_map_of_mem slotMem)
            omega
        | _ => rfl
      · intro part partMem
        exact ih part partMem (partsSettled part partMem)
          (partsFixed part partMem)

/-- A pass over a settled type that yields the same type changed nothing. -/
theorem fixed_of_same (formed : type.WellFormed)
    (resultFormed : result.WellFormed) (settled : type.Settled substitution)
    (succeeds : type.instantiate substitution = .ok result)
    (same : result.same type = true) :
    type.instantiate substitution = .ok type := by
  have countEq := callCount_eq_of_same resultFormed formed same
  rcases fixedOrFewer_of_settled settled with fixed | ⟨_, fewer⟩
  · exact fixed
  · have drop := fewer result succeeds
    omega

/-- Where no identifier is bound, an instance is the same as the type exactly
if no tuple inside ends in call results, and then it is the type itself. -/
theorem instantiate_unbound_same_iff (substitution : Substitution) (type : Ty)
    (formed : type.WellFormed)
    (unbound : ∀ identifier, type.Mentions identifier →
      substitution.get? identifier = none) :
    (∀ result, type.instantiate substitution = .ok result →
      (result.same type = true ↔
        ∀ node ∈ type.nodes, node.endsInCall = false)) ∧
      ((∀ node ∈ type.nodes, node.endsInCall = false) →
        type.instantiate substitution = .ok type) := by
  have settled := settled_of_unbound formed unbound
  refine ⟨fun result succeeds => ⟨fun same => ?_, fun plain => ?_⟩,
    fixed_of_plain settled⟩
  · -- Nothing is put in, so it does not matter what types are bound.
    have resultFormed : result.WellFormed := by
      refine wellFormed_of_mentioned ?_ succeeds
      intro name replacement mentioned found
      simp [unbound name mentioned] at found
    exact plain_of_fixed settled
      (fixed_of_same formed resultFormed settled succeeds same)
  · rw [fixed_of_plain settled plain] at succeeds
    obtain rfl := Except.ok.inj succeeds
    exact same_refl type

/-- Each member of the first union spreads one result, and what comes out of
its first member is what its second member was.  In the second union call
results stand in the middle of a tuple, and nothing is spread. -/
theorem instantiate_unbound_shifted :
    let substitution : Substitution := Table.ofList [("T", .nil)]
    let spread := unionOf
      [tupleOf [.string, .results [.results [.integer]]],
        tupleOf [.string, .results [.integer]]]
    let result := unionOf
      [tupleOf [.string, .results [.integer]], tupleOf [.string, .integer]]
    let kept := unionOf
      [.tuple [⟨4, .results [.string], none⟩, ⟨4, .expand "R", some ⟨⟨1⟩, 2⟩⟩],
        .generic "List" [.nil]]
    (∀ type ∈ [spread, kept], type.WellFormed ∧
        ∀ identifier, type.Mentions identifier →
          substitution.get? identifier = none) ∧
      spread.instantiate substitution = .ok result ∧
      result.same spread = false ∧
      kept.instantiate substitution = .ok kept := by
  intro substitution spread result kept
  have admissible : ∀ type ∈ [spread, kept], type.WellFormed ∧
      ∀ identifier, type.Mentions identifier →
        substitution.get? identifier = none := by
    have atNodes : ∀ type ∈ [spread, kept], type.WellFormed ∧
        ∀ node ∈ type.nodes, ∀ identifier ∈ node.identifier?,
          substitution.get? identifier = none := by
      decide
    intro type typeMem
    refine ⟨(atNodes type typeMem).1, ?_⟩
    rintro identifier ⟨node, nodeMem, isIdentifier⟩
    exact (atNodes type typeMem).2 node nodeMem identifier isIdentifier
  have succeeds : spread.instantiate substitution = .ok result := by rfl
  obtain ⟨spreadFormed, spreadUnbound⟩ := admissible spread (by simp)
  obtain ⟨keptFormed, keptUnbound⟩ := admissible kept (by simp)
  refine ⟨admissible, succeeds, ?_, ?_⟩
  · rw [← Bool.not_eq_true, (instantiate_unbound_same_iff substitution spread
      spreadFormed spreadUnbound).1 result succeeds]
    decide
  · exact (instantiate_unbound_same_iff substitution kept keptFormed
      keptUnbound).2 (by decide)

end Ty

end LuaTyping
