import LuaTyping.Proofs.SubtypeChecking

/-!
# Changed declarations

How subtype answers depend on the declarations.  Searches under different
declarations visit names in unrelated orders and skip different branches, so
their moves cannot be compared.  But each of them decides the subtype relation
of its own declarations, and that relation only grows with the declarations:
a derivation can be replayed as soon as every supertype in it is declared,
written in whatever way.  The order of supertypes and their repetitions do not
enter into it.
-/

namespace LuaTyping

/-- Under larger declarations, which have every supertype in some spelling,
every derivation can be replayed. -/
theorem SubtypeOf.mono {supers larger : Name → List Ty} {source target : Ty}
    (declares : ∀ name, ∀ super ∈ supers name,
      ∃ spelling ∈ larger name, spelling.same super = true)
    (derivation : SubtypeOf supers source target) :
    SubtypeOf larger source target := by
  have obeys : SubtypeRules supers (SubtypeOf larger) :=
    { SubtypeOf.rules larger with
      declared := by
        intro source super target name named superMem superBelow
        obtain ⟨spelling, spellingMem, same⟩ := declares name super superMem
        have spellingBelow := of_same_of_subtypeOf same superBelow
        exact .declared named spellingMem spellingBelow }
  exact derivation.least obeys

namespace Context

theorem isSubtype_or_exceeded_of_declares {context larger : Context}
    (declares : ∀ name, ∀ super ∈ context.supers name,
      ∃ spelling ∈ larger.supers name, spelling.same super = true)
    {source target : Ty} (holds : context.isSubtype source target = true) :
    larger.isSubtype source target = true ∨
      (Checker.ask { context := larger } source target).2.exceeded =
        true := by
  have derivation : SubtypeOf context.supers source target :=
    (context.relate_decides target source).sound holds
  exact larger.isSubtype_or_exceeded (derivation.mono declares)

theorem isSubtype_of_subset {context larger : Context}
    (subset : ∀ name, context.supers name ⊆ larger.supers name)
    {source target : Ty}
    (within : (larger.check source target).exceeded = false)
    (holds : context.isSubtype source target = true) :
    larger.isSubtype source target = true := by
  have declares : ∀ name, ∀ super ∈ context.supers name,
      ∃ spelling ∈ larger.supers name, spelling.same super = true :=
    fun name super superMem =>
      ⟨super, subset name superMem, super.same_refl⟩
  exact (isSubtype_or_exceeded_of_declares declares holds).resolve_right
    (Bool.eq_false_iff.mp within)

/-- Within the limits, neither the order of declared supertypes nor their
repetitions can be told from the answers. -/
theorem isSubtype_eq_of_mem_iff {context other : Context}
    (sameSupers : ∀ name super,
      super ∈ context.supers name ↔ super ∈ other.supers name)
    {source target : Ty}
    (within : (context.check source target).exceeded = false)
    (otherWithin : (other.check source target).exceeded = false) :
    context.isSubtype source target = other.isSubtype source target := by
  rw [Bool.eq_iff_iff]
  constructor
  · exact isSubtype_of_subset (fun name super => (sameSupers name super).mp)
      otherWithin
  · exact isSubtype_of_subset (fun name super => (sameSupers name super).mpr)
      within

/-- All declared supertypes can be formed, as they are when their unions are
built by `Ty.unionOf`. -/
def Formed (context : Context) : Prop :=
  ∀ name, ∀ super ∈ context.supers name, super.WellFormed

/-- Every supertype declared in the smaller context is the same as one that
the larger context declares for the same name. -/
def Covers (larger context : Context) : Prop :=
  ∀ name, ∀ super ∈ context.supers name,
    ∃ spelling ∈ larger.supers name, super.same spelling = true

/-- A supertype that is found is found again under larger or rearranged
declarations and any limits, unless the second query hits a limit. -/
theorem isSubtype_survives_more_declarations {context larger : Context}
    (formed : context.Formed) (largerFormed : larger.Formed)
    (covers : larger.Covers context) (source target : Ty)
    (holds : context.isSubtype source target = true) :
    larger.isSubtype source target = true ∨
      (Checker.ask { context := larger } source target).2.exceeded =
        true := by
  refine isSubtype_or_exceeded_of_declares ?_ holds
  intro name super superMem
  obtain ⟨spelling, spellingMem, same⟩ := covers name super superMem
  -- Equality of types can be turned round because both types are formed.
  have reversed := Ty.same_symm (formed name super superMem)
    (largerFormed name spelling spellingMem) same
  exact ⟨spelling, spellingMem, reversed⟩

/-- Declarations of readings, and the same declarations with the union turned
round, with a loop, and in another order. -/
theorem isSubtype_survives_more_declarations_readings :
    let context : Context :=
      { supers := fun
          | "Reading" => [.unionOf [.integer, .nil], .named "Sample"]
          | _ => []
        limits := ⟨1, 1⟩ }
    let larger : Context :=
      { supers := fun
          | "Reading" => [.named "Sample", .unionOf [.nil, .integer]]
          | "Sample" => [.named "Reading"]
          | _ => []
        limits := ⟨2, 3⟩ }
    let source := Ty.named "Reading"
    let target := Ty.unionOf [.integer, .string, .nil]
    context.Formed ∧ larger.Formed ∧ larger.Covers context ∧
      context.isSubtype source target = true ∧
      (larger.isSubtype source target = true ∨
        (Checker.ask { context := larger } source target).2.exceeded =
          true) := by
  intro context larger source target
  have scalars : ∀ member ∈ [Ty.integer, .nil], member.WellFormed :=
    List.forall_mem_cons.mpr ⟨.named _, List.forall_mem_singleton.mpr .nil⟩
  have reversed : ∀ member ∈ [.nil, Ty.integer], member.WellFormed :=
    List.forall_mem_cons.mpr ⟨.nil, List.forall_mem_singleton.mpr (.named _)⟩
  have formed : context.Formed := by
    intro name super superMem
    dsimp only [context] at superMem
    split at superMem
    · rcases List.mem_pair.mp superMem with rfl | rfl
      · exact .union scalars
      · exact .named _
    · simp at superMem
  have largerFormed : larger.Formed := by
    intro name super superMem
    dsimp only [larger] at superMem
    split at superMem
    · rcases List.mem_pair.mp superMem with rfl | rfl
      · exact .named _
      · exact .union reversed
    · rw [List.mem_singleton.mp superMem]
      exact .named _
    · simp at superMem
  have covers : larger.Covers context := by
    intro name super superMem
    dsimp only [context] at superMem
    split at superMem
    · dsimp only [larger]
      revert super
      decide
    · simp at superMem
  refine ⟨formed, largerFormed, covers, by decide, ?_⟩
  exact isSubtype_survives_more_declarations formed largerFormed covers _ _
    (by decide)

end Context

end LuaTyping
