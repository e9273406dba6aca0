import LuaTyping.Proofs.TypeNodes
import LuaTyping.Proofs.WiderLimits

/-!
# Queries about equal types

Types that are the same can be written in several ways, and a query about
another spelling takes another course: the members of a union are asked about
in another order, and the walks for them stop at other points.  Nevertheless
the answer is the same, even where a limit cuts a walk short.

Two facts make it so.  Members are asked about independently of each other,
since every search has a guard of its own.  And within a search the names are
tried in the order of the declarations, which do not depend on the spelling
of the query, so the two searches hit their limits at the same place.

Every step is proved in one direction, in which a yes is kept.  A union member
then needs one partner that is the same, and equality need not be turned round
inside the induction.
-/

namespace LuaTyping

theorem Ty.sharesName_congr_right {first second : Ty} (source : Ty)
    (same : first.same second = true) :
    source.sharesName first = source.sharesName second := by
  cases source <;> cases same_iff_alike.mp same <;> rfl

namespace Finding

@[simp]
theorem orElse_holds (first : Finding) (second : Unit → Finding) :
    (first.orElse second).holds = (first.holds || (second ()).holds) := by
  unfold orElse
  cases answered : first.holds <;> simp [after, answered]

@[simp]
theorem andThen_holds (first : Finding) (second : Unit → Finding) :
    (first.andThen second).holds = (first.holds && (second ()).holds) := by
  unfold andThen
  cases answered : first.holds <;> simp [after, answered]

@[simp]
theorem all_holds_iff {α : Type} {ask : α → Finding} {elements : List α} :
    (all ask elements).holds = true ↔
      ∀ element ∈ elements, (ask element).holds = true := by
  induction elements with
  | nil => simp [all, yes]
  | cons element elements ih =>
      simp [all, ih]

end Finding

namespace Context

variable {context : Context}

@[simp]
theorem relateSome_holds_iff {targets : List Ty} {source : Ty} :
    (context.relateSome targets source).holds = true ↔
      ∃ target ∈ targets, (context.relate target source).holds = true := by
  induction targets with
  | nil => simp [relateSome, Finding.no]
  | cons target targets ih =>
      simp [relateSome, ih]

theorem relateSlots_holds_iff {targets slots : List (Slot Ty)}
    (lengthEq : slots.length = targets.length) :
    (context.relateSlots targets slots).holds = true ↔
      List.Forall₂ (fun slot target =>
        (context.relate target.type slot.type).holds = true) slots targets := by
  induction targets generalizing slots with
  | nil =>
      obtain rfl := List.eq_nil_of_length_eq_zero lengthEq
      simp [relateSlots, Finding.yes]
  | cons target targets ih =>
      cases slots with
      | nil => simp at lengthEq
      | cons slot slots =>
          simp [relateSlots, ih (Nat.succ.inj lengthEq)]

end Context

/-- The second goal is for another spelling of the target.  Comparing by parts
keeps a yes, however the source is spelled. -/
structure Goal.Respells (goal other : Goal) : Prop where
  target : goal.target.same other.target = true
  byParts {source spelling : Ty} : spelling.same source = true →
    (goal.byParts source).KeepsYes (other.byParts spelling)

section Respelled

variable {goal other : Goal} {source spelling : Ty}

theorem Goal.Respells.met (respells : goal.Respells other)
    (same : spelling.same source = true) (met : goal.met source = true) :
    other.met spelling = true := by
  unfold Goal.met at met ⊢
  rw [Bool.or_eq_true] at met ⊢
  rcases met with sourceSame | shared
  · left
    exact Ty.same_trans (Ty.same_trans same sourceSame) respells.target
  · right
    rw [Ty.sharesName_of_same same,
      ← Ty.sharesName_congr_right source respells.target]
    exact shared

theorem Goal.Respells.eases (respells : goal.Respells other) :
    goal.Eases other where
  met super := respells.met super.same_refl
  byParts super := respells.byParts super.same_refl

theorem Context.settle_keepsYes (context : Context)
    (respells : goal.Respells other) (same : spelling.same source = true) :
    (context.settle goal source).KeepsYes (context.settle other spelling) := by
  unfold Context.settle
  by_cases met : other.met spelling = true
  · rw [if_pos met]
    intro _
    rfl
  · rw [if_neg met, if_neg (mt (respells.met same) met),
      Ty.declaredName?_of_same same]
    cases source.declaredName? with
    | some name =>
        exact search_keepsYes_of_eases (UInt32.le_refl _) respells.eases name
    | none => exact respells.byParts same

end Respelled

namespace Context

variable (context : Context)

theorem all_relateSome_keepsYes {members spellings targets others : List Ty}
    (spelled : ∀ spelling ∈ spellings, ∃ member ∈ members,
      spelling.same member = true)
    (covered : ∀ target ∈ targets, ∃ other ∈ others,
      target.same other = true)
    (step : ∀ target ∈ targets, ∀ other member spelling,
      target.same other = true → spelling.same member = true →
      (context.relate target member).KeepsYes
        (context.relate other spelling)) :
    (Finding.all (context.relateSome targets) members).KeepsYes
      (Finding.all (context.relateSome others) spellings) := by
  intro holds
  simp only [Finding.all_holds_iff, relateSome_holds_iff] at holds ⊢
  intro spelling spellingMem
  obtain ⟨member, memberMem, memberSame⟩ := spelled spelling spellingMem
  obtain ⟨target, targetMem, related⟩ := holds member memberMem
  obtain ⟨other, otherMem, targetSame⟩ := covered target targetMem
  exact ⟨other, otherMem,
    step target targetMem other member spelling targetSame memberSame related⟩

theorem relateSlots_keepsYes {slots spellings targets others : List (Slot Ty)}
    (spelled : List.Forall₂ (fun spelling slot =>
      spelling.type.same slot.type = true) spellings slots)
    (covered : List.Forall₂ (fun target other =>
      target.type.same other.type = true) targets others)
    (lengthEq : slots.length = targets.length)
    (step : ∀ target ∈ targets, ∀ other member spelling,
      target.type.same other = true → spelling.same member = true →
      (context.relate target.type member).KeepsYes
        (context.relate other spelling)) :
    (context.relateSlots targets slots).KeepsYes
      (context.relateSlots others spellings) := by
  have otherLength : spellings.length = others.length := by
    rw [spelled.length_eq, lengthEq, covered.length_eq]
  intro holds
  rw [relateSlots_holds_iff lengthEq] at holds
  rw [relateSlots_holds_iff otherLength]
  -- Position by position: from the spelling to the slot, to the target, and
  -- on to the other target.
  have toTargets : List.Forall₂ (fun (spelling target : Slot Ty) =>
      ∀ other, target.type.same other = true →
        (context.relate other spelling.type).holds = true)
      spellings targets := by
    refine forall₂_compose ?_ spelled holds
    intro spelling _ slot target targetMem slotSame related other otherSame
    exact step target targetMem other slot.type spelling.type otherSame
      slotSame related
  refine forall₂_compose ?_ toTargets covered
  intro spelling _ target other _ related otherSame
  exact related other.type otherSame

/-- A yes is kept when source and target are spelled in another way. -/
theorem relate_keepsYes_of_same {target other source spelling : Ty}
    (targetSame : target.same other = true)
    (sourceSame : spelling.same source = true) :
    (context.relate target source).KeepsYes
      (context.relate other spelling) := by
  induction target using Ty.partsInduction
    generalizing other source spelling with
  | any | unknown =>
      cases Ty.same_iff_alike.mp targetSame
      intro _
      rfl
  | union targets ih =>
      cases Ty.same_iff_alike.mp targetSame with
      | union _ covered =>
          rw [relate, relate]
          refine context.settle_keepsYes ⟨targetSame, ?_⟩ sourceSame
          intro source spelling same
          cases Ty.same_iff_alike.mp same with
          | union _ spelled =>
              apply context.all_relateSome_keepsYes spelled covered
              intro target targetMem other member spelling
              exact ih target targetMem
          | _ => exact keepsYes_congruence.no
  | tuple targets ih =>
      cases Ty.same_iff_alike.mp targetSame with
      | tuple covered =>
          rw [relate, relate]
          refine context.settle_keepsYes ⟨targetSame, ?_⟩ sourceSame
          intro source spelling same
          cases Ty.same_iff_alike.mp same with
          | tuple spelled =>
              dsimp only
              rw [spelled.length_eq, ← covered.length_eq]
              split
              · rename_i lengthEq
                apply context.relateSlots_keepsYes spelled covered lengthEq
                intro target targetMem other member spelling
                exact ih target targetMem
              · exact keepsYes_congruence.no
          | _ => exact keepsYes_congruence.no
  | array target ih =>
      cases Ty.same_iff_alike.mp targetSame with
      | array covered =>
          rw [relate, relate]
          refine context.settle_keepsYes ⟨targetSame, ?_⟩ sourceSame
          intro source spelling same
          cases Ty.same_iff_alike.mp same with
          | array spelled => exact ih covered spelled
          | _ => exact keepsYes_congruence.no
  | _ =>
      -- Any other target has no parts to compare.
      cases Ty.same_iff_alike.mp targetSame
      refine context.settle_keepsYes ⟨targetSame, ?_⟩ sourceSame
      intro source spelling _
      exact keepsYes_congruence.no

/-- An answer does not depend on how source and target are written, whether or
not a limit is hit. -/
theorem isSubtype_eq_of_same {source spelling target other : Ty}
    (sourceFormed : source.WellFormed) (spellingFormed : spelling.WellFormed)
    (targetFormed : target.WellFormed) (otherFormed : other.WellFormed)
    (sourceSame : source.same spelling = true)
    (targetSame : target.same other = true) :
    context.isSubtype source target = context.isSubtype spelling other := by
  have sourceReversed : spelling.same source = true :=
    Ty.same_symm sourceFormed spellingFormed sourceSame
  have targetReversed : other.same target = true :=
    Ty.same_symm targetFormed otherFormed targetSame
  rw [Bool.eq_iff_iff]
  constructor
  · exact context.relate_keepsYes_of_same targetSame sourceReversed
  · exact context.relate_keepsYes_of_same targetReversed sourceSame

/-- The attempts run out in every walk, before the supertype that decides is
looked at. -/
theorem isSubtype_eq_of_same_pets :
    let context : Context :=
      { supers := fun
          | "Cat" => [.named "Tame", .array (.named "Paw")]
          | "Dog" => [.named "Tame", .named "Barker"]
          | "Tame" => [.named "Pet"]
          | _ => []
        limits := ⟨2, 2⟩ }
    let paws := Ty.array (.named "Paw")
    let source := Ty.tupleOf [.unionOf [.named "Cat", .named "Dog"], .nil]
    let spelling := Ty.tuple
      [⟨5, .unionOf [.named "Dog", .named "Cat"], none⟩,
        ⟨5, .nil, some ⟨⟨1⟩, 2⟩⟩]
    let target := Ty.tupleOf [.unionOf [.named "Barker", paws], .any]
    let other := Ty.tupleOf [.unionOf [paws, .named "Barker", paws], .any]
    (source.WellFormed ∧ spelling.WellFormed ∧ target.WellFormed ∧
        other.WellFormed) ∧
      (source.same spelling = true ∧ target.same other = true) ∧
      (Checker.ask { context } source target).2.exceeded = true ∧
      context.isSubtype source target = context.isSubtype spelling other := by
  refine ⟨by decide, by decide, by decide, ?_⟩
  apply isSubtype_eq_of_same
  all_goals decide

end Context

end LuaTyping
