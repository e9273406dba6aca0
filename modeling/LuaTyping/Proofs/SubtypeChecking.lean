import LuaTyping.Proofs.SupertypeSearch
import LuaTyping.Subtyping.Check

/-!
# Subtype checking decides the subtype relation

Answers are right whenever no limit was hit, and a yes is right in any case.
The proof goes over the target, as the checker does: a search decides what can
be reached from a name once comparing by parts decides the parts, and the
parts of the target are smaller than the target.

Transitivity is not a rule that the checker knows.  It holds of the relation,
and so of the checker up to its limits.
-/

namespace LuaTyping

namespace Finding

variable {first : Finding} {second : Unit → Finding} {p q : Prop}

theorem decides_yes (isTrue : p) : yes.Decides p :=
  ⟨fun _ => isTrue, fun fails => absurd fails (by simp [yes])⟩

theorem decides_no (isFalse : ¬ p) : no.Decides p :=
  ⟨fun holds => absurd holds (by simp [no]), fun _ _ => isFalse⟩

theorem Decides.congr (decided : first.Decides p) (equivalent : p ↔ q) :
    first.Decides q where
  sound holds := equivalent.mp (decided.sound holds)
  complete fails within answer :=
    decided.complete fails within (equivalent.mpr answer)

theorem Decides.orElse (firstDecided : first.Decides p)
    (secondDecided : (second ()).Decides q) :
    (first.orElse second).Decides (p ∨ q) := by
  unfold Finding.orElse
  by_cases answered : first.holds = true
  · rw [if_pos answered]
    exact ⟨fun _ => .inl (firstDecided.sound answered),
      fun fails => absurd answered (by simp [fails])⟩
  · rw [if_neg answered]
    have fails : first.holds = false := by simpa using answered
    constructor
    · intro holds
      exact .inr (secondDecided.sound holds)
    · intro secondFails within
      have withinLimits := Bool.or_eq_false_iff.mp within
      rintro (isFirst | isSecond)
      · exact firstDecided.complete fails withinLimits.1 isFirst
      · exact secondDecided.complete secondFails withinLimits.2 isSecond

theorem Decides.andThen (firstDecided : first.Decides p)
    (secondDecided : (second ()).Decides q) :
    (first.andThen second).Decides (p ∧ q) := by
  unfold Finding.andThen
  by_cases answered : first.holds = true
  · rw [if_pos answered]
    constructor
    · intro holds
      exact ⟨firstDecided.sound answered, secondDecided.sound holds⟩
    · intro secondFails within both
      have withinLimits := Bool.or_eq_false_iff.mp within
      exact secondDecided.complete secondFails withinLimits.2 both.2
  · rw [if_neg answered]
    constructor
    · intro holds
      exact absurd holds answered
    · intro fails within both
      exact firstDecided.complete fails within both.1

theorem decides_all {α : Type} {ask : α → Finding} {question : α → Prop}
    (decided : ∀ element, (ask element).Decides (question element))
    (elements : List α) :
    (all ask elements).Decides (∀ element ∈ elements, question element) := by
  induction elements with
  | nil => exact decides_yes (by simp)
  | cons element elements ih =>
      exact ((decided element).andThen ih).congr (by simp)

end Finding

namespace Context

variable {context : Context} {goal : Goal}

theorem settle_decides {parts : Ty → Prop}
    (partsDecided : ∀ super, (goal.byParts super).Decides (parts super))
    (source : Ty) :
    (context.settle goal source).Decides
      (Sought goal parts source ∨ ∃ name, source.declaredName? = some name ∧
        Climbs context.supers (Sought goal parts) name) := by
  unfold settle
  by_cases met : goal.met source = true
  · rw [if_pos met]
    exact Finding.decides_yes (.inl (.inl met))
  · rw [if_neg met]
    split
    · rename_i name named
      refine (search_decides partsDecided name).congr ?_
      simp [Sought, met, named]
    · rename_i unnamed
      refine (partsDecided source).congr ?_
      simp [Sought, met, unnamed]

/-- Settling a goal decides subtyping for its target if comparing by parts
decides it for types without a declared name. -/
theorem settle_decides_subtypeOf (notTop : goal.target.isTop = false)
    (partsDecided : ∀ super, (goal.byParts super).Decides
      (SubtypeOf.Parts context.supers super goal.target))
    (source : Ty) :
    (context.settle goal source).Decides
      (SubtypeOf context.supers source goal.target) := by
  have soughtEq : Sought goal
      (fun super => SubtypeOf.Parts context.supers super goal.target) =
        fun super => SubtypeOf.Direct context.supers super goal.target := by
    funext super
    refine propext ⟨?_, ?_⟩
    · rintro (met | ⟨_, parts⟩)
      · rw [Goal.met, Bool.or_eq_true] at met
        exact met.imp id .inl
      · exact .inr (.inr parts)
    · rintro (isSame | shared | parts)
      · exact .inl (by simp [Goal.met, isSame])
      · exact .inl (by simp [Goal.met, shared])
      · exact .inr ⟨SubtypeOf.declaredName?_of_parts parts, parts⟩
  refine (settle_decides partsDecided source).congr ?_
  rw [soughtEq]
  constructor
  · rintro (direct | ⟨name, named, climbs⟩)
    · exact .of_direct direct
    · exact .of_climbs named climbs
  · intro derivation
    exact derivation.direct_or_climbs notTop

theorem relateSome_decides {targets : List Ty} {source : Ty}
    (decided : ∀ target ∈ targets, (context.relate target source).Decides
      (SubtypeOf context.supers source target)) :
    (context.relateSome targets source).Decides
      (∃ target ∈ targets, SubtypeOf context.supers source target) := by
  induction targets with
  | nil => exact Finding.decides_no (by simp)
  | cons target targets ih =>
      have rest := ih fun other otherMem => decided other (by simp [otherMem])
      rw [relateSome]
      exact ((decided target (by simp)).orElse rest).congr (by simp)

theorem relateSlots_decides {targets : List (Slot Ty)}
    (decided : ∀ target ∈ targets, ∀ source,
      (context.relate target.type source).Decides
        (SubtypeOf context.supers source target.type))
    (slots : List (Slot Ty)) :
    (context.relateSlots targets slots).Decides
      (∀ pair ∈ slots.zip targets,
        SubtypeOf context.supers pair.1.type pair.2.type) := by
  induction targets generalizing slots with
  | nil => cases slots <;> exact Finding.decides_yes (by simp)
  | cons target targets ih =>
      cases slots with
      | nil => exact Finding.decides_yes (by simp)
      | cons slot slots =>
          have rest := ih
            (fun other otherMem => decided other (by simp [otherMem])) slots
          rw [relateSlots]
          exact ((decided target (by simp) slot.type).andThen rest).congr
            (by simp)

theorem relate_decides (context : Context) (target source : Ty) :
    (context.relate target source).Decides
      (SubtypeOf context.supers source target) := by
  induction target using Ty.partsInduction generalizing source with
  | any => exact Finding.decides_yes (.top rfl)
  | unknown => exact Finding.decides_yes (.top rfl)
  | union targets ih =>
      rw [relate]
      refine settle_decides_subtypeOf rfl ?_ source
      intro super
      cases super with
      | union members =>
          apply Finding.decides_all
          intro member
          exact relateSome_decides fun target targetMem =>
            ih target targetMem member
      | _ => exact Finding.decides_no id
  | tuple targets ih =>
      rw [relate]
      refine settle_decides_subtypeOf rfl ?_ source
      intro super
      cases super with
      | tuple slots =>
          dsimp only
          split
          · rename_i lengthEq
            refine (relateSlots_decides ih slots).congr ?_
            simp [SubtypeOf.Parts, lengthEq]
          · rename_i lengthNe
            exact Finding.decides_no fun parts => lengthNe parts.1
      | _ => exact Finding.decides_no id
  | array target ih =>
      rw [relate]
      refine settle_decides_subtypeOf rfl ?_ source
      intro super
      cases super with
      | array element => exact ih element
      | _ => exact Finding.decides_no id
  | _ =>
      -- Any other target has no parts to compare.
      refine settle_decides_subtypeOf rfl ?_ source
      intro super
      cases super <;> exact Finding.decides_no id

end Context

namespace Checker

/-- The checker after a series of queries. -/
def askAll (checker : Checker) (queries : List (Ty × Ty)) : Checker :=
  queries.foldl (fun checker query => (checker.ask query.1 query.2).2) checker

@[simp]
theorem askAll_context (checker : Checker) (queries : List (Ty × Ty)) :
    (checker.askAll queries).context = checker.context := by
  induction queries generalizing checker with
  | nil => rfl
  | cons query queries ih => exact ih (checker.ask query.1 query.2).2

/-- Whatever a checker was asked before, a yes means that the source is below
the target, and a no means that it is not unless a limit was hit. -/
theorem ask_decides_subtypeOf (context : Context) (queries : List (Ty × Ty))
    (source target : Ty) :
    let answer := (askAll { context } queries).ask source target
    (answer.1.holds = true → SubtypeOf context.supers source target) ∧
      (answer.1.holds = false → answer.2.exceeded = false →
        ¬ SubtypeOf context.supers source target) := by
  have decided := context.relate_decides target source
  simp only [ask, Context.check, askAll_context]
  exact ⟨decided.sound, decided.complete⟩

end Checker

namespace Context

/-- What is below the target is found to be so, unless a limit is hit. -/
theorem isSubtype_or_exceeded (context : Context) {source target : Ty}
    (derivation : SubtypeOf context.supers source target) :
    context.isSubtype source target = true ∨
      (Checker.ask { context } source target).2.exceeded = true := by
  have decided := context.relate_decides target source
  by_cases within : (context.check source target).exceeded = false
  · refine .inl (Bool.not_eq_false _ |>.mp fun fails => ?_)
    exact decided.complete fails within derivation
  · exact .inr (Bool.not_eq_false _ |>.mp within)

/-- Answers compose below a target that mentions no generic, unless the last
query hits a limit. -/
theorem isSubtype_composes (context : Context) (source middle target : Ty)
    (plain : target.hasGeneric = false)
    (lower : context.isSubtype source middle = true)
    (upper : context.isSubtype middle target = true) :
    context.isSubtype source target = true ∨
      (Checker.ask { context } source target).2.exceeded = true := by
  have derivation : SubtypeOf context.supers source target :=
    ((context.relate_decides middle source).sound lower).trans
      ((context.relate_decides target middle).sound upper) plain
  by_contra neither
  rw [not_or, Bool.not_eq_true, Bool.not_eq_true] at neither
  exact (context.relate_decides target source).complete neither.1 neither.2
    derivation

/-- Rows are lists of integers, lists are arrays of cells, and cells are
values. -/
theorem isSubtype_composes_rows :
    let context : Context :=
      { supers := fun
          | "Row" => [.generic "List" [.integer]]
          | "List" => [.array (.named "Cell")]
          | "Cell" => [.named "Value"]
          | _ => []
        limits := ⟨4, 10⟩ }
    let source := Ty.tupleOf [.named "Row", .nil]
    let middle := Ty.tupleOf [.named "List", .any]
    let target := Ty.tupleOf [.array (.named "Value"), .unknown]
    context.isSubtype source middle = true ∧
      context.isSubtype middle target = true ∧
      (context.isSubtype source target = true ∨
        (Checker.ask { context } source target).2.exceeded = true) := by
  refine ⟨by decide, by decide, ?_⟩
  exact isSubtype_composes _ _ (Ty.tupleOf [.named "List", .any]) _
    (by decide) (by decide) (by decide)

/-- A generic as the last target would be reached from another generic over
the same base by way of their common name. -/
example :
    let context : Context := { supers := fun _ => [], limits := ⟨1, 1⟩ }
    let ofIntegers := Ty.generic "List" [.integer]
    let ofStrings := Ty.generic "List" [.string]
    context.isSubtype ofIntegers (.named "List") = true ∧
      context.isSubtype (.named "List") ofStrings = true ∧
      context.isSubtype ofIntegers ofStrings = false := by
  decide

end Context

end LuaTyping
