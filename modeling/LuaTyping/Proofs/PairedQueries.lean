import LuaTyping.Proofs.SupertypeSearch
import LuaTyping.Subtyping.Check

/-!
# Queries in two contexts

The same question may be put in two contexts that differ in their limits.
Both queries then take the target apart in the same way, and they can only
come to differ inside a search.  So whatever relates the findings of all
searches relates the findings of all queries, provided that it is kept by the
ways in which findings are combined.

A property of findings in a single context is the case of a relation that
looks at one side only.

For the searches themselves this file states what a walk does when the guard
is known to admit, to recognise or to deny its first name.
-/

namespace LuaTyping

/-- A relation between findings that is kept wherever a query combines
findings into one. -/
structure Finding.Congruence (related : Finding → Finding → Prop) : Prop where
  yes : related .yes .yes
  no : related .no .no
  orElse {first otherFirst : Finding} {second otherSecond : Unit → Finding} :
    related first otherFirst → related (second ()) (otherSecond ()) →
      related (first.orElse second) (otherFirst.orElse otherSecond)
  andThen {first otherFirst : Finding} {second otherSecond : Unit → Finding} :
    related first otherFirst → related (second ()) (otherSecond ()) →
      related (first.andThen second) (otherFirst.andThen otherSecond)

/-- A property of single findings is kept wherever findings are combined if it
is kept when one finding follows upon another. -/
theorem Finding.congruence_of_after {property : Finding → Prop}
    (yes : property .yes) (no : property .no)
    (after : ∀ {first second : Finding}, property first → property second →
      property (first.after second)) :
    Finding.Congruence fun found _ => property found where
  yes
  no
  orElse := by
    intro first _ second _ ofFirst ofSecond
    unfold Finding.orElse
    split
    · exact ofFirst
    · exact after ofFirst ofSecond
  andThen := by
    intro first _ second _ ofFirst ofSecond
    unfold Finding.andThen
    split
    · exact after ofFirst ofSecond
    · exact ofFirst

/-- Two goals for one target whose comparisons by parts are related. -/
structure Goal.Paired (related : Finding → Finding → Prop)
    (goal other : Goal) : Prop where
  target : other.target = goal.target
  byParts (super : Ty) : related (goal.byParts super) (other.byParts super)

theorem Goal.Paired.met {related : Finding → Finding → Prop}
    {goal other : Goal} (paired : goal.Paired related other) (super : Ty) :
    other.met super = goal.met super := by
  unfold Goal.met
  rw [paired.target]

/-- Searches for paired goals have related findings. -/
def Context.SearchesPaired (related : Finding → Finding → Prop)
    (context other : Context) : Prop :=
  ∀ goal otherGoal : Goal, goal.Paired related otherGoal → ∀ name,
    related (search context goal name) (search other otherGoal name)

namespace Context

variable {related : Finding → Finding → Prop} {context other : Context}

theorem all_paired (congruence : Finding.Congruence related) {α : Type}
    {ask otherAsk : α → Finding}
    (paired : ∀ element, related (ask element) (otherAsk element))
    (elements : List α) :
    related (Finding.all ask elements) (Finding.all otherAsk elements) := by
  induction elements with
  | nil => exact congruence.yes
  | cons element elements ih => exact congruence.andThen (paired element) ih

theorem settle_paired (congruence : Finding.Congruence related)
    (searches : context.SearchesPaired related other) {goal otherGoal : Goal}
    (paired : goal.Paired related otherGoal) (source : Ty) :
    related (context.settle goal source) (other.settle otherGoal source) := by
  unfold settle
  rw [paired.met source]
  by_cases met : goal.met source = true
  · rw [if_pos met, if_pos met]
    exact congruence.yes
  · rw [if_neg met, if_neg met]
    cases source.declaredName? with
    | some name => exact searches goal otherGoal paired name
    | none => exact paired.byParts source

theorem relateSome_paired (congruence : Finding.Congruence related)
    {targets : List Ty} {source : Ty}
    (paired : ∀ target ∈ targets,
      related (context.relate target source) (other.relate target source)) :
    related (context.relateSome targets source)
      (other.relateSome targets source) := by
  induction targets with
  | nil => exact congruence.no
  | cons target targets ih =>
      have first := paired target (by simp)
      have rest := ih fun later laterMem => paired later (by simp [laterMem])
      rw [relateSome, relateSome]
      exact congruence.orElse first rest

theorem relateSlots_paired (congruence : Finding.Congruence related)
    {targets : List (Slot Ty)}
    (paired : ∀ target ∈ targets, ∀ source,
      related (context.relate target.type source)
        (other.relate target.type source))
    (slots : List (Slot Ty)) :
    related (context.relateSlots targets slots)
      (other.relateSlots targets slots) := by
  induction targets generalizing slots with
  | nil => cases slots <;> exact congruence.yes
  | cons target targets ih =>
      cases slots with
      | nil => exact congruence.yes
      | cons slot slots =>
          have first := paired target (by simp) slot.type
          have rest := ih
            (fun later laterMem => paired later (by simp [laterMem])) slots
          rw [relateSlots, relateSlots]
          exact congruence.andThen first rest

/-- Queries have related findings if searches do. -/
theorem relate_paired (congruence : Finding.Congruence related)
    (searches : context.SearchesPaired related other) (target source : Ty) :
    related (context.relate target source) (other.relate target source) := by
  induction target using Ty.partsInduction generalizing source with
  | any => exact congruence.yes
  | unknown => exact congruence.yes
  | union targets ih =>
      rw [relate, relate]
      apply settle_paired congruence searches
      refine ⟨rfl, fun super => ?_⟩
      cases super with
      | union members =>
          apply all_paired congruence
          intro member
          apply relateSome_paired congruence
          exact fun target targetMem => ih target targetMem member
      | _ => exact congruence.no
  | tuple targets ih =>
      rw [relate, relate]
      apply settle_paired congruence searches
      refine ⟨rfl, fun super => ?_⟩
      cases super with
      | tuple slots =>
          dsimp only
          split
          · exact relateSlots_paired congruence ih slots
          · exact congruence.no
      | _ => exact congruence.no
  | array target ih =>
      rw [relate, relate]
      apply settle_paired congruence searches
      refine ⟨rfl, fun super => ?_⟩
      cases super with
      | array element => exact ih element
      | _ => exact congruence.no
  | _ =>
      -- Any other target has no parts to compare.
      refine settle_paired congruence searches ⟨rfl, fun super => ?_⟩ source
      exact congruence.no

end Context

namespace Guard

variable {κ : Type}

/-- The attempts are used up, so every further one is denied. -/
def Spent (guard : Guard κ) : Prop :=
  guard.limits.maxIterations.toNat < guard.count.iterations

theorem not_spent_start {limits : Limits}
    (budgetPos : 0 < limits.maxIterations.toNat) :
    ¬ (start limits : Guard κ).Spent := by
  change ¬ limits.maxIterations.toNat < min (0 + 1) maxCount
  omega

theorem Spent.count {guard : Guard κ} (spent : guard.Spent) :
    guard.count.Spent := by
  unfold Spent Guard.count at spent ⊢
  dsimp only at spent ⊢
  omega

end Guard

section Walks

variable {context : Context} {goal : Goal} {levels : Nat} {name : Name}
  {guard : Guard Name}

theorem walk_of_fresh (balanced : guard.Balanced levels)
    (budget : ¬ guard.Spent) (fresh : name ∉ guard.visited)
    (room : guard.depth < guard.limits.maxDepth.toNat) :
    ∃ lower, levels = lower + 1 ∧
      walk context goal levels name guard =
        let survey := firstRelated (follow context goal lower)
          (context.supers name) (guard.visit name)
        leaveName name survey.1 survey.2 := by
  have step := walkCase_walk context goal name balanced
  generalize walk context goal levels name guard = outcome at step
  cases step with
  | entered _ _ _ surveyEq =>
      subst surveyEq
      exact ⟨_, rfl, rfl⟩
  | revisited _ known => exact absurd known fresh
  | denied reason =>
      rcases reason with ⟨_, full⟩ | spent
      · exact absurd room (Nat.not_lt_of_le full)
      · exact absurd spent budget

theorem survey_extends {lower : Nat} (balanced : guard.Balanced (lower + 1)) :
    (guard.visit name).Extends (firstRelated (follow context goal lower)
      (context.supers name) (guard.visit name)).2 :=
  firstRelated_extends follow_extends _ (balanced.visit name)

theorem leave_of_extends {inside : Guard Name}
    (survey : (guard.visit name).Extends inside) :
    inside.leave name = .ok { inside with depth := guard.depth } := by
  have onPath : inside.depth = guard.depth + 1 := survey.depth
  have known : name ∈ inside.visited := survey.visited List.mem_cons_self
  simp [Guard.leave, Guard.hasVisited, known, onPath]

/-- Leaving a name takes the search back to where it entered it. -/
theorem leaveName_eq {found : Finding} {inside : Guard Name}
    (survey : (guard.visit name).Extends inside) :
    leaveName name found inside =
      ({ found with moves := .entered name :: (found.moves ++ [.left name]) },
        { inside with depth := guard.depth }) := by
  unfold leaveName
  rw [leave_of_extends survey]

theorem leaveName_of_extends {found : Finding} {inside : Guard Name}
    (survey : (guard.visit name).Extends inside) :
    (leaveName name found inside).2 = { inside with depth := guard.depth } := by
  rw [leaveName_eq survey]

theorem walk_of_visited (balanced : guard.Balanced levels)
    (budget : ¬ guard.Spent) (known : name ∈ guard.visited) :
    walk context goal levels name guard =
      (⟨false, false, [.revisited name]⟩, guard.count) := by
  have step := walkCase_walk context goal name balanced
  generalize walk context goal levels name guard = outcome at step
  cases step with
  | entered _ fresh => exact absurd known fresh
  | revisited => rfl
  | denied reason =>
      rcases reason with ⟨fresh, _⟩ | spent
      · exact absurd known fresh
      · exact absurd spent budget

theorem walk_of_denied (balanced : guard.Balanced levels)
    (reason : guard.Spent ∨ name ∉ guard.visited ∧
      guard.limits.maxDepth.toNat ≤ guard.depth) :
    walk context goal levels name guard =
      (⟨false, false,
        [.denied name guard.deny.depth guard.deny.iterations]⟩,
        guard.deny) := by
  have step := walkCase_walk context goal name balanced
  generalize walk context goal levels name guard = outcome at step
  cases step with
  | entered budget _ room =>
      rcases reason with spent | ⟨_, full⟩
      · exact absurd budget (Nat.not_le_of_lt spent)
      · exact absurd room (Nat.not_lt_of_le full)
  | revisited budget known =>
      rcases reason with spent | ⟨fresh, _⟩
      · exact absurd budget (Nat.not_le_of_lt spent)
      · exact absurd known fresh
  | denied => rfl

end Walks

end LuaTyping
