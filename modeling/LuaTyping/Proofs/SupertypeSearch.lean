import LuaTyping.Proofs.SubtypeRelation

/-!
# Searches along declared supertypes

A search follows declared names under one guard, which admits every name once.
Names stay visited after they have been left, so a name met again is skipped
even though another path leads to it.  Nothing is lost by that: when a search
comes back empty-handed without having hit a limit, the names it visited are
closed under declared supertypes, and each of their supertypes was compared
with the target.

The invariant is stated for walks inside a search, where some of the visited
names are still being followed further up.  A walk accounts for the names that
it visits itself.
-/

namespace LuaTyping

namespace Guard

variable {κ : Type}

/-- The guard once a key is entered. -/
def visit (guard : Guard κ) (key : κ) : Guard κ :=
  { guard.count with
    visited := key :: guard.visited
    depth := guard.depth + 1 }

/-- The guard once a key is denied because of a limit. -/
def deny (guard : Guard κ) : Guard κ :=
  { guard.count with exceeded := true }

/-- What an attempt to enter a key can lead to. -/
inductive Attempt (guard : Guard κ) (key : κ) : Verdict × Guard κ → Prop
  | entered
      (budget : guard.count.iterations ≤ guard.limits.maxIterations.toNat)
      (fresh : key ∉ guard.visited)
      (room : guard.depth < guard.limits.maxDepth.toNat) :
      Attempt guard key (.entered, guard.visit key)
  | revisited
      (budget : guard.count.iterations ≤ guard.limits.maxIterations.toNat)
      (known : key ∈ guard.visited) :
      Attempt guard key (.revisited, guard.count)
  | depthExceeded
      (budget : guard.count.iterations ≤ guard.limits.maxIterations.toNat)
      (fresh : key ∉ guard.visited)
      (full : guard.limits.maxDepth.toNat ≤ guard.depth) :
      Attempt guard key (.depthExceeded, guard.deny)
  | iterationExceeded
      (spent : guard.limits.maxIterations.toNat < guard.count.iterations) :
      Attempt guard key (.iterationExceeded, guard.deny)

theorem attempt_enter [DecidableEq κ] (guard : Guard κ) (key : κ) :
    Attempt guard key (guard.enter key) := by
  unfold enter
  by_cases spent : guard.limits.maxIterations.toNat < guard.count.iterations
  · rw [if_pos (by exact spent)]
    exact .iterationExceeded spent
  · rw [if_neg (by exact spent)]
    have budget := Nat.le_of_not_lt spent
    by_cases known : key ∈ guard.visited
    · rw [if_pos (by exact decide_eq_true known)]
      exact .revisited budget known
    · rw [if_neg (by exact mt of_decide_eq_true known)]
      by_cases full : guard.limits.maxDepth.toNat ≤ guard.depth
      · rw [if_pos (by exact full)]
        exact .depthExceeded budget known full
      · rw [if_neg (by exact full)]
        exact .entered budget known (Nat.lt_of_not_le full)

/-- A guard as it may stand after some complete walks from another one: the
path is as long as before, and nothing is forgotten. -/
structure Extends (before after : Guard κ) : Prop where
  limits : after.limits = before.limits
  depth : after.depth = before.depth
  visited : before.visited ⊆ after.visited
  exceeded : before.exceeded = true → after.exceeded = true

theorem Extends.refl (guard : Guard κ) : Extends guard guard :=
  ⟨rfl, rfl, List.Subset.refl _, id⟩

theorem Extends.trans {first second third : Guard κ}
    (firstSecond : Extends first second)
    (secondThird : Extends second third) : Extends first third where
  limits := secondThird.limits.trans firstSecond.limits
  depth := secondThird.depth.trans firstSecond.depth
  visited := List.Subset.trans firstSecond.visited secondThird.visited
  exceeded := secondThird.exceeded ∘ firstSecond.exceeded

theorem extends_count (guard : Guard κ) : Extends guard guard.count :=
  ⟨rfl, rfl, List.Subset.refl _, id⟩

theorem extends_deny (guard : Guard κ) : Extends guard guard.deny :=
  ⟨rfl, rfl, List.Subset.refl _, fun _ => rfl⟩

theorem Extends.within {before after : Guard κ}
    (extend : Extends before after) (afterWithin : after.exceeded = false) :
    before.exceeded = false := by
  by_contra beforeExceeded
  rw [Bool.not_eq_false] at beforeExceeded
  simp [extend.exceeded beforeExceeded] at afterWithin

/-- The number of levels that a walk may still go up is what the depth limit
leaves. -/
def Balanced (levels : Nat) (guard : Guard κ) : Prop :=
  guard.depth + levels = guard.limits.maxDepth.toNat

theorem balanced_start (limits : Limits) :
    Balanced limits.maxDepth.toNat (start limits : Guard κ) := by
  simp [Balanced, start]

theorem Extends.balanced {levels : Nat} {before after : Guard κ}
    (extend : Extends before after) (balanced : Balanced levels before) :
    Balanced levels after := by
  unfold Balanced at balanced ⊢
  rw [extend.depth, extend.limits]
  exact balanced

end Guard

section FirstRelated

variable {α : Type} {ask : α → Guard Name → Finding × Guard Name}

theorem firstRelated_cons (element : α) (elements : List α)
    (guard : Guard Name) :
    firstRelated ask (element :: elements) guard =
      if (ask element guard).1.holds then ask element guard
      else
        let rest := firstRelated ask elements (ask element guard).2
        ((ask element guard).1.after rest.1, rest.2) :=
  rfl

theorem firstRelated_extends {levels : Nat} {guard : Guard Name}
    (step : ∀ element (guard : Guard Name), guard.Balanced levels →
      guard.Extends (ask element guard).2)
    (elements : List α) (balanced : guard.Balanced levels) :
    guard.Extends (firstRelated ask elements guard).2 := by
  induction elements generalizing guard with
  | nil => exact .refl guard
  | cons element elements ih =>
      have first := step element guard balanced
      rw [firstRelated_cons]
      split
      · exact first
      · exact first.trans (ih (first.balanced balanced))

theorem exists_of_firstRelated {levels : Nat} {elements : List α}
    {guard : Guard Name}
    (step : ∀ element (guard : Guard Name), guard.Balanced levels →
      guard.Extends (ask element guard).2)
    (balanced : guard.Balanced levels)
    (holds : (firstRelated ask elements guard).1.holds = true) :
    ∃ element ∈ elements, ∃ reached : Guard Name, reached.Balanced levels ∧
      (ask element reached).1.holds = true := by
  induction elements generalizing guard with
  | nil => simp [firstRelated, Finding.no] at holds
  | cons element elements ih =>
      rw [firstRelated_cons] at holds
      split at holds
      · exact ⟨element, by simp, guard, balanced, holds⟩
      · have first := step element guard balanced
        obtain ⟨later, laterMem, reached, reachedBalanced, laterHolds⟩ :=
          ih (first.balanced balanced) holds
        exact ⟨later, by simp [laterMem], reached, reachedBalanced,
          laterHolds⟩

end FirstRelated

section Leaving

variable (name : Name) (found : Finding) (guard : Guard Name)

@[simp]
theorem leaveName_holds :
    (leaveName name found guard).1.holds = found.holds := by
  unfold leaveName
  split <;> rfl

@[simp]
theorem leaveName_exceeded :
    (leaveName name found guard).1.exceeded = found.exceeded := by
  unfold leaveName
  split <;> rfl

theorem leave_keeps {outside : Guard Name}
    (left : guard.leave name = .ok outside) :
    outside.visited = guard.visited ∧ outside.exceeded = guard.exceeded := by
  unfold Guard.leave at left
  split at left
  · injection left with outsideEq
    subst outsideEq
    exact ⟨rfl, rfl⟩
  · contradiction

@[simp]
theorem leaveName_visited :
    (leaveName name found guard).2.visited = guard.visited := by
  unfold leaveName
  split
  · rename_i outside left
    exact (leave_keeps name guard left).1
  · rfl

@[simp]
theorem leaveName_guard_exceeded :
    (leaveName name found guard).2.exceeded = guard.exceeded := by
  unfold leaveName
  split
  · rename_i outside left
    exact (leave_keeps name guard left).2
  · rfl

theorem leaveName_guard (onPath : 0 < guard.depth)
    (known : name ∈ guard.visited) :
    (leaveName name found guard).2 =
      { guard with depth := guard.depth - 1 } := by
  have left : guard.leave name =
      .ok { guard with depth := guard.depth - 1 } := by
    simp [Guard.leave, Guard.hasVisited, onPath, known]
  simp [leaveName, left]

end Leaving

variable {context : Context} {goal : Goal}

/-- How a walk treats a supertype of a name that it has entered. -/
def follow (context : Context) (goal : Goal) (levels : Nat) (super : Ty)
    (guard : Guard Name) : Finding × Guard Name :=
  if goal.met super then (.yes, guard)
  else
    match super.declaredName? with
    | some next => walk context goal levels next guard
    | none => (goal.byParts super, guard)

/-- What a walk can do at its first name.  It surveys the supertypes of the
name if the guard admits it, and ends otherwise. -/
inductive WalkCase (context : Context) (goal : Goal) (name : Name)
    (guard : Guard Name) : Nat → Finding × Guard Name → Prop
  | entered {levels : Nat} {survey : Finding × Guard Name}
      (budget : guard.count.iterations ≤ guard.limits.maxIterations.toNat)
      (fresh : name ∉ guard.visited)
      (room : guard.depth < guard.limits.maxDepth.toNat)
      (surveyEq : firstRelated (follow context goal levels)
        (context.supers name) (guard.visit name) = survey) :
      WalkCase context goal name guard (levels + 1)
        (leaveName name survey.1 survey.2)
  | revisited {levels : Nat}
      (budget : guard.count.iterations ≤ guard.limits.maxIterations.toNat)
      (known : name ∈ guard.visited) :
      WalkCase context goal name guard levels
        (⟨false, false, [.revisited name]⟩, guard.count)
  | denied {levels : Nat}
      (reason : name ∉ guard.visited ∧
          guard.limits.maxDepth.toNat ≤ guard.depth ∨
        guard.limits.maxIterations.toNat < guard.count.iterations) :
      WalkCase context goal name guard levels
        (⟨false, false,
          [.denied name guard.deny.depth guard.deny.iterations]⟩, guard.deny)

theorem walkCase_walk (context : Context) (goal : Goal) {levels : Nat}
    (name : Name) {guard : Guard Name} (balanced : guard.Balanced levels) :
    WalkCase context goal name guard levels
      (walk context goal levels name guard) := by
  have attempt := guard.attempt_enter name
  rw [walk.eq_def]
  dsimp only
  generalize guard.enter name = outcome at attempt
  cases attempt with
  | entered budget fresh room =>
      cases levels with
      | zero =>
          -- The guard denies a name before the levels run out.
          unfold Guard.Balanced at balanced
          omega
      | succ levels => exact .entered budget fresh room rfl
  | revisited budget known => exact .revisited budget known
  | depthExceeded budget fresh full => exact .denied (.inl ⟨fresh, full⟩)
  | iterationExceeded spent => exact .denied (.inr spent)

private theorem follow_extends_of_walk {levels : Nat}
    (step : ∀ next (guard : Guard Name), guard.Balanced levels →
      guard.Extends (walk context goal levels next guard).2)
    (super : Ty) (guard : Guard Name) (balanced : guard.Balanced levels) :
    guard.Extends (follow context goal levels super guard).2 := by
  unfold follow
  split
  · exact .refl guard
  · split
    · exact step _ guard balanced
    · exact .refl guard

theorem Guard.Balanced.visit {levels : Nat} {guard : Guard Name}
    (balanced : guard.Balanced (levels + 1)) (name : Name) :
    (guard.visit name).Balanced levels := by
  unfold Guard.Balanced at balanced ⊢
  change guard.depth + 1 + levels = guard.limits.maxDepth.toNat
  omega

/-- Leaving a name again undoes the one level that it took. -/
theorem extends_leaveName {name : Name} {found : Finding}
    {guard inside : Guard Name}
    (survey : (guard.visit name).Extends inside) :
    guard.Extends (leaveName name found inside).2 := by
  have onPath : inside.depth = guard.depth + 1 := survey.depth
  have known : name ∈ inside.visited := survey.visited List.mem_cons_self
  rw [leaveName_guard name found inside (by omega) known]
  refine ⟨survey.limits, ?_, ?_, survey.exceeded⟩
  · change inside.depth - 1 = guard.depth
    omega
  · intro other otherMem
    exact survey.visited (List.mem_cons_of_mem name otherMem)

/-- A walk returns to the place on the path where it was started. -/
theorem walk_extends {levels : Nat} {name : Name} {guard : Guard Name}
    (balanced : guard.Balanced levels) :
    guard.Extends (walk context goal levels name guard).2 := by
  induction levels using Nat.strongRecOn generalizing name guard with
  | ind levels ih =>
      have step := walkCase_walk context goal name balanced
      generalize walk context goal levels name guard = outcome at step
      cases step with
      | @entered lower survey budget fresh room surveyEq =>
          subst surveyEq
          apply extends_leaveName
          refine firstRelated_extends ?_ _ (balanced.visit name)
          apply follow_extends_of_walk
          intro next inner innerBalanced
          exact ih lower (Nat.lt_succ_self lower) innerBalanced
      | revisited budget known => exact guard.extends_count
      | denied reason => exact guard.extends_deny

theorem follow_extends {levels : Nat} (super : Ty) (guard : Guard Name)
    (balanced : guard.Balanced levels) :
    guard.Extends (follow context goal levels super guard).2 :=
  follow_extends_of_walk (fun _ _ => walk_extends) super guard balanced

/-- The answer was no, and no limit was hit on the way. -/
structure Refuted (outcome : Finding × Guard Name) : Prop where
  holds : outcome.1.holds = false
  found : outcome.1.exceeded = false
  guard : outcome.2.exceeded = false

/-- A supertype that needs no further attention once some names are visited:
it does not settle the goal, and it leads to visited names only. -/
def RuledOut (goal : Goal) (visited : List Name) (super : Ty) : Prop :=
  goal.met super = false ∧
    match super.declaredName? with
    | some next => next ∈ visited
    | none =>
        (goal.byParts super).holds = false ∧
          (goal.byParts super).exceeded = false

theorem RuledOut.mono {visited later : List Name} {super : Ty}
    (grows : visited ⊆ later) (ruledOut : RuledOut goal visited super) :
    RuledOut goal later super := by
  obtain ⟨unmet, rest⟩ := ruledOut
  refine ⟨unmet, ?_⟩
  split at rest
  · exact grows rest
  · exact rest

/-- The names visited between two guards have no supertype left to look at. -/
def Exhausts (context : Context) (goal : Goal) (before after : Guard Name) :
    Prop :=
  ∀ name ∈ after.visited, name ∈ before.visited ∨
    ∀ super ∈ context.supers name, RuledOut goal after.visited super

theorem Exhausts.trans {first second third : Guard Name}
    (firstSecond : Exhausts context goal first second)
    (secondThird : Exhausts context goal second third)
    (grows : second.visited ⊆ third.visited) :
    Exhausts context goal first third := by
  intro name nameMem
  rcases secondThird name nameMem with inSecond | exhausted
  · rcases firstSecond name inSecond with inFirst | exhausted
    · exact .inl inFirst
    · refine .inr fun super superMem => ?_
      exact (exhausted super superMem).mono grows
  · exact .inr exhausted

theorem firstRelated_refuted {levels : Nat} {elements : List Ty}
    {ask : Ty → Guard Name → Finding × Guard Name} {guard : Guard Name}
    (extend : ∀ super (guard : Guard Name), guard.Balanced levels →
      guard.Extends (ask super guard).2)
    (step : ∀ super (guard : Guard Name), guard.Balanced levels →
      Refuted (ask super guard) →
      RuledOut goal (ask super guard).2.visited super ∧
        Exhausts context goal guard (ask super guard).2)
    (balanced : guard.Balanced levels)
    (refuted : Refuted (firstRelated ask elements guard)) :
    (∀ super ∈ elements,
      RuledOut goal (firstRelated ask elements guard).2.visited super) ∧
      Exhausts context goal guard (firstRelated ask elements guard).2 := by
  induction elements generalizing guard with
  | nil => exact ⟨by simp, fun name nameMem => .inl nameMem⟩
  | cons element elements ih =>
      have first := extend element guard balanced
      have rest :=
        firstRelated_extends extend elements (first.balanced balanced)
      rw [firstRelated_cons] at refuted ⊢
      by_cases answered : (ask element guard).1.holds = true
      · rw [if_pos answered] at refuted
        exact absurd answered (by simp [refuted.holds])
      · rw [if_neg answered] at refuted ⊢
        have withinLimits := Bool.or_eq_false_iff.mp refuted.found
        have firstRefuted : Refuted (ask element guard) :=
          ⟨by simpa using answered, withinLimits.1, rest.within refuted.guard⟩
        have restRefuted :
            Refuted (firstRelated ask elements (ask element guard).2) :=
          ⟨refuted.holds, withinLimits.2, refuted.guard⟩
        obtain ⟨firstOut, firstExhausts⟩ :=
          step element guard balanced firstRefuted
        obtain ⟨restOut, restExhausts⟩ :=
          ih (first.balanced balanced) restRefuted
        refine ⟨?_, firstExhausts.trans restExhausts rest.visited⟩
        intro super superMem
        rcases List.mem_cons.mp superMem with rfl | later
        -- Names are never unvisited, so what is ruled out stays ruled out.
        · exact firstOut.mono rest.visited
        · exact restOut super later

private theorem follow_refuted_of_walk {levels : Nat}
    (step : ∀ next (guard : Guard Name), guard.Balanced levels →
      Refuted (walk context goal levels next guard) →
      next ∈ (walk context goal levels next guard).2.visited ∧
        Exhausts context goal guard (walk context goal levels next guard).2)
    (super : Ty) (guard : Guard Name) (balanced : guard.Balanced levels)
    (refuted : Refuted (follow context goal levels super guard)) :
    RuledOut goal (follow context goal levels super guard).2.visited super ∧
      Exhausts context goal guard
        (follow context goal levels super guard).2 := by
  unfold follow at refuted ⊢
  by_cases met : goal.met super = true
  · rw [if_pos met] at refuted
    exact absurd refuted.holds (by simp [Finding.yes])
  · rw [if_neg met] at refuted ⊢
    have unmet : goal.met super = false := by simpa using met
    unfold RuledOut
    split at refuted
    · obtain ⟨nextMem, exhausts⟩ := step _ guard balanced refuted
      exact ⟨⟨unmet, nextMem⟩, exhausts⟩
    · exact ⟨⟨unmet, refuted.holds, refuted.found⟩,
        fun name nameMem => .inl nameMem⟩

/-- A walk that ends with no, within the limits, has visited its name and has
accounted for all that it visited. -/
theorem walk_refuted {levels : Nat} {name : Name} {guard : Guard Name}
    (balanced : guard.Balanced levels)
    (refuted : Refuted (walk context goal levels name guard)) :
    name ∈ (walk context goal levels name guard).2.visited ∧
      Exhausts context goal guard (walk context goal levels name guard).2 := by
  induction levels using Nat.strongRecOn generalizing name guard with
  | ind levels ih =>
      have step := walkCase_walk context goal name balanced
      generalize walk context goal levels name guard = outcome at step refuted ⊢
      cases step with
      | @entered lower survey budget fresh room surveyEq =>
          subst surveyEq
          have surveyRefuted : Refuted (firstRelated
              (follow context goal lower) (context.supers name)
              (guard.visit name)) :=
            ⟨by simpa using refuted.holds, by simpa using refuted.found,
              by simpa using refuted.guard⟩
          have surveyExtends : (guard.visit name).Extends
              (firstRelated (follow context goal lower)
                (context.supers name) (guard.visit name)).2 :=
            firstRelated_extends follow_extends _ (balanced.visit name)
          obtain ⟨allOut, exhausts⟩ := firstRelated_refuted
            follow_extends
            (follow_refuted_of_walk fun next inner innerBalanced =>
              ih lower (Nat.lt_succ_self lower) innerBalanced)
            (balanced.visit name) surveyRefuted
          rw [leaveName_visited]
          refine ⟨surveyExtends.visited List.mem_cons_self, ?_⟩
          -- The survey accounts for all it visited except the name itself,
          -- whose supertypes it has ruled out one by one.
          intro other otherMem
          rw [leaveName_visited] at otherMem ⊢
          rcases exhausts other otherMem with admitted | exhausted
          · rcases List.mem_cons.mp admitted with rfl | before
            · exact .inr allOut
            · exact .inl before
          · exact .inr exhausted
      | revisited budget known =>
          exact ⟨known, fun other otherMem => .inl otherMem⟩
      | denied reason => exact absurd refuted.guard (by simp [Guard.deny])

/-- What a search looks for among the supertypes it reaches, if comparing by
parts answers a given question. -/
def Sought (goal : Goal) (parts : Ty → Prop) (super : Ty) : Prop :=
  goal.met super = true ∨ super.declaredName? = none ∧ parts super

theorem climbs_of_walk {parts : Ty → Prop}
    (partsSound : ∀ super, (goal.byParts super).holds = true → parts super)
    {levels : Nat} {name : Name} {guard : Guard Name}
    (balanced : guard.Balanced levels)
    (holds : (walk context goal levels name guard).1.holds = true) :
    Climbs context.supers (Sought goal parts) name := by
  induction levels using Nat.strongRecOn generalizing name guard with
  | ind levels ih =>
      have step := walkCase_walk context goal name balanced
      generalize walk context goal levels name guard = outcome at step holds
      cases step with
      | @entered lower survey budget fresh room surveyEq =>
          subst surveyEq
          rw [leaveName_holds] at holds
          obtain ⟨super, superMem, reached, reachedBalanced, superHolds⟩ :=
            exists_of_firstRelated follow_extends (balanced.visit name) holds
          unfold follow at superHolds
          split at superHolds
          · rename_i met
            exact .here superMem (.inl met)
          · split at superHolds
            · rename_i next named
              exact .further superMem named
                (ih lower (Nat.lt_succ_self lower) reachedBalanced superHolds)
            · rename_i unnamed
              exact .here superMem (.inr ⟨unnamed, partsSound _ superHolds⟩)
      | revisited budget known => contradiction
      | denied reason => contradiction

/-- Nothing is reached from names whose supertypes are all ruled out. -/
theorem not_climbs_of_ruledOut {parts : Ty → Prop} {visited : List Name}
    (partsComplete : ∀ super, (goal.byParts super).holds = false →
      (goal.byParts super).exceeded = false → ¬ parts super)
    (closed : ∀ name ∈ visited, ∀ super ∈ context.supers name,
      RuledOut goal visited super)
    {name : Name} (nameMem : name ∈ visited) :
    ¬ Climbs context.supers (Sought goal parts) name := by
  intro climbs
  induction climbs with
  | here superMem found =>
      obtain ⟨unmet, rest⟩ := closed _ nameMem _ superMem
      rcases found with met | ⟨unnamed, related⟩
      · simp [unmet] at met
      · rw [unnamed] at rest
        exact partsComplete _ rest.1 rest.2 related
  | further superMem named _ ih =>
      obtain ⟨unmet, rest⟩ := closed _ nameMem _ superMem
      rw [named] at rest
      exact ih rest

/-- A finding decides a question: a yes is right, and so is a no unless a
limit was hit. -/
structure Finding.Decides (found : Finding) (question : Prop) : Prop where
  sound : found.holds = true → question
  complete : found.holds = false → found.exceeded = false → ¬ question

/-- A search decides whether a supertype that it looks for can be reached. -/
theorem search_decides {parts : Ty → Prop}
    (partsDecided : ∀ super, (goal.byParts super).Decides (parts super))
    (name : Name) :
    (search context goal name).Decides
      (Climbs context.supers (Sought goal parts) name) := by
  have balanced : (Guard.start context.limits : Guard Name).Balanced
      context.limits.maxDepth.toNat := Guard.balanced_start context.limits
  constructor
  · intro holds
    exact climbs_of_walk (fun super => (partsDecided super).sound) balanced
      holds
  · intro fails within
    have withinLimits := Bool.or_eq_false_iff.mp within
    obtain ⟨nameMem, exhausts⟩ :=
      walk_refuted balanced ⟨fails, withinLimits.1, withinLimits.2⟩
    refine not_climbs_of_ruledOut (fun super => (partsDecided super).complete)
      ?_ nameMem
    intro other otherMem
    rcases exhausts other otherMem with atStart | exhausted
    · simp [Guard.start] at atStart
    · exact exhausted

end LuaTyping
