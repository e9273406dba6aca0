import LuaTyping.Proofs.PairedQueries
import LuaTyping.Proofs.SubtypeChecking

/-!
# Wider limits

What a query answers once its limits are widened.

A query that stays within its limits is not affected at all: it makes the same
moves and gives the same answer under any wider limits.  If it does hit a
limit, the two limits part company.  A larger number of attempts never loses
an answer.  The longer search keeps pace with the shorter one until the
shorter one has no attempts left; from then on the shorter one only looks at
the remaining supertypes of names on its path, and those are looked at by the
longer one too.

A larger depth may lose an answer.  The search goes further up an early branch
and may use up the attempts there, or it may enter a shared ancestor from so
far away that the supertypes of that ancestor are cut off, and it will not
enter the ancestor again on a shorter path.  All that is left to say is that
both queries then report a limit.
-/

namespace LuaTyping

/-- Limits are compared in depth and in attempts. -/
instance : LE Limits where
  le limits wider := limits.maxDepth ≤ wider.maxDepth ∧
    limits.maxIterations ≤ wider.maxIterations

section WithinLimits

/-- The second finding repeats the first one if that stayed within the
limits. -/
def Finding.Repeats (found wide : Finding) : Prop :=
  found.exceeded = false → wide = found

theorem repeats_congruence : Finding.Congruence Finding.Repeats where
  yes := fun _ => rfl
  no := fun _ => rfl
  orElse := by
    intro first wideFirst second wideSecond firstRepeats secondRepeats within
    unfold Finding.orElse at within ⊢
    by_cases answered : first.holds = true
    · rw [if_pos answered] at within ⊢
      rw [firstRepeats within, if_pos answered]
    · rw [if_neg answered] at within ⊢
      have withinLimits := Bool.or_eq_false_iff.mp within
      rw [firstRepeats withinLimits.1, if_neg answered,
        secondRepeats withinLimits.2]
  andThen := by
    intro first wideFirst second wideSecond firstRepeats secondRepeats within
    unfold Finding.andThen at within ⊢
    by_cases answered : first.holds = true
    · rw [if_pos answered] at within ⊢
      have withinLimits := Bool.or_eq_false_iff.mp within
      rw [firstRepeats withinLimits.1, if_pos answered,
        secondRepeats withinLimits.2]
    · rw [if_neg answered] at within ⊢
      rw [firstRepeats within, if_neg answered]

/-- The same guard under other limits. -/
def Guard.under {κ : Type} (guard : Guard κ) (limits : Limits) : Guard κ :=
  { guard with limits }

theorem leaveName_under (name : Name) (found : Finding) (guard : Guard Name)
    (limits : Limits) :
    leaveName name found (guard.under limits) =
      ((leaveName name found guard).1,
        (leaveName name found guard).2.under limits) := by
  have sameTest : (guard.under limits).leave name =
      (guard.leave name).map (·.under limits) := by
    unfold Guard.leave
    change (if 0 < guard.depth ∧ guard.hasVisited name = true then _
      else _) = _
    split <;> rfl
  unfold leaveName
  rw [sameTest]
  cases guard.leave name <;> rfl

theorem Guard.Extends.under_balanced {levels : Nat} {limits : Limits}
    {before after : Guard Name} (extend : before.Extends after)
    (balanced : (before.under limits).Balanced levels) :
    (after.under limits).Balanced levels := by
  unfold Guard.Balanced Guard.under at balanced ⊢
  dsimp only at balanced ⊢
  rw [extend.depth]
  exact balanced

/-- The second outcome repeats the first one, under wider limits, if that
stayed within its own. -/
def OutcomeRepeats (wider : Limits) (outcome wide : Finding × Guard Name) :
    Prop :=
  outcome.1.exceeded = false → outcome.2.exceeded = false →
    wide = (outcome.1, outcome.2.under wider)

theorem firstRelated_repeats {α : Type} {levels : Nat} {wider : Limits}
    {ask wideAsk : α → Guard Name → Finding × Guard Name}
    (extend : ∀ element (guard : Guard Name), guard.Balanced levels →
      guard.Extends (ask element guard).2)
    (elements : List α) {guard : Guard Name}
    (step : ∀ element (reached : Guard Name), guard.Extends reached →
      OutcomeRepeats wider (ask element reached)
        (wideAsk element (reached.under wider)))
    (balanced : guard.Balanced levels) :
    OutcomeRepeats wider (firstRelated ask elements guard)
      (firstRelated wideAsk elements (guard.under wider)) := by
  induction elements generalizing guard with
  | nil =>
      intro _ _
      rfl
  | cons element elements ih =>
      intro found within
      have first := extend element guard balanced
      have firstRepeats := step element guard (.refl guard)
      rw [firstRelated_cons] at found within ⊢
      rw [firstRelated_cons]
      by_cases answered : (ask element guard).1.holds = true
      · rw [if_pos answered] at found within ⊢
        rw [firstRepeats found within, if_pos answered]
      · rw [if_neg answered] at found within ⊢
        have foundWithin := Bool.or_eq_false_iff.mp found
        have rest := firstRelated_extends extend elements
          (first.balanced balanced)
        -- A guard that was not exceeded at the end never was on the way.
        have between := rest.within within
        rw [firstRepeats foundWithin.1 between, if_neg answered]
        have restRepeats := ih
          (fun later reached extended =>
            step later reached (first.trans extended))
          (first.balanced balanced)
        rw [restRepeats foundWithin.2 within]

variable {supers : Name → List Ty} {limits wider : Limits}
  {goal wideGoal : Goal}

theorem Guard.not_spent_under {guard : Guard Name}
    (wide : guard.limits ≤ wider)
    (budget : guard.count.iterations ≤ guard.limits.maxIterations.toNat) :
    ¬ (guard.under wider).Spent := by
  have iterationsLe : guard.limits.maxIterations.toNat ≤
      wider.maxIterations.toNat := UInt32.le_iff_toNat_le.mp wide.2
  exact Nat.not_lt_of_le (Nat.le_trans budget iterationsLe)

private theorem follow_repeats_of_walk
    (paired : goal.Paired Finding.Repeats wideGoal) {levels wideLevels : Nat}
    {guard : Guard Name}
    (step : ∀ next, OutcomeRepeats wider
      (walk ⟨supers, limits⟩ goal levels next guard)
      (walk ⟨supers, wider⟩ wideGoal wideLevels next (guard.under wider)))
    (super : Ty) :
    OutcomeRepeats wider (follow ⟨supers, limits⟩ goal levels super guard)
      (follow ⟨supers, wider⟩ wideGoal wideLevels super
        (guard.under wider)) := by
  unfold follow
  rw [paired.met super]
  by_cases met : goal.met super = true
  · rw [if_pos met, if_pos met]
    intro _ _
    rfl
  · rw [if_neg met, if_neg met]
    cases super.declaredName? with
    | some next => exact step next
    | none =>
        intro found _
        exact Prod.ext (paired.byParts super found) rfl

/-- A walk within its limits goes the same way under wider limits. -/
theorem walk_repeats (paired : goal.Paired Finding.Repeats wideGoal)
    {levels wideLevels : Nat} {name : Name} {guard : Guard Name}
    (wide : guard.limits ≤ wider) (balanced : guard.Balanced levels)
    (wideBalanced : (guard.under wider).Balanced wideLevels) :
    OutcomeRepeats wider (walk ⟨supers, limits⟩ goal levels name guard)
      (walk ⟨supers, wider⟩ wideGoal wideLevels name
        (guard.under wider)) := by
  induction levels using Nat.strongRecOn
    generalizing wideLevels name guard with
  | ind levels ih =>
      intro found within
      have step := walkCase_walk ⟨supers, limits⟩ goal name balanced
      generalize walk ⟨supers, limits⟩ goal levels name guard = outcome
        at step found within
      cases step with
      | @entered lower survey budget fresh room surveyEq =>
          subst surveyEq
          have depthLe : guard.limits.maxDepth.toNat ≤
              wider.maxDepth.toNat := UInt32.le_iff_toNat_le.mp wide.1
          obtain ⟨wideLower, rfl, wideEq⟩ := walk_of_fresh
            wideBalanced (Guard.not_spent_under wide budget) fresh
            (Nat.lt_of_lt_of_le room depthLe)
          -- The wide walk may have more levels left at every name.
          have follows : ∀ super (reached : Guard Name),
              (guard.visit name).Extends reached →
              OutcomeRepeats wider
                (follow ⟨supers, limits⟩ goal lower super reached)
                (follow ⟨supers, wider⟩ wideGoal wideLower super
                  (reached.under wider)) := by
            intro super reached extended
            refine follow_repeats_of_walk paired (fun next => ?_) super
            apply ih lower (Nat.lt_succ_self lower)
            · rw [extended.limits]
              exact wide
            · exact extended.balanced (balanced.visit name)
            · exact extended.under_balanced (wideBalanced.visit name)
          have surveyRepeats := firstRelated_repeats follow_extends
            (supers name) follows (balanced.visit name)
          rw [leaveName_exceeded] at found
          rw [leaveName_guard_exceeded] at within
          rw [wideEq]
          exact (congrArg (fun survey => leaveName name survey.1 survey.2)
            (surveyRepeats found within)).trans
              (leaveName_under name _ _ wider)
      | revisited budget known =>
          exact walk_of_visited wideBalanced
            (Guard.not_spent_under wide budget) known
      | denied reason => exact absurd within (by simp [Guard.deny])

theorem search_repeats (wide : limits ≤ wider) :
    Context.SearchesPaired Finding.Repeats ⟨supers, limits⟩
      ⟨supers, wider⟩ := by
  intro goal wideGoal paired name within
  have walkRepeats : OutcomeRepeats wider
      (walk ⟨supers, limits⟩ goal limits.maxDepth.toNat name (.start limits))
      (walk ⟨supers, wider⟩ wideGoal wider.maxDepth.toNat name
        (.start wider)) :=
    walk_repeats paired wide (Guard.balanced_start limits)
      (Guard.balanced_start wider)
  have withinLimits := Bool.or_eq_false_iff.mp within
  unfold search
  dsimp only
  rw [walkRepeats withinLimits.1 withinLimits.2]
  rfl

end WithinLimits

section LargerBudget

/-- Where the first finding is a yes, so is the second one. -/
def Finding.KeepsYes (found larger : Finding) : Prop :=
  found.holds = true → larger.holds = true

theorem keepsYes_congruence : Finding.Congruence Finding.KeepsYes where
  yes := id
  no := id
  orElse := by
    intro first largerFirst second largerSecond firstKeeps secondKeeps holds
    unfold Finding.orElse at holds ⊢
    by_cases answered : largerFirst.holds = true
    · rw [if_pos answered]
      exact answered
    · rw [if_neg answered]
      rw [if_neg (mt firstKeeps answered)] at holds
      exact secondKeeps holds
  andThen := by
    intro first largerFirst second largerSecond firstKeeps secondKeeps holds
    unfold Finding.andThen at holds ⊢
    by_cases answered : first.holds = true
    · rw [if_pos answered] at holds
      rw [if_pos (firstKeeps answered)]
      exact secondKeeps holds
    · rw [if_neg answered] at holds
      exact absurd holds answered

namespace Guard

variable {κ : Type}

/-- A guard with a smaller budget beside one with a larger budget, at the same
place of the same path.  They agree in what they have seen until the smaller
budget is used up. -/
structure Trails (guard larger : Guard κ) : Prop where
  maxDepth : larger.limits.maxDepth = guard.limits.maxDepth
  budget : guard.limits.maxIterations ≤ larger.limits.maxIterations
  depth : larger.depth = guard.depth
  pace : guard.Spent ∨
    larger.visited = guard.visited ∧ larger.iterations = guard.iterations

variable {guard larger : Guard κ}

theorem Trails.balanced (trails : guard.Trails larger) {levels : Nat}
    (balanced : guard.Balanced levels) : larger.Balanced levels := by
  unfold Balanced at balanced ⊢
  rw [trails.depth, trails.maxDepth]
  exact balanced

theorem Trails.room_iff (trails : guard.Trails larger) :
    larger.depth < larger.limits.maxDepth.toNat ↔
      guard.depth < guard.limits.maxDepth.toNat := by
  rw [trails.depth, trails.maxDepth]

theorem Trails.visit (trails : guard.Trails larger) (key : κ) :
    (guard.visit key).Trails (larger.visit key) where
  maxDepth := trails.maxDepth
  budget := trails.budget
  depth := congrArg (· + 1) trails.depth
  pace := by
    refine trails.pace.imp Spent.count fun inStep => ?_
    simp [Guard.visit, Guard.count, inStep.1, inStep.2]

theorem Trails.count (trails : guard.Trails larger) :
    guard.count.Trails larger.count where
  maxDepth := trails.maxDepth
  budget := trails.budget
  depth := trails.depth
  pace := by
    refine trails.pace.imp Spent.count fun inStep => ?_
    simp [Guard.count, inStep.1, inStep.2]

theorem Trails.deny (trails : guard.Trails larger) :
    guard.deny.Trails larger.deny :=
  ⟨trails.maxDepth, trails.budget, trails.depth, trails.count.pace⟩

theorem Trails.not_spent (trails : guard.Trails larger)
    (iterationsEq : larger.iterations = guard.iterations)
    (budget : ¬ guard.Spent) : ¬ larger.Spent := by
  have budgetLe := UInt32.le_iff_toNat_le.mp trails.budget
  unfold Spent Guard.count at budget ⊢
  dsimp only at budget ⊢
  rw [iterationsEq]
  omega

/-- Once the smaller budget is used up, the larger search may go on alone. -/
theorem Trails.deny_of_extends (trails : guard.Trails larger)
    (spent : guard.Spent) {after : Guard κ} (extend : larger.Extends after) :
    guard.deny.Trails after where
  maxDepth := by
    rw [extend.limits]
    exact trails.maxDepth
  budget := by
    rw [extend.limits]
    exact trails.budget
  depth := extend.depth.trans trails.depth
  pace := .inl spent.count

end Guard

theorem trails_leaveName {name : Name} {found largerFound : Finding}
    {guard larger inside largerInside : Guard Name}
    (trails : guard.Trails larger) (after : inside.Trails largerInside)
    (survey : (guard.visit name).Extends inside)
    (largerSurvey : (larger.visit name).Extends largerInside) :
    (leaveName name found inside).2.Trails
      (leaveName name largerFound largerInside).2 := by
  rw [leaveName_of_extends survey, leaveName_of_extends largerSurvey]
  exact ⟨after.maxDepth, after.budget, trails.depth, after.pace⟩

/-- The larger search has found an answer, or neither has and they go on from
the same place. -/
def OutcomeKeepsYes (outcome larger : Finding × Guard Name) : Prop :=
  larger.1.holds = true ∨
    outcome.1.holds = false ∧ outcome.2.Trails larger.2

theorem firstRelated_keepsYes {α : Type} {levels : Nat}
    {ask largerAsk : α → Guard Name → Finding × Guard Name}
    (extend : ∀ element (guard : Guard Name), guard.Balanced levels →
      guard.Extends (ask element guard).2)
    (step : ∀ element (guard larger : Guard Name), guard.Balanced levels →
      guard.Trails larger →
      OutcomeKeepsYes (ask element guard) (largerAsk element larger))
    (elements : List α) {guard larger : Guard Name}
    (balanced : guard.Balanced levels) (trails : guard.Trails larger) :
    OutcomeKeepsYes (firstRelated ask elements guard)
      (firstRelated largerAsk elements larger) := by
  induction elements generalizing guard larger with
  | nil => exact .inr ⟨rfl, trails⟩
  | cons element elements ih =>
      have first := extend element guard balanced
      rw [firstRelated_cons, firstRelated_cons]
      by_cases answered : (largerAsk element larger).1.holds = true
      · rw [if_pos answered]
        exact .inl answered
      · obtain ⟨fails, firstTrails⟩ :=
          (step element guard larger balanced trails).resolve_left answered
        rw [if_neg answered, if_neg (by simp [fails])]
        exact ih (first.balanced balanced) firstTrails

variable {supers : Name → List Ty} {maxDepth budget larger : UInt32}
  {goal largerGoal : Goal}

/-- Whatever settles the first goal, at once or by parts, settles the second
one. -/
structure Goal.Eases (goal easier : Goal) : Prop where
  met (super : Ty) : goal.met super = true → easier.met super = true
  byParts (super : Ty) :
    (goal.byParts super).KeepsYes (easier.byParts super)

theorem Goal.Paired.eases (paired : goal.Paired Finding.KeepsYes largerGoal) :
    goal.Eases largerGoal where
  met super := by
    rw [paired.met super]
    exact id
  byParts := paired.byParts

private theorem follow_keepsYes_of_walk (eases : goal.Eases largerGoal)
    {levels : Nat}
    (step : ∀ next (guard largerGuard : Guard Name), guard.Balanced levels →
      guard.Trails largerGuard →
      OutcomeKeepsYes
        (walk ⟨supers, ⟨maxDepth, budget⟩⟩ goal levels next guard)
        (walk ⟨supers, ⟨maxDepth, larger⟩⟩ largerGoal levels next
          largerGuard))
    (super : Ty) (guard largerGuard : Guard Name)
    (balanced : guard.Balanced levels) (trails : guard.Trails largerGuard) :
    OutcomeKeepsYes
      (follow ⟨supers, ⟨maxDepth, budget⟩⟩ goal levels super guard)
      (follow ⟨supers, ⟨maxDepth, larger⟩⟩ largerGoal levels super
        largerGuard) := by
  unfold follow
  by_cases met : largerGoal.met super = true
  · rw [if_pos met]
    exact .inl rfl
  · rw [if_neg met, if_neg (mt (eases.met super) met)]
    cases super.declaredName? with
    | some next => exact step next guard largerGuard balanced trails
    | none =>
        by_cases answered : (largerGoal.byParts super).holds = true
        · exact .inl answered
        · have fails := mt (eases.byParts super) answered
          exact .inr ⟨Bool.eq_false_iff.mpr fails, trails⟩

/-- A walk with a larger budget finds an answer wherever the walk beside it
does. -/
theorem walk_keepsYes (eases : goal.Eases largerGoal)
    {levels : Nat} {name : Name} {guard largerGuard : Guard Name}
    (balanced : guard.Balanced levels) (trails : guard.Trails largerGuard) :
    OutcomeKeepsYes
      (walk ⟨supers, ⟨maxDepth, budget⟩⟩ goal levels name guard)
      (walk ⟨supers, ⟨maxDepth, larger⟩⟩ largerGoal levels name
        largerGuard) := by
  induction levels using Nat.strongRecOn
    generalizing name guard largerGuard with
  | ind levels ih =>
      have largerBalanced := trails.balanced balanced
      by_cases spent : guard.Spent
      -- The smaller walk ends here, whatever the larger one goes on to do.
      · rw [walk_of_denied balanced (.inl spent)]
        exact .inr ⟨rfl,
          trails.deny_of_extends spent (walk_extends largerBalanced)⟩
      · obtain ⟨visitedEq, iterationsEq⟩ := trails.pace.resolve_left spent
        have notSpent := trails.not_spent iterationsEq spent
        -- From here on both guards treat the name alike.
        by_cases known : name ∈ guard.visited
        · have largerKnown : name ∈ largerGuard.visited := visitedEq ▸ known
          rw [walk_of_visited balanced spent known,
            walk_of_visited largerBalanced notSpent largerKnown]
          exact .inr ⟨rfl, trails.count⟩
        · have fresh : name ∉ largerGuard.visited := visitedEq ▸ known
          by_cases room : guard.depth < guard.limits.maxDepth.toNat
          · have largerRoom := trails.room_iff.mpr room
            obtain ⟨lower, rfl, walkEq⟩ :=
              walk_of_fresh balanced spent known room
            obtain ⟨_, lowerEq, largerEq⟩ :=
              walk_of_fresh largerBalanced notSpent fresh largerRoom
            obtain rfl := Nat.succ.inj lowerEq
            rw [walkEq, largerEq]
            have survey := firstRelated_keepsYes follow_extends
              (follow_keepsYes_of_walk eases
                fun next inner largerInner innerBalanced innerTrails =>
                  ih lower (Nat.lt_succ_self lower) innerBalanced innerTrails)
              (supers name) (balanced.visit name) (trails.visit name)
            rcases survey with holds | ⟨fails, after⟩
            · exact .inl (by simpa using holds)
            · refine .inr ⟨by simpa using fails, ?_⟩
              exact trails_leaveName trails after (survey_extends balanced)
                (survey_extends largerBalanced)
          · have full := Nat.le_of_not_lt room
            have largerFull :=
              Nat.le_of_not_lt (mt trails.room_iff.mp room)
            rw [walk_of_denied balanced (.inr ⟨known, full⟩),
              walk_of_denied largerBalanced (.inr ⟨fresh, largerFull⟩)]
            exact .inr ⟨rfl, trails.deny⟩

theorem search_keepsYes_of_eases (budgetLe : budget ≤ larger)
    (eases : goal.Eases largerGoal) (name : Name) :
    (search ⟨supers, ⟨maxDepth, budget⟩⟩ goal name).KeepsYes
      (search ⟨supers, ⟨maxDepth, larger⟩⟩ largerGoal name) := by
  intro holds
  have trails : (Guard.start ⟨maxDepth, budget⟩ : Guard Name).Trails
      (.start ⟨maxDepth, larger⟩) :=
    ⟨rfl, budgetLe, rfl, .inr ⟨rfl, rfl⟩⟩
  have walkKeeps : OutcomeKeepsYes
      (walk ⟨supers, ⟨maxDepth, budget⟩⟩ goal maxDepth.toNat name
        (.start ⟨maxDepth, budget⟩))
      (walk ⟨supers, ⟨maxDepth, larger⟩⟩ largerGoal maxDepth.toNat name
        (.start ⟨maxDepth, larger⟩)) :=
    walk_keepsYes eases (Guard.balanced_start ⟨maxDepth, budget⟩) trails
  rcases walkKeeps with answered | ⟨fails, _⟩
  · exact answered
  · exact absurd holds (by simp [search, fails])

theorem search_keepsYes (budgetLe : budget ≤ larger) :
    Context.SearchesPaired Finding.KeepsYes ⟨supers, ⟨maxDepth, budget⟩⟩
      ⟨supers, ⟨maxDepth, larger⟩⟩ :=
  fun _ _ paired name => search_keepsYes_of_eases budgetLe paired.eases name

end LargerBudget

namespace Context

/-- A larger number of attempts never loses a supertype. -/
theorem isSubtype_survives_larger_budget (supers : Name → List Ty)
    (maxDepth budget larger : UInt32) (budgetLe : budget ≤ larger)
    (source target : Ty)
    (holds : isSubtype ⟨supers, ⟨maxDepth, budget⟩⟩ source target = true) :
    isSubtype ⟨supers, ⟨maxDepth, larger⟩⟩ source target = true :=
  relate_paired keepsYes_congruence (search_keepsYes budgetLe) target source
    holds

/-- The smaller budget is used up at the first name, and again in the search
for the cells of the array. -/
theorem isSubtype_survives_larger_budget_starved :
    let supers : Name → List Ty := fun
      | "Grid" => [.named "Matrix", .generic "Sheet" [.integer],
          .array (.named "Row")]
      | "Matrix" => [.named "Value"]
      | "Row" => [.named "Matrix", .named "List"]
      | _ => []
    isSubtype ⟨supers, ⟨3, 1⟩⟩ (.named "Grid") (.array (.named "List")) =
        true ∧
      isSubtype ⟨supers, ⟨3, 4⟩⟩ (.named "Grid") (.array (.named "List")) =
        true := by
  refine ⟨by decide, ?_⟩
  exact isSubtype_survives_larger_budget _ 3 1 4 (by decide) _ _ (by decide)

/-- Two branches lead from `Leaf` to `Shared`, of which the longer one comes
first. -/
def sharedAncestor : Name → List Ty
  | "Leaf" => [.named "Long", .named "Shared"]
  | "Long" => [.named "Longer"]
  | "Longer" => [.named "Shared"]
  | "Shared" => [.named "High"]
  | "High" => [.named "Goal"]
  | _ => []

/-- Two branches lead up from `Leaf`, of which the second one reaches
`Goal`. -/
def twoBranches : Name → List Ty
  | "Leaf" => [.named "First", .named "Second"]
  | "First" => [.named "Higher"]
  | "Higher" => [.named "Highest"]
  | "Second" => [.named "Goal"]
  | _ => []

/-- A supertype can be lost when the depth limit is raised: by using up the
attempts on an earlier branch, and, with attempts to spare, by entering a
shared ancestor at the limit. -/
theorem isSubtype_lost_by_deeper_limit :
    let leaf := Ty.named "Leaf"
    let goal := Ty.named "Goal"
    (isSubtype ⟨twoBranches, ⟨2, 4⟩⟩ leaf goal = true ∧
        isSubtype ⟨twoBranches, ⟨3, 4⟩⟩ leaf goal = false) ∧
      isSubtype ⟨sharedAncestor, ⟨3, 100⟩⟩ leaf goal = true ∧
        isSubtype ⟨sharedAncestor, ⟨4, 100⟩⟩ leaf goal = false := by
  decide

/-- A supertype is lost by raising the depth limit only if both queries hit a
limit. -/
theorem isSubtype_survives_deeper_limit (supers : Name → List Ty)
    (maxIterations depth deeper : UInt32) (depthLe : depth ≤ deeper)
    (source target : Ty)
    (holds : isSubtype ⟨supers, ⟨depth, maxIterations⟩⟩ source target =
      true) :
    let shallow : Context := ⟨supers, ⟨depth, maxIterations⟩⟩
    let deep : Context := ⟨supers, ⟨deeper, maxIterations⟩⟩
    deep.isSubtype source target = true ∨
      (Checker.ask { context := shallow } source target).2.exceeded = true ∧
        (Checker.ask { context := deep } source target).2.exceeded =
          true := by
  intro shallow deep
  have derivation : SubtypeOf supers source target :=
    (shallow.relate_decides target source).sound holds
  have wide : shallow.limits ≤ deep.limits :=
    ⟨depthLe, UInt32.le_refl maxIterations⟩
  have repeats : (shallow.check source target).Repeats
      (deep.check source target) :=
    relate_paired repeats_congruence (search_repeats wide) target source
  rcases deep.isSubtype_or_exceeded derivation with survives | deepExceeded
  · exact .inl survives
  · by_cases within : (shallow.check source target).exceeded = false
    · -- A query within its limits is repeated, answer included.
      refine .inl ?_
      unfold isSubtype
      rw [repeats within]
      exact holds
    · exact .inr ⟨Bool.not_eq_false _ |>.mp within, deepExceeded⟩

/-- Five levels are enough to go round by the longer branch. -/
theorem isSubtype_survives_deeper_limit_round :
    let shallow : Context := ⟨sharedAncestor, ⟨3, 100⟩⟩
    let deep : Context := ⟨sharedAncestor, ⟨5, 100⟩⟩
    let leaf := Ty.named "Leaf"
    let goal := Ty.named "Goal"
    shallow.isSubtype leaf goal = true ∧
      (deep.isSubtype leaf goal = true ∨
        (Checker.ask { context := shallow } leaf goal).2.exceeded = true ∧
          (Checker.ask { context := deep } leaf goal).2.exceeded = true) := by
  refine ⟨by decide, ?_⟩
  exact isSubtype_survives_deeper_limit sharedAncestor 100 3 5 (by decide) _ _
    (by decide)

end Context

end LuaTyping
