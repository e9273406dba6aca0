import LuaTyping.Proofs.WalkRecords

/-!
# Runs of queries

A query goes back and forth between types and names.  To compare a declared
name it walks along the supertypes of the name, and a supertype without a
name is a query of its own, with the same target and no smaller a source.
Declarations may loop, or lead to ever new names, so it is not obvious that
such a query comes to an end.

The relation `Answers` describes finished runs in just these terms: no levels
are counted, and neither target nor source has to get smaller.  A run has to
be able to leave every name that it entered, and to end every walk with an
empty path.  Each query has exactly one finished run, and its finding is the
one of `Context.check`.  Two things make it finite: the path of a walk is
bounded by the depth limit, and comparing by parts goes on to parts of the
target.
-/

namespace LuaTyping

/-- Whether two types are the same or share a declared name. -/
def Ty.agrees (source target : Ty) : Bool :=
  source.same target || source.sharesName target

/-- Whether two types have parts that can be compared. -/
def Ty.comparable : Ty → Ty → Bool
  | .union _, .union _ => true
  | .tuple slots, .tuple targets => slots.length == targets.length
  | .array _, .array _ => true
  | _, _ => false

mutual

/-- Whether the source is a subtype of the target is answered by a finding. -/
inductive Answers (context : Context) : Ty → Ty → Finding → Prop
  | top {source target : Ty} (isTop : target.isTop = true) :
      Answers context source target .yes
  | agrees {source target : Ty} (agrees : source.agrees target = true) :
      Answers context source target .yes
  | named {source target : Ty} {name : Name} {found : Finding}
      {guard : Guard Name} (notTop : target.isTop = false)
      (differs : source.agrees target = false)
      (named : source.declaredName? = some name)
      (walks : Walks context target name (.start context.limits)
        (found, guard))
      (finished : guard.finish = .ok ()) :
      Answers context source target
        ⟨found.holds, found.exceeded || guard.exceeded, [.walk found.moves]⟩
  | union {members targets : List Ty} {found : Finding}
      (differs : (Ty.union members).agrees (.union targets) = false)
      (each : AnswersEach context members targets found) :
      Answers context (.union members) (.union targets) found
  | tuple {slots targets : List (Slot Ty)} {found : Finding}
      (differs : (Ty.tuple slots).agrees (.tuple targets) = false)
      (lengthEq : slots.length = targets.length)
      (positions : AnswersSlots context slots targets found) :
      Answers context (.tuple slots) (.tuple targets) found
  | array {element target : Ty} {found : Finding}
      (differs : (Ty.array element).agrees (.array target) = false)
      (elements : Answers context element target found) :
      Answers context (.array element) (.array target) found
  | unrelated {source target : Ty} (notTop : target.isTop = false)
      (differs : source.agrees target = false)
      (unnamed : source.declaredName? = none)
      (incomparable : source.comparable target = false) :
      Answers context source target .no

/-- Whether each member is a subtype of some target, asked up to the first
no. -/
inductive AnswersEach (context : Context) :
    List Ty → List Ty → Finding → Prop
  | nil {targets : List Ty} : AnswersEach context [] targets .yes
  | no {member : Ty} {members targets : List Ty} {found : Finding}
      (first : AnswersSome context member targets found)
      (fails : found.holds = false) :
      AnswersEach context (member :: members) targets found
  | next {member : Ty} {members targets : List Ty} {found rest : Finding}
      (first : AnswersSome context member targets found)
      (holds : found.holds = true)
      (others : AnswersEach context members targets rest) :
      AnswersEach context (member :: members) targets (found.after rest)

/-- Whether the source is a subtype of some target, asked up to the first
yes. -/
inductive AnswersSome (context : Context) : Ty → List Ty → Finding → Prop
  | nil {source : Ty} : AnswersSome context source [] .no
  | yes {source target : Ty} {targets : List Ty} {found : Finding}
      (first : Answers context source target found)
      (holds : found.holds = true) :
      AnswersSome context source (target :: targets) found
  | next {source target : Ty} {targets : List Ty} {found rest : Finding}
      (first : Answers context source target found)
      (fails : found.holds = false)
      (others : AnswersSome context source targets rest) :
      AnswersSome context source (target :: targets) (found.after rest)

/-- Whether the slots are subtypes position by position, asked up to the first
no. -/
inductive AnswersSlots (context : Context) :
    List (Slot Ty) → List (Slot Ty) → Finding → Prop
  | nil : AnswersSlots context [] [] .yes
  | no {slot target : Slot Ty} {slots targets : List (Slot Ty)}
      {found : Finding} (first : Answers context slot.type target.type found)
      (fails : found.holds = false) :
      AnswersSlots context (slot :: slots) (target :: targets) found
  | next {slot target : Slot Ty} {slots targets : List (Slot Ty)}
      {found rest : Finding}
      (first : Answers context slot.type target.type found)
      (holds : found.holds = true)
      (others : AnswersSlots context slots targets rest) :
      AnswersSlots context (slot :: slots) (target :: targets)
        (found.after rest)

/-- A walk from a name leads from one guard to another. -/
inductive Walks (context : Context) :
    Ty → Name → Guard Name → Finding × Guard Name → Prop
  | entered {target : Ty} {name : Name} {found : Finding}
      {guard inside after outside : Guard Name}
      (entering : guard.enter name = (.entered, inside))
      (surveys : Surveys context target (context.supers name) inside
        (found, after))
      (leaving : after.leave name = .ok outside) :
      Walks context target name guard
        ({ found with
            moves := .entered name :: (found.moves ++ [.left name]) },
          outside)
  | revisited {target : Ty} {name : Name} {guard outside : Guard Name}
      (entering : guard.enter name = (.revisited, outside)) :
      Walks context target name guard
        (⟨false, false, [.revisited name]⟩, outside)
  | denied {target : Ty} {name : Name} {verdict : Verdict}
      {guard outside : Guard Name}
      (entering : guard.enter name = (verdict, outside))
      (exceeded : verdict.isExceeded = true) :
      Walks context target name guard
        (⟨false, false, [.denied name outside.depth outside.iterations]⟩,
          outside)

/-- Supertypes are looked at under one guard, up to the first yes. -/
inductive Surveys (context : Context) :
    Ty → List Ty → Guard Name → Finding × Guard Name → Prop
  | nil {target : Ty} {guard : Guard Name} :
      Surveys context target [] guard (.no, guard)
  | yes {target super : Ty} {supers : List Ty} {found : Finding}
      {guard after : Guard Name}
      (first : Follows context target super guard (found, after))
      (holds : found.holds = true) :
      Surveys context target (super :: supers) guard (found, after)
  | next {target super : Ty} {supers : List Ty} {found rest : Finding}
      {guard after last : Guard Name}
      (first : Follows context target super guard (found, after))
      (fails : found.holds = false)
      (others : Surveys context target supers after (rest, last)) :
      Surveys context target (super :: supers) guard (found.after rest, last)

/-- A supertype is looked at.  A declared name is followed under the same
guard, and any other type is a query of its own. -/
inductive Follows (context : Context) :
    Ty → Ty → Guard Name → Finding × Guard Name → Prop
  | agrees {target super : Ty} {guard : Guard Name}
      (agrees : super.agrees target = true) :
      Follows context target super guard (.yes, guard)
  | named {target super : Ty} {name : Name} {guard : Guard Name}
      {outcome : Finding × Guard Name}
      (differs : super.agrees target = false)
      (named : super.declaredName? = some name)
      (walks : Walks context target name guard outcome) :
      Follows context target super guard outcome
  | unnamed {target super : Ty} {found : Finding} {guard : Guard Name}
      (differs : super.agrees target = false)
      (unnamed : super.declaredName? = none)
      (answers : Answers context super target found) :
      Follows context target super guard (found, guard)

end

/-- The comparison of types without a declared name with a target, part by
part. -/
def Context.byParts (context : Context) : Ty → Ty → Finding
  | .union targets, .union members =>
      Finding.all (fun member => context.relateSome targets member) members
  | .tuple targets, .tuple slots =>
      if slots.length = targets.length then context.relateSlots targets slots
      else .no
  | .array target, .array element => context.relate target element
  | _, _ => .no

/-- The goal that a query with a given target pursues. -/
def Context.goal (context : Context) (target : Ty) : Goal where
  target
  byParts := context.byParts target

theorem Context.goal_met (context : Context) (source target : Ty) :
    (context.goal target).met source = source.agrees target :=
  rfl

theorem Context.relate_eq (context : Context) {target : Ty}
    (notTop : target.isTop = false) (source : Ty) :
    context.relate target source =
      context.settle (context.goal target) source := by
  have sameGoal : ∀ byParts : Ty → Finding,
      (∀ super, byParts super = context.byParts target super) →
      context.settle ⟨target, byParts⟩ source =
        context.settle (context.goal target) source := by
    intro byParts sameParts
    rw [funext sameParts]
    rfl
  cases target with
  | any | unknown => simp [Ty.isTop] at notTop
  | _ =>
      refine sameGoal _ fun super => ?_
      cases super <;> rfl

section Finished

variable {context : Context}

theorem answersSome_relateSome {targets : List Ty} {source : Ty}
    (step : ∀ target ∈ targets,
      Answers context source target (context.relate target source)) :
    AnswersSome context source targets
      (context.relateSome targets source) := by
  induction targets with
  | nil => exact .nil
  | cons target targets ih =>
      rw [List.forall_mem_cons] at step
      rw [Context.relateSome, Finding.orElse]
      split
      · rename_i holds
        exact .yes step.1 holds
      · rename_i fails
        exact .next step.1 (Bool.eq_false_iff.mpr fails) (ih step.2)

theorem answersEach_all {targets : List Ty} (members : List Ty)
    (step : ∀ member,
      AnswersSome context member targets
        (context.relateSome targets member)) :
    AnswersEach context members targets
      (Finding.all (fun member => context.relateSome targets member)
        members) := by
  induction members with
  | nil => exact .nil
  | cons member members ih =>
      rw [Finding.all, Finding.andThen]
      split
      · rename_i holds
        exact .next (step member) holds ih
      · rename_i fails
        exact .no (step member) (Bool.eq_false_iff.mpr fails)

theorem answersSlots_relateSlots {targets slots : List (Slot Ty)}
    (lengthEq : slots.length = targets.length)
    (step : ∀ target ∈ targets, ∀ source,
      Answers context source target.type
        (context.relate target.type source)) :
    AnswersSlots context slots targets
      (context.relateSlots targets slots) := by
  induction targets generalizing slots with
  | nil =>
      obtain rfl := List.eq_nil_of_length_eq_zero lengthEq
      exact .nil
  | cons target targets ih =>
      cases slots with
      | nil => simp at lengthEq
      | cons slot slots =>
          rw [List.forall_mem_cons] at step
          have first := step.1 slot.type
          rw [Context.relateSlots, Finding.andThen]
          split
          · rename_i holds
            exact .next first holds (ih (Nat.succ.inj lengthEq) step.2)
          · rename_i fails
            exact .no first (Bool.eq_false_iff.mpr fails)

theorem surveys_firstRelated {levels : Nat} {target : Ty}
    {ask : Ty → Guard Name → Finding × Guard Name}
    (extend : ∀ super (guard : Guard Name), guard.Balanced levels →
      guard.Extends (ask super guard).2)
    (step : ∀ super (guard : Guard Name), guard.Balanced levels →
      Follows context target super guard (ask super guard))
    (supers : List Ty) {guard : Guard Name}
    (balanced : guard.Balanced levels) :
    Surveys context target supers guard (firstRelated ask supers guard) := by
  induction supers generalizing guard with
  | nil => exact .nil
  | cons super supers ih =>
      have first := step super guard balanced
      rw [firstRelated_cons]
      split
      · rename_i holds
        exact .yes first holds
      · rename_i fails
        refine .next first (Bool.eq_false_iff.mpr fails) (ih ?_)
        exact (extend super guard balanced).balanced balanced

variable {target : Ty}
  (parts : ∀ super, super.agrees target = false →
    super.declaredName? = none →
    Answers context super target (context.byParts target super))

include parts

theorem walks_walk {levels : Nat} (name : Name) {guard : Guard Name}
    (balanced : guard.Balanced levels) :
    Walks context target name guard
      (walk context (context.goal target) levels name guard) := by
  -- The levels bound the path that is left, so they fall with every name
  -- entered, also around a loop of declarations.
  induction levels using Nat.strongRecOn generalizing name guard with
  | ind levels ih =>
      have attempt := guard.attempt_enter name
      generalize entering : guard.enter name = verdict at attempt
      cases attempt with
      | entered budget fresh room =>
          obtain ⟨lower, rfl, walkEq⟩ :=
            walk_of_fresh balanced (Nat.not_lt_of_le budget) fresh room
          have follows : ∀ super (reached : Guard Name),
              reached.Balanced lower →
              Follows context target super reached
                (follow context (context.goal target) lower super
                  reached) := by
            intro super reached reachedBalanced
            unfold follow
            split
            · rename_i met
              exact .agrees met
            · rename_i unmet
              have differs := Bool.eq_false_iff.mpr unmet
              split
              · rename_i named
                exact .named differs named
                  (ih lower (Nat.lt_succ_self lower) _ reachedBalanced)
              · rename_i unnamed
                exact .unnamed differs unnamed (parts super differs unnamed)
          have survey : (guard.visit name).Extends
              (firstRelated (follow context (context.goal target) lower)
                (context.supers name) (guard.visit name)).2 :=
            survey_extends balanced
          rw [walkEq]
          dsimp only
          rw [leaveName_eq survey]
          exact .entered entering
            (surveys_firstRelated follow_extends follows _
              (balanced.visit name))
            (leave_of_extends survey)
      | revisited budget known =>
          rw [walk_of_visited balanced (Nat.not_lt_of_le budget) known]
          exact .revisited entering
      | depthExceeded budget fresh full =>
          rw [walk_of_denied balanced (.inr ⟨fresh, full⟩)]
          exact .denied entering rfl
      | iterationExceeded spent =>
          rw [walk_of_denied balanced (.inl spent)]
          exact .denied entering rfl

theorem answers_relate_of_parts (notTop : target.isTop = false)
    (source : Ty) :
    Answers context source target (context.relate target source) := by
  rw [context.relate_eq notTop]
  unfold Context.settle
  split
  · rename_i met
    exact .agrees met
  · rename_i unmet
    have differs := Bool.eq_false_iff.mpr unmet
    split
    · rename_i name named
      have walks := walks_walk parts name
        (Guard.balanced_start context.limits)
      rw [search_eq]
      exact .named notTop differs named walks (finish_walk context _ name)
    · rename_i unnamed
      exact parts source differs unnamed

end Finished

theorem Context.relate_answers (context : Context) (target source : Ty) :
    Answers context source target (context.relate target source) := by
  induction target using Ty.partsInduction generalizing source with
  | any | unknown => exact .top rfl
  | union targets ih =>
      refine answers_relate_of_parts ?_ rfl source
      intro super differs unnamed
      cases super with
      | union members =>
          apply Answers.union differs
          apply answersEach_all
          intro member
          apply answersSome_relateSome
          intro target targetMem
          exact ih target targetMem member
      | _ => exact .unrelated rfl differs unnamed rfl
  | tuple targets ih =>
      refine answers_relate_of_parts ?_ rfl source
      intro super differs unnamed
      cases super with
      | tuple slots =>
          change Answers context _ _ (if slots.length = targets.length then
            context.relateSlots targets slots else .no)
          split
          · rename_i lengthEq
            apply Answers.tuple differs lengthEq
            exact answersSlots_relateSlots lengthEq ih
          · rename_i lengthNe
            refine .unrelated rfl differs unnamed ?_
            simpa [Ty.comparable] using lengthNe
      | _ => exact .unrelated rfl differs unnamed rfl
  | array target ih =>
      refine answers_relate_of_parts ?_ rfl source
      intro super differs unnamed
      cases super with
      | array element => exact .array differs (ih element)
      | _ => exact .unrelated rfl differs unnamed rfl
  | _ =>
      -- Any other target has no parts to compare.
      refine answers_relate_of_parts ?_ rfl source
      intro super differs unnamed
      cases super <;> exact .unrelated rfl differs unnamed rfl

section Unique

variable {context : Context}

theorem Context.relate_of_top {target : Ty} (isTop : target.isTop = true)
    (source : Ty) : context.relate target source = .yes := by
  cases target with
  | any | unknown => rfl
  | _ => simp [Ty.isTop] at isTop

theorem Context.relate_of_agrees {source target : Ty}
    (agrees : source.agrees target = true) :
    context.relate target source = .yes := by
  by_cases isTop : target.isTop = true
  · exact relate_of_top isTop source
  · rw [context.relate_eq (Bool.eq_false_iff.mpr isTop)]
    exact if_pos agrees

theorem Context.relate_of_named {source target : Ty} {name : Name}
    (notTop : target.isTop = false) (differs : source.agrees target = false)
    (named : source.declaredName? = some name) :
    context.relate target source =
      search context (context.goal target) name := by
  rw [context.relate_eq notTop, settle, goal_met,
    if_neg (Bool.eq_false_iff.mp differs), named]

theorem Context.relate_of_unnamed {source target : Ty}
    (notTop : target.isTop = false) (differs : source.agrees target = false)
    (unnamed : source.declaredName? = none) :
    context.relate target source = context.byParts target source := by
  rw [context.relate_eq notTop, settle, goal_met,
    if_neg (Bool.eq_false_iff.mp differs), unnamed]
  rfl

theorem Context.byParts_of_incomparable {source target : Ty}
    (incomparable : source.comparable target = false) :
    context.byParts target source = .no := by
  unfold byParts
  split
  · simp [Ty.comparable] at incomparable
  · apply if_neg
    simpa [Ty.comparable] using incomparable
  · simp [Ty.comparable] at incomparable
  · rfl

theorem extends_of_eq_follow {goal : Goal} {levels : Nat} {super : Ty}
    {guard : Guard Name} {outcome : Finding × Guard Name}
    (outcomeEq : outcome = follow context goal levels super guard)
    (balanced : guard.Balanced levels) : guard.Extends outcome.2 := by
  rw [outcomeEq]
  exact follow_extends super guard balanced

mutual

theorem Answers.eq_relate {source target : Ty} {found : Finding}
    (run : Answers context source target found) :
    found = context.relate target source := by
  -- The recursion is on the run: along it neither the types nor the guards
  -- get smaller.
  match run with
  | .top isTop => rw [Context.relate_of_top isTop]
  | .agrees agrees => rw [Context.relate_of_agrees agrees]
  | .named notTop differs named walks finished =>
      have walkEq := walks.eq_walk notTop
        (Guard.balanced_start context.limits)
      rw [Context.relate_of_named notTop differs named, search_eq, ← walkEq]
  | .union differs each =>
      rw [Context.relate_of_unnamed rfl differs rfl]
      exact each.eq_all
  | .tuple differs lengthEq positions =>
      rw [Context.relate_of_unnamed rfl differs rfl, Context.byParts,
        if_pos lengthEq]
      exact positions.eq_relateSlots
  | .array differs elements =>
      rw [Context.relate_of_unnamed rfl differs rfl]
      exact elements.eq_relate
  | .unrelated notTop differs unnamed incomparable =>
      rw [Context.relate_of_unnamed notTop differs unnamed,
        Context.byParts_of_incomparable incomparable]

theorem AnswersEach.eq_all {members targets : List Ty} {found : Finding}
    (run : AnswersEach context members targets found) :
    found = Finding.all (fun member => context.relateSome targets member)
      members := by
  match run with
  | .nil => rfl
  | .no first fails =>
      rw [Finding.all, ← first.eq_relateSome, Finding.andThen,
        if_neg (by simp [fails])]
  | .next first holds others =>
      rw [Finding.all, ← first.eq_relateSome, Finding.andThen, if_pos holds,
        ← others.eq_all]

theorem AnswersSome.eq_relateSome {source : Ty} {targets : List Ty}
    {found : Finding} (run : AnswersSome context source targets found) :
    found = context.relateSome targets source := by
  match run with
  | .nil => rfl
  | .yes first holds =>
      rw [Context.relateSome, ← first.eq_relate, Finding.orElse,
        if_pos holds]
  | .next first fails others =>
      rw [Context.relateSome, ← first.eq_relate, Finding.orElse,
        if_neg (by simp [fails]), ← others.eq_relateSome]

theorem AnswersSlots.eq_relateSlots {slots targets : List (Slot Ty)}
    {found : Finding} (run : AnswersSlots context slots targets found) :
    found = context.relateSlots targets slots := by
  match run with
  | .nil => rfl
  | .no first fails =>
      rw [Context.relateSlots, ← first.eq_relate, Finding.andThen,
        if_neg (by simp [fails])]
  | .next first holds others =>
      rw [Context.relateSlots, ← first.eq_relate, Finding.andThen,
        if_pos holds, ← others.eq_relateSlots]

theorem Walks.eq_walk {target : Ty} {name : Name} {guard : Guard Name}
    {outcome : Finding × Guard Name}
    (run : Walks context target name guard outcome)
    (notTop : target.isTop = false) {levels : Nat}
    (balanced : guard.Balanced levels) :
    outcome = walk context (context.goal target) levels name guard := by
  have attempt := guard.attempt_enter name
  match run with
  | .entered entering surveys leaving =>
      -- The recursive call comes first, for the cases below replace the guard
      -- in the run of the survey.
      have surveyed := fun lower (balanced : Guard.Balanced lower _) =>
        surveys.eq_firstRelated notTop balanced
      rw [entering] at attempt
      cases attempt with
      | entered budget fresh room =>
          obtain ⟨lower, rfl, walkEq⟩ :=
            walk_of_fresh balanced (Nat.not_lt_of_le budget) fresh room
          rw [walkEq, ← surveyed lower (balanced.visit name)]
          simp [leaveName, leaving]
  | .revisited entering =>
      rw [entering] at attempt
      cases attempt with
      | revisited budget known =>
          rw [walk_of_visited balanced (Nat.not_lt_of_le budget) known]
  | .denied entering exceeded =>
      rw [entering] at attempt
      cases attempt with
      | entered | revisited => simp [Verdict.isExceeded] at exceeded
      | depthExceeded _ fresh full =>
          rw [walk_of_denied balanced (.inr ⟨fresh, full⟩)]
      | iterationExceeded spent =>
          rw [walk_of_denied balanced (.inl spent)]

theorem Surveys.eq_firstRelated {target : Ty} {supers : List Ty}
    {guard : Guard Name} {outcome : Finding × Guard Name}
    (run : Surveys context target supers guard outcome)
    (notTop : target.isTop = false) {levels : Nat}
    (balanced : guard.Balanced levels) :
    outcome = firstRelated (follow context (context.goal target) levels)
      supers guard := by
  match run with
  | .nil => rfl
  | .yes first holds =>
      rw [firstRelated_cons, ← first.eq_follow notTop balanced,
        if_pos holds]
  | .next first fails others =>
      have firstEq := first.eq_follow notTop balanced
      have extend := extends_of_eq_follow firstEq balanced
      rw [firstRelated_cons, ← firstEq]
      dsimp only
      rw [if_neg (by simp [fails]),
        ← others.eq_firstRelated notTop (extend.balanced balanced)]

theorem Follows.eq_follow {target super : Ty} {guard : Guard Name}
    {outcome : Finding × Guard Name}
    (run : Follows context target super guard outcome)
    (notTop : target.isTop = false) {levels : Nat}
    (balanced : guard.Balanced levels) :
    outcome = follow context (context.goal target) levels super guard := by
  match run with
  | .agrees agrees => exact (if_pos agrees).symm
  | .named differs named walks =>
      rw [follow, Context.goal_met, if_neg (Bool.eq_false_iff.mp differs),
        named]
      exact walks.eq_walk notTop balanced
  | .unnamed differs unnamed answers =>
      rw [follow, Context.goal_met, if_neg (Bool.eq_false_iff.mp differs),
        unnamed, answers.eq_relate,
        Context.relate_of_unnamed notTop differs unnamed]
      rfl

end

end Unique

theorem Context.answers_iff (context : Context) (source target : Ty)
    (found : Finding) :
    Answers context source target found ↔
      found = context.check source target := by
  constructor
  · exact Answers.eq_relate
  · rintro rfl
    exact context.relate_answers target source

/-- Every walk of a query leaves what it entered, latest name first, and
enters no name twice. -/
theorem Context.relate_recorded (context : Context) (target source : Ty) :
    (context.relate target source).Walked fun moves =>
      Move.pathAfter [] moves = some [] ∧ (Move.entries moves).Nodup := by
  apply relate_walked
  intro goal walked name
  have recorded := walk_related (recorded_closed walked) context name
    (Guard.balanced_start context.limits)
  have nodup := recorded.nodup List.nodup_nil
  rw [recorded.visited, List.nodup_append] at nodup
  exact ⟨recorded.paired [], (List.reverse_perm _).nodup_iff.mp nodup.1⟩

/-- Whatever the declarations and the limits, a query comes to an end, in one
way only and without a pairing error.  Each of its walks leaves exactly the
names that it entered, and looks up no name twice. -/
theorem Context.check_ends_paired (context : Context) (source target : Ty) :
    (∀ found, Answers context source target found ↔
      found = context.check source target) ∧
    (context.check source target).error? = none ∧
    ∀ walk ∈ Move.walksOf (context.check source target).moves,
      Move.pathAfter [] walk = some [] ∧ (Move.entries walk).Nodup := by
  have recorded := context.relate_recorded target source
  refine ⟨context.answers_iff source target, ?_, recorded.sound⟩
  apply Move.firstError?_eq_none _ (recorded.pathAfter [])
  intro walk walkMem
  exact (recorded.sound walk walkMem).1

end LuaTyping
