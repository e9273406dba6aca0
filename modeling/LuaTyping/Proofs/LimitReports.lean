import LuaTyping.Proofs.SubtypeChecking
import LuaTyping.Proofs.WalkRecords

/-!
# Reports of exceeded limits

A no can be trusted unless some walk of the query was cut short, and the
checker says afterwards whether that happened.  On its way to the checker this
flag passes through searches inside searches, and through questions whose
answers are thrown away once another one has decided.

The flag is compared here with what the guards did.  The record of a walk
names every attempt to enter a name, so the attempts can be repeated with a
guard that has not seen the walk.  It gives its verdicts anew, without regard
to what the record says came of an attempt.  The flag is set exactly if one of
these verdicts, in any walk of the query, is a denial, and exactly if the
query has a notice of a denial.
-/

namespace LuaTyping

@[simp]
theorem Verdict.isExceeded_iff {verdict : Verdict} :
    verdict.isExceeded = true ↔
      verdict = .depthExceeded ∨ verdict = .iterationExceeded := by
  cases verdict <;> simp [isExceeded]

namespace Guard

variable {κ : Type} [DecidableEq κ] {guard : Guard κ} {key : κ}

theorem enter_of_fresh
    (budget : guard.count.iterations ≤ guard.limits.maxIterations.toNat)
    (fresh : key ∉ guard.visited)
    (room : guard.depth < guard.limits.maxDepth.toNat) :
    guard.enter key = (.entered, guard.visit key) := by
  have attempt := guard.attempt_enter key
  generalize guard.enter key = outcome at attempt
  cases attempt with
  | entered => rfl
  | revisited _ known => exact absurd known fresh
  | depthExceeded _ _ full => exact absurd room (Nat.not_lt_of_le full)
  | iterationExceeded spent => exact absurd budget (Nat.not_le_of_lt spent)

theorem enter_of_visited
    (budget : guard.count.iterations ≤ guard.limits.maxIterations.toNat)
    (known : key ∈ guard.visited) :
    guard.enter key = (.revisited, guard.count) := by
  have attempt := guard.attempt_enter key
  generalize guard.enter key = outcome at attempt
  cases attempt with
  | entered _ fresh | depthExceeded _ fresh => exact absurd known fresh
  | revisited => rfl
  | iterationExceeded spent => exact absurd budget (Nat.not_le_of_lt spent)

theorem enter_of_denied
    (reason : key ∉ guard.visited ∧
        guard.limits.maxDepth.toNat ≤ guard.depth ∨
      guard.limits.maxIterations.toNat < guard.count.iterations) :
    (guard.enter key).2 = guard.deny := by
  have attempt := guard.attempt_enter key
  generalize guard.enter key = outcome at attempt
  cases attempt with
  | entered budget _ room =>
      rcases reason with ⟨_, full⟩ | spent
      · exact absurd room (Nat.not_lt_of_le full)
      · exact absurd budget (Nat.not_le_of_lt spent)
  | revisited budget known =>
      rcases reason with ⟨fresh, _⟩ | spent
      · exact absurd known fresh
      · exact absurd budget (Nat.not_le_of_lt spent)
  | depthExceeded | iterationExceeded => rfl

/-- An attempt raises the flag exactly if it is denied. -/
@[simp]
theorem enter_exceeded (guard : Guard κ) (key : κ) :
    (guard.enter key).2.exceeded =
      (guard.exceeded || (guard.enter key).1.isExceeded) := by
  have attempt := guard.attempt_enter key
  generalize guard.enter key = outcome at attempt
  cases attempt <;> simp [visit, deny, count, Verdict.isExceeded]

end Guard

namespace Guard

/-- What a guard makes of a recorded move: its verdict, if the move was an
attempt to enter a name, and the guard afterwards.  What came of the attempt
according to the record does not matter. -/
def retrace (guard : Guard Name) : Move → Option Verdict × Guard Name
  | .entered name | .revisited name | .denied name _ _ =>
      (some (guard.enter name).1, (guard.enter name).2)
  | .left name =>
      match guard.leave name with
      | .ok outside => (none, outside)
      | .error _ => (none, guard)
  | .broken _ | .walk _ => (none, guard)

/-- The guard after it has retraced the moves of a walk.  The walks inside
have guards of their own. -/
def retraced (guard : Guard Name) (moves : List Move) : Guard Name :=
  moves.foldl (fun guard move => (guard.retrace move).2) guard

/-- The verdicts of a guard that retraces the moves of a walk. -/
def verdicts (guard : Guard Name) : List Move → List Verdict
  | [] => []
  | move :: moves =>
      (guard.retrace move).1.toList ++ (guard.retrace move).2.verdicts moves

@[simp]
theorem retraced_append (guard : Guard Name) (firsts seconds : List Move) :
    guard.retraced (firsts ++ seconds) =
      (guard.retraced firsts).retraced seconds :=
  List.foldl_append ..

theorem retrace_exceeded (guard : Guard Name) (move : Move) :
    (guard.retrace move).2.exceeded =
      (guard.exceeded ||
        (guard.retrace move).1.toList.any Verdict.isExceeded) := by
  cases move with
  | entered name | revisited name | denied name _ _ =>
      simp [retrace]
  | left name =>
      unfold retrace
      dsimp only
      split
      · rename_i outside left
        simp [(leave_keeps name guard left).2]
      · simp
  | broken _ | walk _ => simp [retrace]

/-- A guard has its flag raised exactly if it was raised before or some attempt
is denied. -/
theorem retraced_exceeded (guard : Guard Name) (moves : List Move) :
    (guard.retraced moves).exceeded =
      (guard.exceeded ||
        (guard.verdicts moves).any Verdict.isExceeded) := by
  induction moves generalizing guard with
  | nil => simp [retraced, verdicts]
  | cons move moves ih =>
      change ((guard.retrace move).2.retraced moves).exceeded = _
      rw [ih, retrace_exceeded, verdicts, List.any_append, Bool.or_assoc]

end Guard

namespace Move

/-- Whether a move is a name denied because of a limit. -/
def isDenied : Move → Bool
  | .denied _ _ _ => true
  | .entered _ | .revisited _ | .left _ | .broken _ | .walk _ => false

/-- Whether a walk was denied a name.  The walks inside are left out. -/
def limited (moves : List Move) : Bool :=
  moves.any isDenied

@[simp]
theorem limited_cons (move : Move) (moves : List Move) :
    limited (move :: moves) = (move.isDenied || limited moves) :=
  List.any_cons

@[simp]
theorem limited_append (firsts seconds : List Move) :
    limited (firsts ++ seconds) = (limited firsts || limited seconds) :=
  List.any_append

end Move

/-- The notice that a walk was denied a name, by its wording. -/
def Notice.reportsLimit (notice : Notice) : Bool :=
  notice.message == "supertype walk exceeded recursion limits"

namespace Move

mutual

theorem notices_any (move : Move) :
    move.notices.any Notice.reportsLimit =
      (move.isDenied || move.walks.any limited) := by
  match move with
  | .walk moves =>
      rw [notices, noticesOf_any moves]
      rfl
  | .entered _ | .revisited _ | .denied _ _ _ | .left _ | .broken _ => rfl

/-- The notices of several moves report a denial if there is one among the
moves themselves or in one of their walks. -/
theorem noticesOf_any (moves : List Move) :
    (noticesOf moves).any Notice.reportsLimit =
      (limited moves || (walksOf moves).any limited) := by
  match moves with
  | [] => rfl
  | move :: moves =>
      rw [noticesOf, List.any_append, notices_any move, noticesOf_any moves,
        walksOf, List.any_append, limited_cons]
      ac_rfl

end

end Move

/-- What the record of a walk says about denials.  Retracing it leads to the
guard with which the walk ended.  That guard knows of the denials of the walk
itself, and the finding of those in the walks inside. -/
structure Reported (before : Guard Name) (outcome : Finding × Guard Name) :
    Prop where
  retraced : before.retraced outcome.1.moves = outcome.2
  guard : outcome.2.exceeded =
    (before.exceeded || Move.limited outcome.1.moves)
  found : outcome.1.exceeded =
    (Move.walksOf outcome.1.moves).any Move.limited

/-- A finding whose flag is raised exactly if one of its walks was denied a
name, where the record of every walk has the denials that its guard
pronounced. -/
structure Finding.Reporting (limits : Limits) (found : Finding) : Prop where
  walked : found.Walked fun moves =>
    ((Guard.start limits).verdicts moves).any Verdict.isExceeded =
      Move.limited moves
  exceeded : found.exceeded = (Move.walksOf found.moves).any Move.limited

section Walks

variable {sound : List Move → Prop} {found : Finding}

theorem Finding.Walked.retraced (walked : found.Walked sound)
    (guard : Guard Name) : guard.retraced found.moves = guard := by
  have onlyWalks := walked.onlyWalks
  generalize found.moves = moves at onlyWalks
  induction moves with
  | nil => rfl
  | cons move moves ih =>
      rw [List.forall_mem_cons] at onlyWalks
      obtain ⟨⟨inner, rfl⟩, rest⟩ := onlyWalks
      exact ih rest

theorem Finding.Walked.limited_eq (walked : found.Walked sound) :
    Move.limited found.moves = false := by
  apply List.any_eq_false.mpr
  intro move moveMem
  obtain ⟨inner, rfl⟩ := walked.onlyWalks move moveMem
  exact Bool.false_ne_true

variable {limits : Limits} {goal : Goal}

theorem reported_closed
    (reporting : ∀ super, (goal.byParts super).Reporting limits) :
    WalkRelation goal Reported where
  yes guard := ⟨rfl, (Bool.or_false _).symm, rfl⟩
  no guard := ⟨rfl, (Bool.or_false _).symm, rfl⟩
  byParts guard super := by
    have walked := (reporting super).walked
    refine ⟨walked.retraced guard, ?_, (reporting super).exceeded⟩
    rw [walked.limited_eq, Bool.or_false]
  after := by
    intro first second before between last toBetween toLast
    refine ⟨?_, ?_, ?_⟩
    · change before.retraced (first.moves ++ second.moves) = last
      simpa [toBetween.retraced] using toLast.retraced
    · change last.exceeded =
        (before.exceeded || Move.limited (first.moves ++ second.moves))
      rw [toLast.guard, toBetween.guard]
      simp [Bool.or_assoc]
    · change (first.exceeded || second.exceeded) =
        (Move.walksOf (first.moves ++ second.moves)).any Move.limited
      rw [toBetween.found, toLast.found]
      simp
  entered := by
    intro guard inside name found budget fresh room surveyed survey
    refine ⟨?_, ?_, ?_⟩
    · change (guard.enter name).2.retraced (found.moves ++ [.left name]) = _
      rw [Guard.enter_of_fresh budget fresh room, Guard.retraced_append,
        survey.retraced]
      simp [Guard.retraced, Guard.retrace, leave_of_extends surveyed]
    · change inside.exceeded = (guard.exceeded ||
        Move.limited (.entered name :: (found.moves ++ [.left name])))
      rw [survey.guard]
      simp [Move.limited, Move.isDenied, Guard.visit, Guard.count]
    · change found.exceeded = _
      rw [survey.found]
      simp [Move.walksOf, Move.walks]
  revisited := by
    intro guard name budget known
    refine ⟨?_, (Bool.or_false _).symm, rfl⟩
    change (guard.enter name).2 = guard.count
    rw [Guard.enter_of_visited budget known]
  denied reason :=
    ⟨Guard.enter_of_denied reason, (Bool.or_true _).symm, rfl⟩

/-- The denials in the record of a whole walk are those that its guard
pronounced, for both are what raises the flag of the guard. -/
theorem Reported.verdicts_eq {outcome : Finding × Guard Name}
    (reported : Reported (.start limits) outcome) :
    ((Guard.start limits).verdicts outcome.1.moves).any Verdict.isExceeded =
      Move.limited outcome.1.moves :=
  calc ((Guard.start limits).verdicts outcome.1.moves).any Verdict.isExceeded
      = ((Guard.start limits).retraced outcome.1.moves).exceeded :=
        (Guard.retraced_exceeded (.start limits) outcome.1.moves).symm
    _ = outcome.2.exceeded := congrArg Guard.exceeded reported.retraced
    _ = Move.limited outcome.1.moves := reported.guard

theorem Finding.Reporting.after {first second : Finding}
    (firstReporting : first.Reporting limits)
    (secondReporting : second.Reporting limits) :
    (first.after second).Reporting limits where
  walked := firstReporting.walked.after secondReporting.walked
  exceeded := by
    change (first.exceeded || second.exceeded) =
      (Move.walksOf (first.moves ++ second.moves)).any Move.limited
    simp [firstReporting.exceeded, secondReporting.exceeded]

theorem reporting_congruence (limits : Limits) :
    Finding.Congruence fun found _ => found.Reporting limits := by
  apply Finding.congruence_of_after
  · exact ⟨(walked_congruence _).yes, rfl⟩
  · exact ⟨(walked_congruence _).no, rfl⟩
  · exact Finding.Reporting.after

end Walks

theorem Context.relate_reporting (context : Context) (target source : Ty) :
    (context.relate target source).Reporting context.limits := by
  have searches : context.SearchesPaired
      (fun found _ => found.Reporting context.limits) context := by
    intro goal _ paired name
    have balanced : (Guard.start context.limits : Guard Name).Balanced _ :=
      Guard.balanced_start context.limits
    have reported := walk_related (reported_closed paired.byParts) context
      name balanced
    have inner := walk_related
      (soundWalks_closed fun super => (paired.byParts super).walked) context
      name balanced
    rw [search_eq]
    refine ⟨⟨by simp, ?_⟩, ?_⟩
    · simp only [Move.walksOf, Move.walks, List.append_nil,
        List.forall_mem_cons]
      exact ⟨reported.verdicts_eq, inner⟩
    · simp only [Move.walksOf, Move.walks, List.append_nil, List.any_cons]
      rw [reported.found, reported.guard, Bool.or_comm]
      rfl
  exact relate_paired (reporting_congruence context.limits) searches target
    source

/-- Whatever a checker was asked before, it says of a query that a limit was
hit exactly if an attempt to enter a name was denied in one of the walks of
that query, and exactly if the query has a notice of such a denial.  Answer and
flag are those of a checker that was asked nothing before. -/
theorem Checker.ask_reports_limits (context : Context)
    (queries : List (Ty × Ty)) (source target : Ty) :
    let answer := (askAll { context } queries).ask source target
    let fresh := ask { context } source target
    (answer.2.exceeded = true ↔
      ∃ walk ∈ Move.walksOf answer.1.moves,
        ∃ verdict ∈ (Guard.start context.limits).verdicts walk,
          verdict = .depthExceeded ∨ verdict = .iterationExceeded) ∧
    (answer.2.exceeded = true ↔
      ∃ notice ∈ answer.1.notices,
        notice.message = "supertype walk exceeded recursion limits") ∧
    answer.1.holds = fresh.1.holds ∧
    answer.2.exceeded = fresh.2.exceeded := by
  have reporting := context.relate_reporting target source
  simp only [ask, Context.check, askAll_context, and_true]
  refine ⟨?_, ?_⟩
  · rw [reporting.exceeded, List.any_eq_true]
    refine exists_congr fun walk => and_congr_right fun walkMem => ?_
    rw [← reporting.walked.sound walk walkMem, List.any_eq_true]
    simp only [Verdict.isExceeded_iff]
  · have reported := Move.noticesOf_any (context.relate target source).moves
    rw [reporting.walked.limited_eq, Bool.false_or, ← reporting.exceeded]
      at reported
    rw [← reported, List.any_eq_true]
    simp only [Notice.reportsLimit, beq_iff_eq, Finding.notices]

/-- The search for a friend is given up at the depth limit.  Then the second
member decides, and the flag stays raised. -/
example :
    let context : Context :=
      { supers := fun
          | "Cat" => [.named "Animal", .named "Pet"]
          | "Pet" => [.named "Friend"]
          | _ => []
        limits := ⟨1, 10⟩ }
    let source := Ty.unionOf [.named "Cat"]
    let target := Ty.unionOf [.named "Friend", .named "Animal"]
    (Checker.ask { context } source target).1.holds = true ∧
      (Checker.ask { context } source target).2.exceeded = true := by
  decide

end LuaTyping
