import LuaTyping.Proofs.PairedQueries
import LuaTyping.Subtyping.Report

/-!
# Records of walks

A finding keeps a record of the moves of its query, in which every walk is a
list of its own.  This file reads such records: which names a walk enters,
whether it leaves them in the reverse order, and which walks were made inside
other walks.

A statement about all walks of a query is proved once for a single walk, under
the assumption that comparing by parts recorded nothing but walks for which
the statement holds.  For the single walk there is one induction principle,
`walk_related`.
-/

namespace LuaTyping

namespace Move

/-- The name that a move enters. -/
def entry? : Move → Option Name
  | .entered name => some name
  | .revisited _ | .denied _ _ _ | .left _ | .broken _ | .walk _ => none

/-- The names that a walk enters itself, in order.  What the walks inside it
enter is left out. -/
def entries (moves : List Move) : List Name :=
  moves.filterMap entry?

/-- The path after a move, latest name first.  Only the latest name can be
left, and nothing follows upon a pairing error. -/
def step? (path : List Name) : Move → Option (List Name)
  | .entered name => some (name :: path)
  | .left name =>
      match path with
      | [] => none
      | latest :: earlier => if name = latest then some earlier else none
  | .broken _ => none
  | .revisited _ | .denied _ _ _ | .walk _ => some path

/-- The path after several moves. -/
def pathAfter (path : List Name) (moves : List Move) : Option (List Name) :=
  moves.foldlM step? path

mutual

/-- The walks that a move consists of, those inside other walks included. -/
def walks : Move → List (List Move)
  | .walk moves => moves :: walksOf moves
  | .entered _ | .revisited _ | .denied _ _ _ | .left _ | .broken _ => []

/-- The walks among several moves, those inside other walks included. -/
def walksOf : List Move → List (List Move)
  | [] => []
  | move :: moves => move.walks ++ walksOf moves

end

@[simp]
theorem entries_append (firsts seconds : List Move) :
    entries (firsts ++ seconds) = entries firsts ++ entries seconds :=
  List.filterMap_append

@[simp]
theorem walksOf_append (firsts seconds : List Move) :
    walksOf (firsts ++ seconds) = walksOf firsts ++ walksOf seconds := by
  induction firsts with
  | nil => rfl
  | cons first firsts ih =>
      rw [List.cons_append, walksOf, walksOf, ih, List.append_assoc]

theorem pathAfter_append {path between : List Name} {firsts : List Move}
    (seconds : List Move) (toBetween : pathAfter path firsts = some between) :
    pathAfter path (firsts ++ seconds) = pathAfter between seconds := by
  unfold pathAfter at toBetween ⊢
  rw [List.foldlM_append, toBetween]
  rfl

mutual

/-- A move that can be made, with walks inside that pair up, is free of
pairing errors. -/
theorem error?_eq_none {path next : List Name} (move : Move)
    (made : step? path move = some next)
    (paired : ∀ walk ∈ move.walks, pathAfter [] walk = some []) :
    move.error? = none := by
  match move with
  | .broken _ => simp [step?] at made
  | .walk moves =>
      exact firstError?_eq_none moves (paired moves List.mem_cons_self)
        fun walk walkMem => paired walk (List.mem_cons_of_mem moves walkMem)
  | .entered _ | .revisited _ | .denied _ _ _ | .left _ => rfl

theorem firstError?_eq_none {path last : List Name} (moves : List Move)
    (made : pathAfter path moves = some last)
    (paired : ∀ walk ∈ walksOf moves, pathAfter [] walk = some []) :
    firstError? moves = none := by
  match moves with
  | [] => rfl
  | move :: moves =>
      unfold pathAfter at made
      rw [List.foldlM_cons, Option.bind_eq_bind, Option.bind_eq_some_iff]
        at made
      obtain ⟨next, first, rest⟩ := made
      rw [walksOf, List.forall_mem_append] at paired
      rw [firstError?, error?_eq_none move first paired.1, Option.none_or]
      exact firstError?_eq_none moves rest paired.2

end

end Move

/-- A relation between the guard at the beginning of a walk and the outcome,
kept by everything that a walk does. -/
structure WalkRelation (goal : Goal)
    (related : Guard Name → Finding × Guard Name → Prop) : Prop where
  yes (guard : Guard Name) : related guard (.yes, guard)
  no (guard : Guard Name) : related guard (.no, guard)
  byParts (guard : Guard Name) (super : Ty) :
    related guard (goal.byParts super, guard)
  after {first second : Finding} {before between last : Guard Name} :
    related before (first, between) → related between (second, last) →
      related before (first.after second, last)
  entered {guard inside : Guard Name} {name : Name} {found : Finding}
      (budget : guard.count.iterations ≤ guard.limits.maxIterations.toNat)
      (fresh : name ∉ guard.visited)
      (room : guard.depth < guard.limits.maxDepth.toNat)
      (surveyed : (guard.visit name).Extends inside) :
    related (guard.visit name) (found, inside) →
      related guard
        ({ found with
            moves := .entered name :: (found.moves ++ [.left name]) },
          { inside with depth := guard.depth })
  revisited {guard : Guard Name} {name : Name}
      (budget : guard.count.iterations ≤ guard.limits.maxIterations.toNat)
      (known : name ∈ guard.visited) :
    related guard (⟨false, false, [.revisited name]⟩, guard.count)
  denied {guard : Guard Name} {name : Name}
      (reason : name ∉ guard.visited ∧
          guard.limits.maxDepth.toNat ≤ guard.depth ∨
        guard.limits.maxIterations.toNat < guard.count.iterations) :
    related guard
      (⟨false, false,
        [.denied name guard.deny.depth guard.deny.iterations]⟩, guard.deny)

section Walks

variable {goal : Goal} {related : Guard Name → Finding × Guard Name → Prop}

theorem firstRelated_related (closed : WalkRelation goal related) {α : Type}
    {levels : Nat} {ask : α → Guard Name → Finding × Guard Name}
    (extend : ∀ element (guard : Guard Name), guard.Balanced levels →
      guard.Extends (ask element guard).2)
    (step : ∀ element (guard : Guard Name), guard.Balanced levels →
      related guard (ask element guard))
    (elements : List α) {guard : Guard Name}
    (balanced : guard.Balanced levels) :
    related guard (firstRelated ask elements guard) := by
  induction elements generalizing guard with
  | nil => exact closed.no guard
  | cons element elements ih =>
      have first := step element guard balanced
      rw [firstRelated_cons]
      split
      · exact first
      · apply closed.after first
        exact ih ((extend element guard balanced).balanced balanced)

/-- What is kept by everything that a walk does holds of every walk. -/
theorem walk_related (closed : WalkRelation goal related) (context : Context)
    {levels : Nat} (name : Name) {guard : Guard Name}
    (balanced : guard.Balanced levels) :
    related guard (walk context goal levels name guard) := by
  induction levels using Nat.strongRecOn generalizing name guard with
  | ind levels ih =>
      have step := walkCase_walk context goal name balanced
      generalize walk context goal levels name guard = outcome at step
      cases step with
      | @entered lower survey budget fresh room surveyEq =>
          subst surveyEq
          have follows : ∀ super (reached : Guard Name),
              reached.Balanced lower →
              related reached (follow context goal lower super reached) := by
            intro super reached reachedBalanced
            unfold follow
            split
            · exact closed.yes reached
            · split
              · exact ih lower (Nat.lt_succ_self lower) _ reachedBalanced
              · exact closed.byParts reached super
          rw [leaveName_eq (survey_extends balanced)]
          apply closed.entered budget fresh room (survey_extends balanced)
          exact firstRelated_related closed follow_extends follows _
            (balanced.visit name)
      | revisited budget known => exact closed.revisited budget known
      | denied reason => exact closed.denied reason

theorem finish_walk (context : Context) (goal : Goal) (name : Name) :
    (walk context goal context.limits.maxDepth.toNat name
      (.start context.limits)).2.finish = .ok () := by
  have returned : (walk context goal context.limits.maxDepth.toNat name
      (.start context.limits)).2.depth = 0 :=
    (walk_extends (Guard.balanced_start context.limits)).depth
  unfold Guard.finish
  rw [if_pos returned]

/-- A search ends with an empty path, so its record is that of one walk. -/
theorem search_eq (context : Context) (goal : Goal) (name : Name) :
    search context goal name =
      let outcome := walk context goal context.limits.maxDepth.toNat name
        (.start context.limits)
      { holds := outcome.1.holds
        exceeded := outcome.1.exceeded || outcome.2.exceeded
        moves := [.walk outcome.1.moves] } := by
  unfold search
  dsimp only
  rw [finish_walk]

end Walks

/-- A finding records nothing but walks, and a statement holds of all of
them. -/
structure Finding.Walked (sound : List Move → Prop) (found : Finding) :
    Prop where
  onlyWalks : ∀ move ∈ found.moves, ∃ moves, move = .walk moves
  sound : ∀ walk ∈ Move.walksOf found.moves, sound walk

section Walked

variable {sound : List Move → Prop}

theorem Finding.Walked.pathAfter {found : Finding} (walked : found.Walked sound)
    (path : List Name) : Move.pathAfter path found.moves = some path := by
  have onlyWalks := walked.onlyWalks
  generalize found.moves = moves at onlyWalks
  induction moves with
  | nil => rfl
  | cons move moves ih =>
      rw [List.forall_mem_cons] at onlyWalks
      obtain ⟨⟨inner, rfl⟩, rest⟩ := onlyWalks
      exact ih rest

theorem Finding.Walked.entries_eq {found : Finding}
    (walked : found.Walked sound) : Move.entries found.moves = [] := by
  apply List.filterMap_eq_nil_iff.mpr
  intro move moveMem
  obtain ⟨inner, rfl⟩ := walked.onlyWalks move moveMem
  rfl

theorem Finding.Walked.after {first second : Finding}
    (firstWalked : first.Walked sound) (secondWalked : second.Walked sound) :
    (first.after second).Walked sound where
  onlyWalks := List.forall_mem_append.mpr
    ⟨firstWalked.onlyWalks, secondWalked.onlyWalks⟩
  sound := by
    change ∀ walk ∈ Move.walksOf (first.moves ++ second.moves), _
    rw [Move.walksOf_append, List.forall_mem_append]
    exact ⟨firstWalked.sound, secondWalked.sound⟩

theorem walked_congruence (sound : List Move → Prop) :
    Finding.Congruence fun found _ => found.Walked sound := by
  apply Finding.congruence_of_after
  · exact ⟨by simp [Finding.yes], by simp [Finding.yes, Move.walksOf]⟩
  · exact ⟨by simp [Finding.no], by simp [Finding.no, Move.walksOf]⟩
  · exact Finding.Walked.after

variable {goal : Goal}

theorem soundWalks_closed
    (walked : ∀ super, (goal.byParts super).Walked sound) :
    WalkRelation goal fun _ outcome =>
      ∀ walk ∈ Move.walksOf outcome.1.moves, sound walk where
  yes _ := by simp [Finding.yes, Move.walksOf]
  no _ := by simp [Finding.no, Move.walksOf]
  byParts _ super := (walked super).sound
  after := by
    intro first second _ _ _ firstSound secondSound
    change ∀ walk ∈ Move.walksOf (first.moves ++ second.moves), _
    rw [Move.walksOf_append, List.forall_mem_append]
    exact ⟨firstSound, secondSound⟩
  entered := by
    intro _ _ name found _ _ _ _ inner
    simpa [Move.walksOf, Move.walks] using inner
  revisited _ _ := by simp [Move.walksOf, Move.walks]
  denied _ := by simp [Move.walksOf, Move.walks]

/-- A statement holds of all walks of a query if it holds of a walk as soon as
it holds of the walks inside. -/
theorem Context.relate_walked (context : Context)
    (own : ∀ goal : Goal, (∀ super, (goal.byParts super).Walked sound) →
      ∀ name, sound (walk context goal context.limits.maxDepth.toNat name
        (.start context.limits)).1.moves)
    (target source : Ty) : (context.relate target source).Walked sound := by
  have searches : context.SearchesPaired (fun found _ => found.Walked sound)
      context := by
    intro goal _ paired name
    have inner := walk_related (soundWalks_closed paired.byParts) context name
      (Guard.balanced_start context.limits)
    rw [search_eq]
    refine ⟨by simp, ?_⟩
    simp only [Move.walksOf, Move.walks, List.append_nil, List.forall_mem_cons]
    exact ⟨own goal paired.byParts name, inner⟩
  exact relate_paired (walked_congruence sound) searches target source

end Walked

/-- What the record of a walk says about its guard.  The path is the same
before and after, and the names entered are those newly visited. -/
structure Recorded (before : Guard Name) (outcome : Finding × Guard Name) :
    Prop where
  paired (path : List Name) :
    Move.pathAfter path outcome.1.moves = some path
  visited : outcome.2.visited =
    (Move.entries outcome.1.moves).reverse ++ before.visited
  nodup : before.visited.Nodup → outcome.2.visited.Nodup

theorem recorded_closed {sound : List Move → Prop} {goal : Goal}
    (walked : ∀ super, (goal.byParts super).Walked sound) :
    WalkRelation goal Recorded where
  yes guard := ⟨fun _ => rfl, rfl, id⟩
  no guard := ⟨fun _ => rfl, rfl, id⟩
  byParts guard super := by
    refine ⟨(walked super).pathAfter, ?_, id⟩
    rw [(walked super).entries_eq]
    rfl
  after := by
    intro first second before between last toBetween toLast
    refine ⟨fun path => ?_, ?_, toLast.nodup ∘ toBetween.nodup⟩
    · change Move.pathAfter path (first.moves ++ second.moves) = some path
      rw [Move.pathAfter_append _ (toBetween.paired path)]
      exact toLast.paired path
    · change last.visited =
        (Move.entries (first.moves ++ second.moves)).reverse ++ before.visited
      rw [Move.entries_append, List.reverse_append, List.append_assoc,
        ← toBetween.visited]
      exact toLast.visited
  entered := by
    intro guard inside name found _ fresh _ _ survey
    refine ⟨fun path => ?_, ?_, fun nodup => ?_⟩
    · change Move.pathAfter (name :: path) (found.moves ++ [.left name]) = _
      rw [Move.pathAfter_append _ (survey.paired (name :: path))]
      simp [Move.pathAfter, Move.step?]
    · change inside.visited = _
      rw [survey.visited]
      simp [Move.entries, Move.entry?, Guard.visit]
    · exact survey.nodup (List.nodup_cons.mpr ⟨fresh, nodup⟩)
  revisited _ _ := ⟨fun _ => rfl, rfl, id⟩
  denied _ := ⟨fun _ => rfl, rfl, id⟩

end LuaTyping
