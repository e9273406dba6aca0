import LuaTyping.Proofs.QueryRuns
import Mathlib.Algebra.GroupWithZero.Nat
import Mathlib.Algebra.Order.BigOperators.Group.List
import Mathlib.Algebra.Order.Ring.Nat

/-!
# The attempt limit and whole queries

The attempt limit bounds how many names one walk may look up.  It is a limit
of the walk and not of the query: a supertype without a declared name is
compared by its parts, and each part with a declared name starts a walk with a
guard of its own.

So a query looks up at most as many names as the limit allows for each of its
walks.  That is a bound by the limit alone only if the target has no parts to
compare, in which case there is a single walk.  In general no such bound
exists: two supertypes suffice to double the lookups with every level of
arrays in the target, whatever the limits are, as long as they admit one name.

The attempt counter stops at its largest value.  A limit of that value is
never exceeded, and is left out here.
-/

namespace LuaTyping

namespace Move

mutual

/-- How often a move looks up the supertypes of a name, inner walks
included. -/
def lookups : Move → Nat
  | .entered _ => 1
  | .walk moves => lookupsOf moves
  | .revisited _ | .denied _ _ _ | .left _ | .broken _ => 0

/-- How often several moves look up the supertypes of a name. -/
def lookupsOf : List Move → Nat
  | [] => 0
  | move :: moves => move.lookups + lookupsOf moves

end

@[simp]
theorem lookupsOf_append (firsts seconds : List Move) :
    lookupsOf (firsts ++ seconds) = lookupsOf firsts + lookupsOf seconds := by
  induction firsts with
  | nil => rw [List.nil_append, lookupsOf, Nat.zero_add]
  | cons first firsts ih =>
      rw [List.cons_append, lookupsOf, lookupsOf, ih, Nat.add_assoc]

mutual

theorem lookups_eq (move : Move) :
    move.lookups = (entries [move]).length +
      (move.walks.map fun walk => (entries walk).length).sum := by
  match move with
  | .walk moves =>
      rw [lookups, lookupsOf_eq moves]
      simp [walks, entries, entry?]
  | .entered _ | .revisited _ | .denied _ _ _ | .left _ | .broken _ => rfl

/-- Every lookup belongs to the moves themselves or to exactly one of their
walks. -/
theorem lookupsOf_eq (moves : List Move) :
    lookupsOf moves = (entries moves).length +
      ((walksOf moves).map fun walk => (entries walk).length).sum := by
  match moves with
  | [] => rfl
  | move :: moves =>
      have split : entries (move :: moves) = entries [move] ++ entries moves :=
        entries_append [move] moves
      rw [lookupsOf, lookups_eq move, lookupsOf_eq moves, walksOf, split,
        List.length_append, List.map_append, List.sum_append]
      omega

end

end Move

theorem Finding.Walked.lookups_le {found : Finding} {budget : Nat}
    (walked : found.Walked fun moves => (Move.entries moves).length ≤ budget) :
    Move.lookupsOf found.moves ≤
      (Move.walksOf found.moves).length * budget := by
  have sumLe := List.sum_le_card_nsmul
    ((Move.walksOf found.moves).map fun walk => (Move.entries walk).length)
    budget (List.forall_mem_map.mpr walked.sound)
  rw [List.length_map, nsmul_eq_mul, Nat.cast_id] at sumLe
  rw [Move.lookupsOf_eq, walked.entries_eq, List.length_nil, Nat.zero_add]
  exact sumLe

/-- A guard that admitted no more names than it counted attempts, and no more
than its limit allows. -/
structure Guard.Frugal (budget : Nat) (guard : Guard Name) : Prop where
  limit : guard.limits.maxIterations.toNat = budget
  counted : guard.visited.length ≤ guard.iterations
  within : guard.visited.length ≤ budget

section Budget

variable {budget : Nat} (bounded : budget < Guard.maxCount)

include bounded

theorem Guard.Frugal.count {guard : Guard Name}
    (frugal : guard.Frugal budget) : guard.count.Frugal budget where
  limit := frugal.limit
  counted := by
    have counted := frugal.counted
    have within := frugal.within
    change guard.visited.length ≤ min (guard.iterations + 1) maxCount
    omega
  within := frugal.within

theorem Guard.Frugal.visit {guard : Guard Name}
    (frugal : guard.Frugal budget) (name : Name)
    (left : guard.count.iterations ≤ guard.limits.maxIterations.toNat) :
    (guard.visit name).Frugal budget := by
  rw [frugal.limit] at left
  -- Below its largest value the counter has counted this attempt, too.
  have counted : guard.visited.length + 1 ≤ guard.count.iterations := by
    have counted := frugal.counted
    change min (guard.iterations + 1) maxCount ≤ budget at left
    change _ ≤ min (guard.iterations + 1) maxCount
    omega
  exact ⟨frugal.limit, counted, counted.trans left⟩

theorem frugal_closed (goal : Goal) :
    WalkRelation goal fun before outcome =>
      before.Frugal budget → outcome.2.Frugal budget where
  yes _ := id
  no _ := id
  byParts _ _ := id
  after toBetween toLast frugal := toLast (toBetween frugal)
  entered left _ _ _ survey frugal := by
    have inside := survey (frugal.visit bounded _ left)
    exact ⟨inside.limit, inside.counted, inside.within⟩
  revisited _ _ frugal := frugal.count bounded
  denied _ frugal := by
    have counted := frugal.count bounded
    exact ⟨counted.limit, counted.counted, counted.within⟩

end Budget

namespace Context

variable {context : Context}

/-- No walk of a query looks up more names than the attempt limit allows. -/
theorem relate_frugal
    (bounded : context.limits.maxIterations.toNat < Guard.maxCount)
    (target source : Ty) :
    (context.relate target source).Walked fun moves =>
      (Move.entries moves).length ≤ context.limits.maxIterations.toNat := by
  apply relate_walked
  intro goal walked name
  have balanced : (Guard.start context.limits : Guard Name).Balanced _ :=
    Guard.balanced_start context.limits
  have frugal := walk_related (frugal_closed bounded goal) context name
    balanced ⟨rfl, Nat.le_refl 0, Nat.zero_le _⟩
  have recorded := walk_related (recorded_closed walked) context name balanced
  have within := frugal.within
  rw [recorded.visited, List.length_append, List.length_reverse] at within
  exact (Nat.le_add_right _ _).trans within

/-- A query makes at most one walk if nothing can be compared with its target
by parts. -/
theorem length_walksOf_le_one {target : Ty}
    (incomparable : ∀ super : Ty, super.comparable target = false)
    (source : Ty) :
    (Move.walksOf (context.relate target source).moves).length ≤ 1 := by
  have noParts : ∀ super, context.byParts target super = .no :=
    fun super => byParts_of_incomparable (incomparable super)
  by_cases isTop : target.isTop = true
  · simp [relate_of_top isTop, Finding.yes, Move.walksOf]
  · rw [context.relate_eq (Bool.eq_false_iff.mpr isTop), settle]
    split
    · simp [Finding.yes, Move.walksOf]
    · split
      · rename_i name _
        -- Comparing by parts makes no walk, so none is inside this one.
        have noWalks : ∀ super, ((context.goal target).byParts super).Walked
            fun _ => False := by
          intro super
          change (context.byParts target super).Walked _
          rw [noParts super]
          exact (walked_congruence _).no
        have inner := walk_related (soundWalks_closed noWalks) context name
          (Guard.balanced_start context.limits)
        rw [search_eq]
        simp [Move.walksOf, Move.walks,
          List.eq_nil_iff_forall_not_mem.mpr inner]
      · change (Move.walksOf (context.byParts target source).moves).length ≤ 1
        simp [noParts, Finding.no, Move.walksOf]

/-- The attempt limit bounds the lookups of every single walk.  A query makes
at most as many lookups as that allows for all its walks together, and stays
within the limit itself if nothing can be compared with its target by
parts. -/
theorem lookups_le_per_walk (source target : Ty)
    (bounded : context.limits.maxIterations.toNat < Guard.maxCount) :
    let budget := context.limits.maxIterations.toNat
    let moves := (context.check source target).moves
    (∀ walk ∈ Move.walksOf moves, (Move.entries walk).length ≤ budget) ∧
    Move.lookupsOf moves ≤ (Move.walksOf moves).length * budget ∧
    ((∀ super : Ty, super.comparable target = false) →
      Move.lookupsOf moves ≤ budget) := by
  have frugal := relate_frugal bounded target source
  refine ⟨frugal.sound, frugal.lookups_le, fun incomparable => ?_⟩
  have single : (Move.walksOf (context.relate target source).moves).length ≤ 1 :=
    length_walksOf_le_one incomparable source
  calc Move.lookupsOf (context.relate target source).moves
      ≤ (Move.walksOf (context.relate target source).moves).length *
          context.limits.maxIterations.toNat := frugal.lookups_le
    _ ≤ 1 * context.limits.maxIterations.toNat :=
        Nat.mul_le_mul_right _ single
    _ = context.limits.maxIterations.toNat := Nat.one_mul _

/-- A table consists of rows and a row is a cell.  One attempt is allowed. -/
def tableOfRows : Context where
  supers := fun
    | "Table" => [.array (.named "Row")]
    | "Row" => [.named "Cell"]
    | _ => []
  limits := ⟨5, 1⟩

theorem lookups_le_per_walk_rows :
    let moves :=
      (tableOfRows.check (.named "Table") (.array (.named "Cell"))).moves
    tableOfRows.limits.maxIterations.toNat < Guard.maxCount ∧
      (Move.walksOf moves).length = 2 ∧ Move.lookupsOf moves ≤ 2 * 1 ∧
      Move.lookupsOf
        (tableOfRows.check (.named "Row") (.named "Cell")).moves ≤ 1 := by
  have bounded : tableOfRows.limits.maxIterations.toNat < Guard.maxCount := by
    decide
  refine ⟨bounded, by decide, ?_, ?_⟩
  · exact (lookups_le_per_walk _ _ bounded).2.1
  · apply (lookups_le_per_walk _ _ bounded).2.2
    intro super
    cases super <;> rfl

/-- The row is looked up in a walk inside the walk from the table. -/
theorem lookups_exceed_budget :
    let found := tableOfRows.check (.named "Table") (.array (.named "Cell"))
    found.holds = true ∧ found.exceeded = false ∧
      ¬ Move.lookupsOf found.moves ≤
        tableOfRows.limits.maxIterations.toNat := by
  decide

end Context

/-- Arrays of arrays, a number of levels deep. -/
def Ty.arrays (element : Ty) : Nat → Ty
  | 0 => element
  | depth + 1 => .array (element.arrays depth)

theorem Ty.named_differs_arrays {name other : Name} (differs : name ≠ other)
    (depth : Nat) :
    (Ty.named name).agrees ((Ty.named other).arrays depth) = false := by
  cases depth with
  | zero => simp [Ty.arrays, Ty.agrees, Ty.same, Ty.sharesName, differs]
  | succ depth => rfl

section Doubling

variable {context : Context} {name : Name}
  (supersEq : context.supers name =
    [.array (.named name), .array (.named name)])
  (depthPos : 0 < context.limits.maxDepth.toNat)
  (budgetPos : 0 < context.limits.maxIterations.toNat)

include supersEq depthPos budgetPos

theorem search_twice (goal : Goal)
    (unmet : goal.met (.array (.named name)) = false)
    (fails : (goal.byParts (.array (.named name))).holds = false) :
    (search context goal name).holds = false ∧
      Move.lookupsOf (search context goal name).moves =
        2 * Move.lookupsOf (goal.byParts (.array (.named name))).moves + 1 := by
  obtain ⟨lower, _, walkEq⟩ : ∃ lower, _ ∧ walk context goal _ name _ = _ :=
    walk_of_fresh (Guard.balanced_start context.limits)
      (Guard.not_spent_start budgetPos) List.not_mem_nil depthPos
  have follows : ∀ guard, follow context goal lower (.array (.named name))
      guard = (goal.byParts (.array (.named name)), guard) := by
    intro guard
    rw [follow, if_neg (by simp [unmet])]
    rfl
  have survey : ∀ guard,
      firstRelated (follow context goal lower) (context.supers name) guard =
        ((goal.byParts (.array (.named name))).after
          ((goal.byParts (.array (.named name))).after .no), guard) := by
    intro guard
    simp [supersEq, firstRelated, follows, fails]
  rw [search_eq, walkEq, survey]
  dsimp only
  rw [leaveName_eq (Guard.Extends.refl _)]
  refine ⟨rfl, ?_⟩
  simp only [Move.lookupsOf, Move.lookups, Move.lookupsOf_append,
    Finding.after, Finding.no]
  omega

/-- Two supertypes suffice to double the lookups with every level of arrays in
the target, whatever the limits are. -/
theorem Context.lookups_double {other : Name} (differs : name ≠ other)
    (depth : Nat) :
    (context.relate ((Ty.named other).arrays depth) (.named name)).holds =
        false ∧
      Move.lookupsOf
        (context.relate ((Ty.named other).arrays depth) (.named name)).moves +
          1 = 2 ^ (depth + 1) := by
  have namedDiffers := Ty.named_differs_arrays differs
  induction depth with
  | zero =>
      obtain ⟨fails, lookupsEq⟩ := search_twice supersEq depthPos budgetPos
        (context.goal (.named other)) rfl rfl
      rw [relate_of_named rfl (namedDiffers 0) rfl]
      exact ⟨fails, congrArg (· + 1) lookupsEq⟩
  | succ depth ih =>
      -- Both supertypes ask the question of the level below, one after the
      -- other, and neither remembers the answer.
      have unmet : (Ty.array (.named name)).agrees
          (.array ((Ty.named other).arrays depth)) = false := by
        have partsDiffer := namedDiffers depth
        rw [Ty.agrees, Bool.or_eq_false_iff] at partsDiffer
        rw [Ty.agrees, Ty.same, partsDiffer.1]
        rfl
      obtain ⟨fails, lookupsEq⟩ := search_twice supersEq depthPos budgetPos
        (context.goal ((Ty.named other).arrays (depth + 1))) unmet ih.1
      rw [relate_of_named rfl (namedDiffers (depth + 1)) rfl]
      refine ⟨fails, ?_⟩
      rw [lookupsEq]
      change 2 * Move.lookupsOf (context.relate _ (.named name)).moves + 1 + 1
        = _
      rw [pow_succ, ← ih.2]
      omega

end Doubling

end LuaTyping
