import LuaTyping.Proofs.PairedQueries
import Mathlib.Algebra.GroupWithZero.Nat
import Mathlib.Algebra.Order.BigOperators.Group.Finset
import Mathlib.Logic.Relation

/-!
# Limits that are never hit

Loops and shared ancestors do not count against the limits of a search.  A
path holds every name once, so it is no longer than the number of names that
can be reached.  Every name is entered once, and every attempt but the first
one comes from an entry in the declaration of a name that was entered, so
there are no more attempts than such entries.

The second bound is an account that a search keeps balanced.  When a name is
entered, the account is charged with all the names in its declaration; these
are pending until they are attempted.
-/

namespace LuaTyping

namespace Context

/-- The declared names among the supertypes of a name, in order and with
repetitions. -/
def parents (context : Context) (name : Name) : List Name :=
  (context.supers name).filterMap Ty.declaredName?

/-- A name can be reached from another one by going on to parents. -/
def Reaches (context : Context) : Name → Name → Prop :=
  Relation.ReflTransGen fun name next => next ∈ context.parents name

/-- The names that can be reached from a name are no more than the depth limit,
and the entries that name their parents, with one for the name itself, are no
more than the attempts. -/
def Accommodates (context : Context) (start : Name) : Prop :=
  ∃ names : Finset Name,
    (∀ other, other ∈ names ↔ context.Reaches start other) ∧
      names.card ≤ context.limits.maxDepth.toNat ∧
      1 + ∑ name ∈ names, (context.parents name).length ≤
        context.limits.maxIterations.toNat

/-- A set of names that no search leaves and that is within the limits. -/
structure Confines (context : Context) (names : Finset Name) : Prop where
  closed : ∀ name ∈ names, ∀ next ∈ context.parents name, next ∈ names
  depth : names.card ≤ context.limits.maxDepth.toNat
  attempts : 1 + ∑ name ∈ names, (context.parents name).length ≤
    context.limits.maxIterations.toNat

variable {context : Context} {names : Finset Name}

theorem Accommodates.exists_confines {start : Name}
    (accommodates : context.Accommodates start) :
    ∃ names, start ∈ names ∧ context.Confines names := by
  obtain ⟨names, reached, depth, attempts⟩ := accommodates
  refine ⟨names, (reached start).mpr .refl, ?_, depth, attempts⟩
  intro name nameMem next nextMem
  exact (reached next).mpr (((reached name).mp nameMem).tail nextMem)

theorem Confines.mem_of_reaches (confines : context.Confines names)
    {start other : Name} (startMem : start ∈ names)
    (reaches : context.Reaches start other) : other ∈ names := by
  induction reaches with
  | refl => exact startMem
  | tail _ nextMem ih => exact confines.closed _ ih _ nextMem

/-- Names that are confined can be any superset of those that are reached. -/
theorem Confines.accommodates (confines : context.Confines names)
    {start : Name} (startMem : start ∈ names) :
    context.Accommodates start := by
  classical
  let reached := names.filter (context.Reaches start)
  have subset : reached ⊆ names := Finset.filter_subset _ _
  refine ⟨reached, fun other => ?_, ?_, ?_⟩
  · simp only [reached, Finset.mem_filter, and_iff_right_iff_imp]
    exact confines.mem_of_reaches startMem
  · exact (Finset.card_le_card subset).trans confines.depth
  · have sumLe := Finset.sum_le_sum_of_subset subset
      (f := fun name => (context.parents name).length)
    exact (Nat.add_le_add_left sumLe 1).trans confines.attempts

end Context

/-- The account of a search that is confined to some names.  Every attempt so
far, and every one that is pending, is paid for by the declaration of a name
that was entered; one attempt is free. -/
structure Guard.Accounted (context : Context) (names : Finset Name)
    (pending : Nat) (guard : Guard Name) : Prop where
  limits : guard.limits = context.limits
  nodup : guard.visited.Nodup
  confined : ∀ name ∈ guard.visited, name ∈ names
  path : guard.depth ≤ guard.visited.length
  paid : guard.iterations + pending ≤
    1 + (guard.visited.map fun name => (context.parents name).length).sum
  within : guard.exceeded = false

namespace Guard.Accounted

variable {context : Context} {names : Finset Name} {guard : Guard Name}
  {pending : Nat}

theorem mono {fewer : Nat} (accounted : guard.Accounted context names pending)
    (fewerLe : fewer ≤ pending) : guard.Accounted context names fewer :=
  { accounted with
    paid := (Nat.add_le_add_left fewerLe _).trans accounted.paid }

theorem toFinset_subset (accounted : guard.Accounted context names pending) :
    guard.visited.toFinset ⊆ names :=
  fun name nameMem => accounted.confined name (List.mem_toFinset.mp nameMem)

theorem depth_le (accounted : guard.Accounted context names pending) :
    guard.depth ≤ names.card := by
  have lengthLe : guard.visited.length ≤ names.card := by
    rw [← List.toFinset_card_of_nodup accounted.nodup]
    exact Finset.card_le_card accounted.toFinset_subset
  exact accounted.path.trans lengthLe

theorem not_spent (accounted : guard.Accounted context names (pending + 1))
    (confines : context.Confines names) : ¬ guard.Spent := by
  have sumLe := Finset.sum_le_sum_of_subset accounted.toFinset_subset
    (f := fun name => (context.parents name).length)
  rw [List.sum_toFinset _ accounted.nodup] at sumLe
  have paid := accounted.paid
  have attempts := confines.attempts
  unfold Guard.Spent Guard.count
  rw [accounted.limits]
  dsimp only
  omega

theorem count (accounted : guard.Accounted context names (pending + 1)) :
    guard.count.Accounted context names pending where
  limits := accounted.limits
  nodup := accounted.nodup
  confined := accounted.confined
  path := accounted.path
  paid := by
    have paid := accounted.paid
    unfold Guard.count
    dsimp only
    omega
  within := accounted.within

/-- Entering a name makes all its parents pending. -/
theorem visit (accounted : guard.Accounted context names (pending + 1))
    {name : Name} (nameMem : name ∈ names) (fresh : name ∉ guard.visited) :
    (guard.visit name).Accounted context names
      (pending + (context.parents name).length) where
  limits := accounted.limits
  nodup := List.nodup_cons.mpr ⟨fresh, accounted.nodup⟩
  confined := by
    intro other otherMem
    rcases List.mem_cons.mp otherMem with rfl | known
    · exact nameMem
    · exact accounted.confined other known
  path := Nat.succ_le_succ accounted.path
  paid := by
    have paid := accounted.count.paid
    change guard.count.iterations + _ ≤
      1 + ((name :: guard.visited).map _).sum
    rw [List.map_cons, List.sum_cons]
    change guard.count.iterations + pending ≤
      1 + (guard.visited.map _).sum at paid
    omega
  within := accounted.within

theorem room (accounted : guard.Accounted context names (pending + 1))
    (confines : context.Confines names) {name : Name} (nameMem : name ∈ names)
    (fresh : name ∉ guard.visited) :
    guard.depth < guard.limits.maxDepth.toNat := by
  -- The path would be within bounds even with the name on it.
  have longer : guard.depth + 1 ≤ names.card :=
    (accounted.visit nameMem fresh).depth_le
  rw [accounted.limits]
  exact longer.trans confines.depth

theorem leaveName {name : Name} {found : Finding} {inside : Guard Name}
    (accounted : inside.Accounted context names pending)
    (survey : (guard.visit name).Extends inside) :
    (leaveName name found inside).2.Accounted context names pending := by
  have onPath : inside.depth = guard.depth + 1 := survey.depth
  have path := accounted.path
  rw [leaveName_of_extends survey]
  refine { accounted with path := ?_ }
  change guard.depth ≤ inside.visited.length
  omega

end Guard.Accounted

/-- No limit was hit, and the account is balanced with what is pending. -/
structure OutcomeWithin (context : Context) (names : Finset Name)
    (pending : Nat) (outcome : Finding × Guard Name) : Prop where
  found : outcome.1.exceeded = false
  guard : outcome.2.Accounted context names pending

section Walks

variable {context : Context} {goal : Goal} {names : Finset Name}

theorem firstRelated_within {levels pending : Nat}
    {ask : Ty → Guard Name → Finding × Guard Name}
    (extend : ∀ super (guard : Guard Name), guard.Balanced levels →
      guard.Extends (ask super guard).2)
    {elements : List Ty}
    (step : ∀ super ∈ elements, ∀ (pending : Nat) (guard : Guard Name),
      guard.Balanced levels →
      guard.Accounted context names
        (pending + ([super].filterMap Ty.declaredName?).length) →
      OutcomeWithin context names pending (ask super guard))
    {guard : Guard Name} (balanced : guard.Balanced levels)
    (accounted : guard.Accounted context names
      (pending + (elements.filterMap Ty.declaredName?).length)) :
    OutcomeWithin context names pending
      (firstRelated ask elements guard) := by
  induction elements generalizing guard with
  | nil => exact ⟨rfl, accounted⟩
  | cons super elements ih =>
      have split : ((super :: elements).filterMap Ty.declaredName?).length =
          (elements.filterMap Ty.declaredName?).length +
            ([super].filterMap Ty.declaredName?).length := by
        rw [← List.singleton_append, List.filterMap_append,
          List.length_append, Nat.add_comm]
      -- What the later elements may need stays pending while this one is
      -- asked about.
      rw [split, ← Nat.add_assoc] at accounted
      have first := step super List.mem_cons_self _ guard balanced accounted
      rw [firstRelated_cons]
      by_cases answered : (ask super guard).1.holds = true
      · rw [if_pos answered]
        exact ⟨first.found, first.guard.mono (Nat.le_add_right _ _)⟩
      · rw [if_neg answered]
        have rest := ih
          (fun later laterMem => step later (List.mem_cons_of_mem _ laterMem))
          ((extend super guard balanced).balanced balanced) first.guard
        exact ⟨Bool.or_eq_false_iff.mpr ⟨first.found, rest.found⟩,
          rest.guard⟩

private theorem follow_within_of_walk
    (partsWithin : ∀ super, (goal.byParts super).exceeded = false)
    {levels pending : Nat}
    (step : ∀ next ∈ names, ∀ (guard : Guard Name), guard.Balanced levels →
      guard.Accounted context names (pending + 1) →
      OutcomeWithin context names pending
        (walk context goal levels next guard))
    {super : Ty} (confined : ∀ next, super.declaredName? = some next →
      next ∈ names)
    {guard : Guard Name} (balanced : guard.Balanced levels)
    (accounted : guard.Accounted context names
      (pending + ([super].filterMap Ty.declaredName?).length)) :
    OutcomeWithin context names pending
      (follow context goal levels super guard) := by
  unfold follow
  by_cases met : goal.met super = true
  · rw [if_pos met]
    exact ⟨rfl, accounted.mono (Nat.le_add_right _ _)⟩
  · rw [if_neg met]
    cases named : super.declaredName? with
    | some next =>
        simp only [List.filterMap_cons, named, List.filterMap_nil,
          List.length_singleton] at accounted
        exact step next (confined next named) guard balanced accounted
    | none =>
        simp only [List.filterMap_cons, named, List.filterMap_nil,
          List.length_nil] at accounted
        exact ⟨partsWithin super, accounted⟩

/-- A walk among confined names uses one attempt that was pending, and it
never hits a limit. -/
theorem walk_within (confines : context.Confines names)
    (partsWithin : ∀ super, (goal.byParts super).exceeded = false)
    {levels pending : Nat} {name : Name} (nameMem : name ∈ names)
    {guard : Guard Name} (balanced : guard.Balanced levels)
    (accounted : guard.Accounted context names (pending + 1)) :
    OutcomeWithin context names pending
      (walk context goal levels name guard) := by
  induction levels using Nat.strongRecOn
    generalizing pending name guard with
  | ind levels ih =>
      have budget := accounted.not_spent confines
      -- An attempt is left, so the name is recognised or there is room for it.
      by_cases known : name ∈ guard.visited
      · rw [walk_of_visited balanced budget known]
        exact ⟨rfl, accounted.count⟩
      · obtain ⟨lower, rfl, walkEq⟩ := walk_of_fresh balanced budget known
          (accounted.room confines nameMem known)
        rw [walkEq]
        have survey := firstRelated_within follow_extends
          (fun super superMem pending inner innerBalanced innerAccounted =>
            follow_within_of_walk partsWithin
              (fun next nextMem deeper deeperBalanced =>
                ih lower (Nat.lt_succ_self lower) nextMem deeperBalanced)
              (fun next named => confines.closed name nameMem next
                (List.mem_filterMap.mpr ⟨super, superMem, named⟩))
              innerBalanced innerAccounted)
          (balanced.visit name) (accounted.visit nameMem known)
        exact ⟨by simpa using survey.found,
          survey.guard.leaveName (survey_extends balanced)⟩

end Walks

namespace Context

variable {context : Context}

theorem within_congruence :
    Finding.Congruence fun found _ => found.exceeded = false :=
  Finding.congruence_of_after rfl rfl fun firstWithin secondWithin =>
    Bool.or_eq_false_iff.mpr ⟨firstWithin, secondWithin⟩

theorem search_within (accommodates : ∀ name, context.Accommodates name) :
    context.SearchesPaired (fun found _ => found.exceeded = false)
      context := by
  intro goal _ paired name
  obtain ⟨names, nameMem, confines⟩ := (accommodates name).exists_confines
  have accounted :
      (Guard.start context.limits).Accounted context names (0 + 1) :=
    ⟨rfl, List.nodup_nil, by simp [Guard.start], Nat.le_refl 0,
      by simp [Guard.start], rfl⟩
  have walked := walk_within confines paired.byParts nameMem
    (Guard.balanced_start context.limits) accounted
  exact Bool.or_eq_false_iff.mpr ⟨walked.found, walked.guard.within⟩

end Context

/-- No query hits a limit if the limits accommodate every name. -/
theorem Checker.ask_within_limits (checker : Checker)
    (accommodates : ∀ name, checker.context.Accommodates name)
    (source target : Ty) :
    (checker.ask source target).2.exceeded = false :=
  Context.relate_paired Context.within_congruence
    (Context.search_within accommodates) target source

/-- Widgets with a loop, with ancestors shared between branches, and with an
array among the supertypes. -/
def widgetSupers : Name → List Ty
  | "Button" => [.named "Widget"]
  | "Widget" => [.named "Node", .named "Drawable", .array (.named "Button")]
  | "Node" => [.named "Entity"]
  | "Drawable" => [.named "Entity", .generic "Layer" [.named "Node"]]
  | "Entity" => [.named "Widget", .named "Entity"]
  | _ => []

theorem Checker.ask_within_limits_widgets :
    let context : Context := ⟨widgetSupers, ⟨6, 9⟩⟩
    (∀ name, context.Accommodates name) ∧
      (Checker.ask { context } (.named "Button")
        (.array (.named "Nowhere"))).2.exceeded = false := by
  intro context
  have accommodates : ∀ name, context.Accommodates name := by
    intro name
    by_cases declared : name ∈ ({"Button", "Widget", "Node", "Drawable",
        "Entity", "Layer"} : Finset Name)
    · have confines : context.Confines {"Button", "Widget", "Node",
          "Drawable", "Entity", "Layer"} :=
        ⟨by decide, by decide, by decide⟩
      exact confines.accommodates declared
    · -- An unknown name reaches itself only.
      have unknown : context.parents name = [] := by
        simp only [Finset.mem_insert, Finset.mem_singleton] at declared
        unfold Context.parents
        dsimp only [context]
        unfold widgetSupers
        split <;> simp_all
      have confines : context.Confines {name} := by
        refine ⟨?_, ?_, ?_⟩ <;> simp [unknown, context]
      exact confines.accommodates (Finset.mem_singleton_self name)
  exact ⟨accommodates, ask_within_limits _ accommodates _ _⟩

/-- All nine attempts are made. -/
example :
    (Checker.ask { context := ⟨widgetSupers, ⟨6, 8⟩⟩ } (.named "Button")
      (.array (.named "Nowhere"))).2.exceeded = true := by
  decide

end LuaTyping
