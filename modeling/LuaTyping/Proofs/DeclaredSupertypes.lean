import LuaTyping.Config.Json
import LuaTyping.Proofs.QueryRuns
import LuaTyping.Proofs.TypeNodes
import LuaTyping.Store

/-!
# Declared supertypes

A search that hits a limit may miss a supertype further up.  It never misses
one that is declared for the source itself.  The guard admits the first name
of a search unless one of its limits is zero, and then every declared
supertype is compared with the target before the guard is asked about it.
Whatever the search has done at the siblings before, it goes on to the next
one: it may have used up all attempts, and it may have visited any names.

So the guarantee depends on the limits being positive.  The validation of a
configuration ensures that, no matter how its text was decoded, and the search
profile of the configuration passes the limits on.
-/

namespace LuaTyping

theorem firstRelated_holds_of_mem {α : Type}
    {ask : α → Guard Name → Finding × Guard Name} {element : α}
    {elements : List α} (elementMem : element ∈ elements)
    (related : ∀ guard, (ask element guard).1.holds = true)
    (guard : Guard Name) :
    (firstRelated ask elements guard).1.holds = true := by
  induction elements generalizing guard with
  | nil => exact absurd elementMem List.not_mem_nil
  | cons first elements ih =>
      rw [firstRelated_cons]
      split
      · assumption
      · rename_i fails
        rcases List.mem_cons.mp elementMem with rfl | later
        · exact absurd (related guard) fails
        · exact ih later (ask first guard).2

section Declared

variable {context : Context}
  (depthPos : 0 < context.limits.maxDepth.toNat)
  (budgetPos : 0 < context.limits.maxIterations.toNat)

include depthPos budgetPos

theorem search_holds_of_declared {goal : Goal} {name : Name} {super : Ty}
    (declared : super ∈ context.supers name) (met : goal.met super = true) :
    (search context goal name).holds = true := by
  obtain ⟨lower, _, walkEq⟩ : ∃ lower, _ ∧ walk context goal _ name _ = _ :=
    walk_of_fresh (Guard.balanced_start context.limits)
      (Guard.not_spent_start budgetPos) List.not_mem_nil depthPos
  have related : ∀ guard, (follow context goal lower super guard).1.holds =
      true := by
    intro guard
    rw [follow, if_pos met]
    rfl
  rw [search_eq, walkEq]
  dsimp only
  rw [leaveName_holds]
  exact firstRelated_holds_of_mem declared related _

/-- A type is below its declared supertypes, as long as neither limit is
zero. -/
theorem Context.isSubtype_of_declared {source target super : Ty} {name : Name}
    (named : source.declaredName? = some name)
    (declared : super ∈ context.supers name)
    (same : super.same target = true) :
    context.isSubtype source target = true := by
  unfold isSubtype check
  by_cases isTop : target.isTop = true
  · rw [relate_of_top isTop]
    rfl
  · by_cases agrees : source.agrees target = true
    · rw [relate_of_agrees agrees]
      rfl
    · rw [relate_of_named (Bool.eq_false_iff.mpr isTop)
        (Bool.eq_false_iff.mpr agrees) named]
      apply search_holds_of_declared depthPos budgetPos declared
      rw [goal_met, Ty.agrees, same, Bool.true_or]

end Declared

namespace Config

theorem defect?_of_ofText {decode : String → Except Json.Fault Config}
    {text : String} {config : Config}
    (accepted : ofText decode text = .ok config) : config.defect? = none := by
  unfold ofText at accepted
  split at accepted
  · contradiction
  · split at accepted
    · contradiction
    · rename_i sound
      injection accepted with configEq
      rw [← configEq]
      exact sound

/-- The profile of a valid configuration allows a search to enter a name. -/
theorem searchProfile_limits_pos {config : Config}
    (sound : config.defect? = none) :
    0 < config.searchProfile.limits.maxDepth.toNat ∧
      0 < config.searchProfile.limits.maxIterations.toNat := by
  rw [limits_searchProfile]
  unfold defect? at sound
  split at sound
  · contradiction
  · split at sound
    · contradiction
    · rename_i depthNe
      split at sound
      · contradiction
      · rename_i budgetNe
        exact ⟨UInt32.pos_iff_ne_zero.mpr depthNe,
          UInt32.pos_iff_ne_zero.mpr budgetNe⟩

/-- Under the search profile of every configuration that is accepted, by
whatever decoder its text is read, a declared name is below each of its
declared supertypes, however that is spelled, and so is every generic over the
name.  It does not matter what else is declared. -/
theorem isSubtype_declared_super
    (decode : String → Except Json.Fault Config) {text : String}
    {config : Config} (accepted : ofText decode text = .ok config)
    (store : Store) {name : Name} {definition : Definition}
    (known : store.get? name = some definition) {super target : Ty}
    (declared : super ∈ definition.supers)
    (superFormed : super.WellFormed) (targetFormed : target.WellFormed)
    (same : target.same super = true) :
    let context := store.context config.searchProfile.limits
    context.isSubtype (.named name) target = true ∧
      ∀ arguments, context.isSubtype (.generic name arguments) target =
        true := by
  intro context
  have sound := defect?_of_ofText accepted
  obtain ⟨depthPos, budgetPos⟩ := searchProfile_limits_pos sound
  have listed : super ∈ context.supers name := by
    change super ∈ store.supers name
    rw [Store.supers, known]
    exact declared
  have sameSuper : super.same target = true :=
    Ty.same_symm targetFormed superFormed same
  exact ⟨Context.isSubtype_of_declared depthPos budgetPos rfl listed sameSuper,
    fun arguments => Context.isSubtype_of_declared depthPos budgetPos rfl
      listed sameSuper⟩

/-- A configuration that allows each walk a single attempt. -/
def singleAttempt : String :=
  "\x7b\"supertypeSearch\":\x7b\"maxDepth\":1,\"maxIterations\":1\x7d\x7d"

/-- The only attempt goes to the cat itself.  The supertype that decides comes
last, after a loop of declarations has been given up. -/
theorem isSubtype_declared_super_last :
    let super := Ty.unionOf [.named "Pet", .nil]
    let target := Ty.unionOf [.nil, .named "Pet", .nil]
    let cat : Definition :=
      { name := "Cat", supers := [.named "Animal", .named "Cat", super] }
    let animal : Definition := { name := "Animal", supers := [.named "Cat"] }
    let store := (Store.empty.register cat).register animal
    let config : Config := { standard with supertypeSearch := ⟨1, 1⟩ }
    let context := store.context config.searchProfile.limits
    ofText decode singleAttempt = .ok config ∧
      config.searchProfile = .custom 1 1 ∧
      (Checker.ask { context } (.named "Cat") target).2.exceeded = true ∧
      context.isSubtype (.named "Cat") target = true ∧
      context.isSubtype (.generic "Cat" [.string]) target = true := by
  have accepted : ofText decode singleAttempt =
      .ok { standard with supertypeSearch := ⟨1, 1⟩ } := by
    rfl
  intro super target cat animal store config context
  have found := isSubtype_declared_super decode accepted store
    (show store.get? "Cat" = some cat from rfl)
    (show super ∈ cat.supers by simp [cat]) (by decide) (by decide)
    (show target.same super = true by decide)
  exact ⟨accepted, rfl, by decide, found.1, found.2 [.string]⟩

/-- Without an attempt or without a level there is no search. -/
example :
    let supers : Name → List Ty := fun
      | "Cat" => [.named "Pet"]
      | _ => []
    Context.isSubtype ⟨supers, ⟨0, 9⟩⟩ (.named "Cat") (.named "Pet") = false ∧
      Context.isSubtype ⟨supers, ⟨9, 0⟩⟩ (.named "Cat") (.named "Pet") =
        false := by
  decide

end Config

end LuaTyping
