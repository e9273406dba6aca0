import LuaTyping.Proofs.TypeEquality
import LuaTyping.Subtyping.Walk

/-!
# The subtype relation

The rules of subtyping, stated without limits and without an order in which
they are tried.  The relation is the least one that they admit, so a type that
is its own ancestor gains nothing from the loop.

Two consequences matter to whoever searches for a derivation.  Against a fixed
target that is not a top type, a derivation only climbs from declared name to
declared name until it meets a supertype that is related directly.  And
derivations compose, as long as the last target mentions no generic: a plain
name stands for all its generics, which would otherwise be identified.
-/

namespace LuaTyping

/-- The rules that a subtype relation obeys under given declarations. -/
structure SubtypeRules (supers : Name → List Ty) (below : Ty → Ty → Prop) :
    Prop where
  top {source target : Ty} : target.isTop = true → below source target
  same {source target : Ty} : source.same target = true → below source target
  sharedName {source target : Ty} :
    source.sharesName target = true → below source target
  declared {source super target : Ty} {name : Name} :
    source.declaredName? = some name → super ∈ supers name →
      below super target → below source target
  union {members targets : List Ty} :
    (∀ member ∈ members, ∃ target ∈ targets, below member target) →
      below (.union members) (.union targets)
  tuple {slots targets : List (Slot Ty)} :
    slots.length = targets.length →
      (∀ pair ∈ slots.zip targets, below pair.1.type pair.2.type) →
      below (.tuple slots) (.tuple targets)
  array {element target : Ty} :
    below element target → below (.array element) (.array target)

/-- The least relation that obeys the rules of subtyping, as
`SubtypeOf.rules` and `SubtypeOf.least` say.  Which target member a source
member of a union goes to is given by a function. -/
inductive SubtypeOf (supers : Name → List Ty) : Ty → Ty → Prop
  | top {source target : Ty} (isTop : target.isTop = true) :
      SubtypeOf supers source target
  | same {source target : Ty} (isSame : source.same target = true) :
      SubtypeOf supers source target
  | sharedName {source target : Ty}
      (shared : source.sharesName target = true) :
      SubtypeOf supers source target
  | declared {source super target : Ty} {name : Name}
      (named : source.declaredName? = some name)
      (superMem : super ∈ supers name)
      (superBelow : SubtypeOf supers super target) :
      SubtypeOf supers source target
  | union {members targets : List Ty} (choose : Ty → Ty)
      (chosen : ∀ member ∈ members, choose member ∈ targets)
      (below : ∀ member ∈ members, SubtypeOf supers member (choose member)) :
      SubtypeOf supers (.union members) (.union targets)
  | tuple {slots targets : List (Slot Ty)}
      (lengthEq : slots.length = targets.length)
      (below : ∀ pair ∈ slots.zip targets,
        SubtypeOf supers pair.1.type pair.2.type) :
      SubtypeOf supers (.tuple slots) (.tuple targets)
  | array {element target : Ty} (below : SubtypeOf supers element target) :
      SubtypeOf supers (.array element) (.array target)

namespace SubtypeOf

variable {supers : Name → List Ty} {source target : Ty}

theorem of_members {members targets : List Ty}
    (below : ∀ member ∈ members, ∃ target ∈ targets,
      SubtypeOf supers member target) :
    SubtypeOf supers (.union members) (.union targets) := by
  classical
  -- A member that is not in the list may go anywhere.
  have choice : ∀ member, ∃ target, member ∈ members →
      target ∈ targets ∧ SubtypeOf supers member target := by
    intro member
    by_cases memberMem : member ∈ members
    · obtain ⟨target, targetMem, memberBelow⟩ := below member memberMem
      exact ⟨target, fun _ => ⟨targetMem, memberBelow⟩⟩
    · exact ⟨member, fun isMem => absurd isMem memberMem⟩
  choose choose chosen using choice
  exact .union choose (fun member memberMem => (chosen member memberMem).1)
    (fun member memberMem => (chosen member memberMem).2)

theorem rules (supers : Name → List Ty) :
    SubtypeRules supers (SubtypeOf supers) where
  top := .top
  same := .same
  sharedName := .sharedName
  declared := .declared
  union := of_members
  tuple := .tuple
  array := .array

/-- Whatever obeys the rules of subtyping holds wherever the relation does. -/
theorem least {below : Ty → Ty → Prop} (obeys : SubtypeRules supers below)
    (derivation : SubtypeOf supers source target) : below source target := by
  induction derivation with
  | top isTop => exact obeys.top isTop
  | same isSame => exact obeys.same isSame
  | sharedName shared => exact obeys.sharedName shared
  | declared named superMem _ ih => exact obeys.declared named superMem ih
  | union choose chosen _ ih =>
      refine obeys.union fun member memberMem => ?_
      exact ⟨choose member, chosen member memberMem, ih member memberMem⟩
  | tuple lengthEq _ ih => exact obeys.tuple lengthEq ih
  | array _ ih => exact obeys.array ih

/-- Two types without declared names, compared by their parts. -/
def Parts (supers : Name → List Ty) : Ty → Ty → Prop
  | .union members, .union targets =>
      ∀ member ∈ members, ∃ target ∈ targets, SubtypeOf supers member target
  | .tuple slots, .tuple targets =>
      slots.length = targets.length ∧
        ∀ pair ∈ slots.zip targets, SubtypeOf supers pair.1.type pair.2.type
  | .array element, .array target => SubtypeOf supers element target
  | _, _ => False

theorem of_parts (parts : Parts supers source target) :
    SubtypeOf supers source target := by
  unfold Parts at parts
  split at parts
  · exact of_members parts
  · exact .tuple parts.1 parts.2
  · exact .array parts
  · exact parts.elim

theorem declaredName?_of_parts (parts : Parts supers source target) :
    source.declaredName? = none := by
  unfold Parts at parts
  split at parts
  · rfl
  · rfl
  · rfl
  · exact parts.elim

/-- The ways in which a type can be below another one without looking at
declared supertypes, leaving aside the top types. -/
def Direct (supers : Name → List Ty) (source target : Ty) : Prop :=
  source.same target = true ∨ source.sharesName target = true ∨
    Parts supers source target

theorem of_direct (direct : Direct supers source target) :
    SubtypeOf supers source target := by
  rcases direct with isSame | shared | parts
  · exact .same isSame
  · exact .sharedName shared
  · exact of_parts parts

end SubtypeOf

/-- Some supertype that is reached from a name, climbing from declared name to
declared name, is of the kind looked for. -/
inductive Climbs (supers : Name → List Ty) (sought : Ty → Prop) : Name → Prop
  | here {name : Name} {super : Ty} (superMem : super ∈ supers name)
      (found : sought super) : Climbs supers sought name
  | further {name next : Name} {super : Ty} (superMem : super ∈ supers name)
      (named : super.declaredName? = some next)
      (climbs : Climbs supers sought next) : Climbs supers sought name

namespace SubtypeOf

variable {supers : Name → List Ty} {source target : Ty}

theorem of_climbs {name : Name} (named : source.declaredName? = some name)
    (climbs : Climbs supers (fun super => Direct supers super target) name) :
    SubtypeOf supers source target := by
  induction climbs generalizing source with
  | here superMem found => exact .declared named superMem (of_direct found)
  | further superMem nextNamed _ ih =>
      exact .declared named superMem (ih nextNamed)

/-- A derivation against a target that is not a top type is direct, or climbs
to a supertype for which it is. -/
theorem direct_or_climbs (derivation : SubtypeOf supers source target)
    (notTop : target.isTop = false) :
    Direct supers source target ∨
      ∃ name, source.declaredName? = some name ∧
        Climbs supers (fun super => Direct supers super target) name := by
  induction derivation with
  | top isTop => simp [notTop] at isTop
  | same isSame => exact .inl (.inl isSame)
  | sharedName shared => exact .inl (.inr (.inl shared))
  | declared named superMem _ ih =>
      refine .inr ⟨_, named, ?_⟩
      rcases ih notTop with direct | ⟨next, nextNamed, climbs⟩
      · exact .here superMem direct
      · exact .further superMem nextNamed climbs
  | union choose chosen below _ =>
      refine .inl (.inr (.inr fun member memberMem => ?_))
      exact ⟨choose member, chosen member memberMem, below member memberMem⟩
  | tuple lengthEq below _ => exact .inl (.inr (.inr ⟨lengthEq, below⟩))
  | array below _ => exact .inl (.inr (.inr below))

end SubtypeOf

namespace Ty

mutual

/-- Whether a type mentions a generic, at any depth. -/
def hasGeneric : Ty → Bool
  | .generic _ _ => true
  | .union members => anyHasGeneric members
  | .tuple slots => anySlotHasGeneric slots
  | .array element => element.hasGeneric
  | .variadic element => element.hasGeneric
  | .results types => anyHasGeneric types
  | .repeating base => base.hasGeneric
  | _ => false

/-- Whether some type of a list mentions a generic. -/
def anyHasGeneric : List Ty → Bool
  | [] => false
  | type :: types => type.hasGeneric || anyHasGeneric types

/-- Whether some slot of a list mentions a generic. -/
def anySlotHasGeneric : List (Slot Ty) → Bool
  | [] => false
  | ⟨_, type, _⟩ :: slots => type.hasGeneric || anySlotHasGeneric slots

end

theorem hasGeneric_of_mem {types : List Ty} {type : Ty}
    (plain : anyHasGeneric types = false) (typeMem : type ∈ types) :
    type.hasGeneric = false := by
  induction types with
  | nil => simp at typeMem
  | cons first types ih =>
      simp only [anyHasGeneric, Bool.or_eq_false_iff] at plain
      rcases List.mem_cons.mp typeMem with rfl | later
      · exact plain.1
      · exact ih plain.2 later

theorem hasGeneric_of_mem_slots {slots : List (Slot Ty)} {slot : Slot Ty}
    (plain : anySlotHasGeneric slots = false) (slotMem : slot ∈ slots) :
    slot.type.hasGeneric = false := by
  induction slots with
  | nil => simp at slotMem
  | cons first slots ih =>
      simp only [anySlotHasGeneric, Bool.or_eq_false_iff] at plain
      rcases List.mem_cons.mp slotMem with rfl | later
      · exact plain.1
      · exact ih plain.2 later

theorem sharesName_of_same {first second third : Ty}
    (same : first.same second = true) :
    first.sharesName third = second.sharesName third := by
  cases same_iff_alike.mp same with
  | generic arguments => cases third <;> rfl
  | _ => rfl

/-- Sharing a name means that one side is a plain name and the other side a
generic over it. -/
theorem eq_of_sharesName {first second : Ty}
    (shared : first.sharesName second = true) :
    ∃ name arguments,
      (first = .named name ∧ second = .generic name arguments) ∨
        (first = .generic name arguments ∧ second = .named name) := by
  unfold sharesName at shared
  split at shared
  · exact ⟨_, _, .inl ⟨rfl, by rw [beq_iff_eq.mp shared]⟩⟩
  · exact ⟨_, _, .inr ⟨rfl, by rw [beq_iff_eq.mp shared]⟩⟩
  · exact absurd shared Bool.false_ne_true

end Ty

namespace SubtypeOf

variable {supers : Name → List Ty} {source middle target : Ty}

theorem isTop_of_isTop (derivation : SubtypeOf supers source target)
    (sourceTop : source.isTop = true) : target.isTop = true := by
  cases derivation with
  | top targetTop => exact targetTop
  | same isSame =>
      cases Ty.same_iff_alike.mp isSame <;> exact sourceTop
  | sharedName shared =>
      obtain ⟨name, arguments, ⟨rfl, rfl⟩ | ⟨rfl, rfl⟩⟩ :=
        Ty.eq_of_sharesName shared <;> exact sourceTop
  | declared named superMem superBelow =>
      cases source <;> simp_all [Ty.isTop, Ty.declaredName?]
  | union | tuple | array => exact sourceTop

theorem of_union {members : List Ty}
    (derivation : SubtypeOf supers (.union members) target) :
    target.isTop = true ∨ ∃ targets, target = .union targets ∧
      ∀ member ∈ members, ∃ target ∈ targets,
        SubtypeOf supers member target := by
  cases derivation with
  | top isTop => exact .inl isTop
  | same isSame =>
      cases Ty.same_iff_alike.mp isSame with
      | union lengthEq included =>
          refine .inr ⟨_, rfl, fun member memberMem => ?_⟩
          obtain ⟨target, targetMem, memberSame⟩ := included member memberMem
          exact ⟨target, targetMem, .same memberSame⟩
  | sharedName shared => simp [Ty.sharesName] at shared
  | declared named => simp [Ty.declaredName?] at named
  | union choose chosen below =>
      refine .inr ⟨_, rfl, fun member memberMem => ?_⟩
      exact ⟨choose member, chosen member memberMem, below member memberMem⟩

theorem of_tuple {slots : List (Slot Ty)}
    (derivation : SubtypeOf supers (.tuple slots) target) :
    target.isTop = true ∨ ∃ targets, target = .tuple targets ∧
      List.Forall₂ (fun slot target =>
        SubtypeOf supers slot.type target.type) slots targets := by
  cases derivation with
  | top isTop => exact .inl isTop
  | same isSame =>
      cases Ty.same_iff_alike.mp isSame with
      | tuple slots => exact .inr ⟨_, rfl, slots.imp fun _ _ => .same⟩
  | sharedName shared => simp [Ty.sharesName] at shared
  | declared named => simp [Ty.declaredName?] at named
  | tuple lengthEq below =>
      refine .inr ⟨_, rfl, List.forall₂_iff_zip.mpr ⟨lengthEq, ?_⟩⟩
      exact fun pairMem => below _ pairMem

theorem of_array {element : Ty}
    (derivation : SubtypeOf supers (.array element) target) :
    target.isTop = true ∨ ∃ targetElement, target = .array targetElement ∧
      SubtypeOf supers element targetElement := by
  cases derivation with
  | top isTop => exact .inl isTop
  | same isSame =>
      cases Ty.same_iff_alike.mp isSame with
      | array elementSame => exact .inr ⟨_, rfl, .same elementSame⟩
  | sharedName shared => simp [Ty.sharesName] at shared
  | declared named => simp [Ty.declaredName?] at named
  | array below => exact .inr ⟨_, rfl, below⟩

theorem of_slots {slots targets : List (Slot Ty)}
    (below : List.Forall₂ (fun slot target =>
      SubtypeOf supers slot.type target.type) slots targets) :
    SubtypeOf supers (.tuple slots) (.tuple targets) :=
  .tuple below.length_eq fun _ pairMem => List.forall₂_zip below pairMem

theorem of_same_of_subtypeOf (isSame : source.same middle = true)
    (derivation : SubtypeOf supers middle target) :
    SubtypeOf supers source target := by
  induction derivation generalizing source with
  | top isTop => exact .top isTop
  | same middleSame => exact .same (Ty.same_trans isSame middleSame)
  | sharedName shared =>
      exact .sharedName ((Ty.sharesName_of_same isSame).trans shared)
  | declared named superMem superBelow _ =>
      exact .declared ((Ty.declaredName?_of_same isSame).trans named) superMem
        superBelow
  | union choose chosen _ ih =>
      cases Ty.same_iff_alike.mp isSame with
      | union lengthEq included =>
          refine of_members fun member memberMem => ?_
          obtain ⟨second, secondMem, memberSame⟩ := included member memberMem
          exact ⟨choose second, chosen second secondMem,
            ih second secondMem memberSame⟩
  | tuple lengthEq _ ih =>
      cases Ty.same_iff_alike.mp isSame with
      | tuple slots =>
          have onward := List.forall₂_iff_zip.mpr
            ⟨lengthEq, fun {_ _} pairMem => @ih _ pairMem⟩
          refine of_slots (forall₂_compose ?_ slots onward)
          intro slot slotMem second third thirdMem slotSame climb
          exact climb slotSame
  | array _ ih =>
      cases Ty.same_iff_alike.mp isSame with
      | array elementSame => exact .array (ih elementSame)

/-- A plain name stands for its generics, and conversely, below every target
that is not itself a generic. -/
theorem of_sharesName_of_subtypeOf (shared : source.sharesName middle = true)
    (derivation : SubtypeOf supers middle target)
    (plain : target.hasGeneric = false) :
    SubtypeOf supers source target := by
  obtain ⟨name, arguments, ⟨rfl, rfl⟩ | ⟨rfl, rfl⟩⟩ :=
    Ty.eq_of_sharesName shared
  · cases derivation with
    | top isTop => exact .top isTop
    | same isSame =>
        cases Ty.same_iff_alike.mp isSame
        simp [Ty.hasGeneric] at plain
    | sharedName targetShared =>
        obtain ⟨_, _, ⟨isNamed, _⟩ | ⟨isGeneric, rfl⟩⟩ :=
          Ty.eq_of_sharesName targetShared
        · simp at isNamed
        · simp only [Ty.generic.injEq] at isGeneric
          exact .same (by rw [isGeneric.1]; exact Ty.same_refl _)
    | declared named superMem superBelow =>
        exact .declared named superMem superBelow
  · cases derivation with
    | top isTop => exact .top isTop
    | same isSame =>
        cases Ty.same_iff_alike.mp isSame
        exact .sharedName shared
    | sharedName targetShared =>
        obtain ⟨_, _, ⟨_, rfl⟩ | ⟨isGeneric, _⟩⟩ :=
          Ty.eq_of_sharesName targetShared
        · simp [Ty.hasGeneric] at plain
        · simp at isGeneric
    | declared named superMem superBelow =>
        exact .declared named superMem superBelow

/-- Derivations compose if the last target mentions no generic. -/
theorem trans (first : SubtypeOf supers source middle)
    (second : SubtypeOf supers middle target)
    (plain : target.hasGeneric = false) : SubtypeOf supers source target := by
  induction first generalizing target with
  | top isTop => exact .top (isTop_of_isTop second isTop)
  | same isSame => exact of_same_of_subtypeOf isSame second
  | sharedName shared =>
      exact of_sharesName_of_subtypeOf shared second plain
  | declared named superMem _ ih =>
      exact .declared named superMem (ih second plain)
  | union choose chosen _ ih =>
      rcases of_union second with isTop | ⟨targets, rfl, below⟩
      · exact .top isTop
      · refine of_members fun member memberMem => ?_
        obtain ⟨target, targetMem, middleBelow⟩ :=
          below (choose member) (chosen member memberMem)
        exact ⟨target, targetMem, ih member memberMem middleBelow
          (Ty.hasGeneric_of_mem plain targetMem)⟩
  | tuple lengthEq _ ih =>
      rcases of_tuple second with isTop | ⟨targets, rfl, below⟩
      · exact .top isTop
      · have onward := List.forall₂_iff_zip.mpr
          ⟨lengthEq, fun {_ _} pairMem => @ih _ pairMem⟩
        refine of_slots (forall₂_compose ?_ onward below)
        intro slot slotMem second third thirdMem climb secondBelow
        exact climb secondBelow (Ty.hasGeneric_of_mem_slots plain thirdMem)
  | array _ ih =>
      rcases of_array second with isTop | ⟨targetElement, rfl, below⟩
      · exact .top isTop
      · exact .array (ih below plain)

end SubtypeOf

end LuaTyping
