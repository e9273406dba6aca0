import LuaTyping.Instantiation
import Mathlib.Data.List.Forall2

/-!
# Results of instantiation

Instantiation can fail, so it is written as a sequence of steps.  Whoever
reasons about a type that it returned wants to know how this type is made up
of the results for the parts, and not in which order they were computed.  This
file says so once: for every kind of type there is one way in which
instantiation succeeds.  Spreading the last slot of a tuple has four, by what
the slot holds.
-/

namespace LuaTyping

section Steps

variable {ε α β : Type} {first : Except ε α} {result : β}

theorem bind_eq_ok {next : α → Except ε β} :
    (first >>= next) = .ok result ↔
      ∃ value, first = .ok value ∧ next value = .ok result := by
  cases first with
  | error reason => simp [bind, Except.bind]
  | ok value => simp [bind, Except.bind]

theorem bind_pure_eq_ok {build : α → β} :
    (first >>= fun value => pure (build value)) = .ok result ↔
      ∃ value, first = .ok value ∧ build value = result := by
  rw [bind_eq_ok]
  simp [pure, Except.pure]

end Steps

theorem types_placeResults {origin : Option Origin} {index : Nat}
    {types : List Ty} {placed : List (Slot Ty)}
    (places : placeResults origin index types = .ok placed) :
    placed.map Slot.type = types := by
  induction types generalizing index placed with
  | nil =>
      obtain rfl : [] = placed := by simpa [placeResults] using places
      rfl
  | cons type types ih =>
      rw [placeResults] at places
      split at places
      · obtain ⟨slots, placesRest, rfl⟩ := bind_pure_eq_ok.mp places
        rw [List.map_cons, ih placesRest]
      · simp at places

/-- What becomes of the slots of a tuple when call results in the last one are
spread. -/
inductive Spreads : List (Slot Ty) → List (Slot Ty) → Prop
  | empty : Spreads [] []
  | kept (slots : List (Slot Ty)) {last : Slot Ty}
      (plain : last.type.callResults? = none) :
      Spreads (slots ++ [last]) (slots ++ [last])
  | listed (slots : List (Slot Ty)) {placed : List (Slot Ty)}
      {last : Slot Ty} {types : List Ty}
      (isListed : last.type = .results types)
      (places : placeResults last.origin last.index types = .ok placed) :
      Spreads (slots ++ [last]) (slots ++ placed)
  | repeating (slots : List (Slot Ty)) {last : Slot Ty} {base : Ty}
      (isRepeating : last.type = .repeating base) :
      Spreads (slots ++ [last]) slots

theorem Spreads.cons {slots spread : List (Slot Ty)}
    (spreads : Spreads slots spread) (nonempty : slots ≠ [])
    (slot : Slot Ty) : Spreads (slot :: slots) (slot :: spread) := by
  cases spreads with
  | empty => exact absurd rfl nonempty
  | kept slots plain => exact .kept (slot :: slots) plain
  | listed slots isListed places =>
      exact .listed (slot :: slots) isListed places
  | repeating _ isRepeating => exact .repeating (slot :: spread) isRepeating

theorem spreads_singleton {slot : Slot Ty} {spread : List (Slot Ty)}
    (spreads : spreadLast [slot] = .ok spread) : Spreads [slot] spread := by
  rw [spreadLast] at spreads
  split at spreads
  · rename_i types isListed
    exact .listed [] isListed spreads
  · rename_i base isRepeating
    obtain rfl : [] = spread := by simpa using spreads
    exact .repeating [] isRepeating
  · rename_i notListed notRepeating
    obtain rfl : [slot] = spread := by simpa using spreads
    have plain : slot.type.callResults? = none := by
      unfold Ty.callResults?
      split
      · rename_i types isListed
        exact absurd isListed (notListed types)
      · rename_i base isRepeating
        exact absurd isRepeating (notRepeating base)
      · rfl
    exact .kept [] plain

theorem spreads_of_spreadLast {slots spread : List (Slot Ty)}
    (spreads : spreadLast slots = .ok spread) : Spreads slots spread := by
  induction slots generalizing spread with
  | nil =>
      obtain rfl : [] = spread := by simpa [spreadLast] using spreads
      exact .empty
  | cons slot slots ih =>
      cases slots with
      | nil => exact spreads_singleton spreads
      | cons next slots =>
          rw [spreadLast] at spreads
          obtain ⟨rest, spreadsRest, rfl⟩ := bind_pure_eq_ok.mp spreads
          exact (ih spreadsRest).cons (List.cons_ne_nil _ _) slot

/-- A last slot without call results stays. -/
theorem spreadLast_of_plain (slots : List (Slot Ty)) {last : Slot Ty}
    (plain : last.type.callResults? = none) :
    spreadLast (slots ++ [last]) = .ok (slots ++ [last]) := by
  induction slots with
  | nil =>
      rw [List.nil_append, spreadLast]
      split
      · rename_i types isListed
        simp [isListed, Ty.callResults?] at plain
      · rename_i base isRepeating
        simp [isRepeating, Ty.callResults?] at plain
      · rfl
  | cons slot slots ih =>
      have nonempty : slots ++ [last] ≠ [] := by simp
      obtain ⟨next, rest, split⟩ := List.exists_cons_of_ne_nil nonempty
      rw [List.cons_append, split, spreadLast, ← split, ih]
      rfl

/-- A slot whose type was instantiated in place. -/
structure Slot.Instantiates (substitution : Substitution)
    (slot placed : Slot Ty) : Prop where
  index : placed.index = slot.index
  origin : placed.origin = slot.origin
  type : slot.type.instantiate substitution = .ok placed.type

namespace Ty

variable {substitution : Substitution}

/-- Instantiation of a type succeeds with a result. -/
abbrev InstantiatesTo (substitution : Substitution) (type result : Ty) :
    Prop :=
  type.instantiate substitution = .ok result

theorem instantiateList_eq_ok {types instances : List Ty} :
    instantiateList substitution types = .ok instances ↔
      List.Forall₂ (InstantiatesTo substitution) types instances := by
  induction types generalizing instances with
  | nil => simp [instantiateList, eq_comm]
  | cons type types ih =>
      rw [instantiateList, bind_eq_ok, List.forall₂_cons_left_iff]
      constructor
      · rintro ⟨first, ofType, rest⟩
        obtain ⟨others, ofTypes, rfl⟩ := bind_pure_eq_ok.mp rest
        exact ⟨first, others, ofType, ih.mp ofTypes, rfl⟩
      · rintro ⟨first, others, ofType, ofTypes, rfl⟩
        exact ⟨first, ofType,
          bind_pure_eq_ok.mpr ⟨others, ih.mpr ofTypes, rfl⟩⟩

theorem instantiateSlots_eq_ok {slots placed : List (Slot Ty)} :
    instantiateSlots substitution slots = .ok placed ↔
      List.Forall₂ (Slot.Instantiates substitution) slots placed := by
  induction slots generalizing placed with
  | nil => simp [instantiateSlots, eq_comm]
  | cons slot slots ih =>
      obtain ⟨index, type, origin⟩ := slot
      rw [instantiateSlots, bind_eq_ok, List.forall₂_cons_left_iff]
      constructor
      · rintro ⟨first, ofType, rest⟩
        obtain ⟨others, ofSlots, rfl⟩ := bind_pure_eq_ok.mp rest
        exact ⟨⟨index, first, origin⟩, others, ⟨rfl, rfl, ofType⟩,
          ih.mp ofSlots, rfl⟩
      · rintro ⟨⟨_, first, _⟩, others, ⟨rfl, rfl, ofType⟩, ofSlots, rfl⟩
        exact ⟨first, ofType,
          bind_pure_eq_ok.mpr ⟨others, ih.mpr ofSlots, rfl⟩⟩

/-- How the result of instantiating a type is made up of the results for its
parts. -/
inductive Instantiated (substitution : Substitution) : Ty → Ty → Prop
  | any : Instantiated substitution .any .any
  | unknown : Instantiated substitution .unknown .unknown
  | nil : Instantiated substitution .nil .nil
  | named (name : Name) :
      Instantiated substitution (.named name) (substitution.atName name)
  | union {members instances : List Ty}
      (ofMembers :
        List.Forall₂ (InstantiatesTo substitution) members instances) :
      Instantiated substitution (.union members) (unionOf instances)
  | tuple {slots placed spread : List (Slot Ty)}
      (ofSlots : List.Forall₂ (Slot.Instantiates substitution) slots placed)
      (spreads : spreadLast placed = .ok spread) :
      Instantiated substitution (.tuple slots) (.tuple spread)
  | array {element result : Ty}
      (ofElement : element.instantiate substitution = .ok result) :
      Instantiated substitution (.array element) (.array result)
  | generic (base : Name) {arguments instances : List Ty}
      (ofArguments :
        List.Forall₂ (InstantiatesTo substitution) arguments instances) :
      Instantiated substitution (.generic base arguments)
        (.generic (substitution.atBase base) instances)
  | stringLiteral (content : String) :
      Instantiated substitution (.stringLiteral content)
        (.stringLiteral content)
  | integerLiteral (value : Int64) :
      Instantiated substitution (.integerLiteral value) (.integerLiteral value)
  | tableLiteral (origin : Origin) :
      Instantiated substitution (.tableLiteral origin) (.tableLiteral origin)
  | docTable (origin : Origin) :
      Instantiated substitution (.docTable origin) (.docTable origin)
  | variadic {element result : Ty}
      (ofElement : element.instantiate substitution = .ok result) :
      Instantiated substitution (.variadic element) (.variadic result)
  | expand (name : Name) :
      Instantiated substitution (.expand name) (substitution.atExpand name)
  | results {types instances : List Ty}
      (ofTypes : List.Forall₂ (InstantiatesTo substitution) types instances) :
      Instantiated substitution (.results types) (.results instances)
  | repeating {base result : Ty}
      (ofBase : base.instantiate substitution = .ok result) :
      Instantiated substitution (.repeating base) (.repeating result)

theorem instantiated_of_eq_ok {type result : Ty}
    (succeeds : type.instantiate substitution = .ok result) :
    Instantiated substitution type result := by
  cases type with
  | union members =>
      obtain ⟨instances, ofMembers, rfl⟩ := bind_pure_eq_ok.mp succeeds
      exact .union (instantiateList_eq_ok.mp ofMembers)
  | tuple slots =>
      obtain ⟨placed, ofSlots, rest⟩ := bind_eq_ok.mp succeeds
      obtain ⟨spread, spreads, rfl⟩ := bind_pure_eq_ok.mp rest
      exact .tuple (instantiateSlots_eq_ok.mp ofSlots) spreads
  | array element =>
      obtain ⟨instanceOf, ofElement, rfl⟩ := bind_pure_eq_ok.mp succeeds
      exact .array ofElement
  | generic base arguments =>
      obtain ⟨instances, ofArguments, rfl⟩ := bind_pure_eq_ok.mp succeeds
      exact .generic base (instantiateList_eq_ok.mp ofArguments)
  | variadic element =>
      obtain ⟨instanceOf, ofElement, rfl⟩ := bind_pure_eq_ok.mp succeeds
      exact .variadic ofElement
  | results types =>
      obtain ⟨instances, ofTypes, rfl⟩ := bind_pure_eq_ok.mp succeeds
      exact .results (instantiateList_eq_ok.mp ofTypes)
  | repeating base =>
      obtain ⟨instanceOf, ofBase, rfl⟩ := bind_pure_eq_ok.mp succeeds
      exact .repeating ofBase
  | _ =>
      obtain rfl := Except.ok.inj succeeds
      constructor

theorem Instantiated.eq_ok {type result : Ty}
    (instantiated : Instantiated substitution type result) :
    type.instantiate substitution = .ok result := by
  cases instantiated with
  | union ofMembers =>
      exact bind_pure_eq_ok.mpr
        ⟨_, instantiateList_eq_ok.mpr ofMembers, rfl⟩
  | tuple ofSlots spreads =>
      exact bind_eq_ok.mpr ⟨_, instantiateSlots_eq_ok.mpr ofSlots,
        bind_pure_eq_ok.mpr ⟨_, spreads, rfl⟩⟩
  | generic base ofArguments =>
      exact bind_pure_eq_ok.mpr
        ⟨_, instantiateList_eq_ok.mpr ofArguments, rfl⟩
  | results ofTypes =>
      exact bind_pure_eq_ok.mpr ⟨_, instantiateList_eq_ok.mpr ofTypes, rfl⟩
  | array ofPart | variadic ofPart | repeating ofPart =>
      exact bind_pure_eq_ok.mpr ⟨_, ofPart, rfl⟩
  | _ => rfl

end Ty

end LuaTyping
