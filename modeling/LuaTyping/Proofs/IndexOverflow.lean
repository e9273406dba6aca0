import LuaTyping.Proofs.InstanceNodes

/-!
# Instantiation and the largest slot index

Slot indices have a largest value, and spreading call results counts on from
the index that a slot already carries.  Without a largest index instantiation
would be a total function.  Its results are called ideal here.

Instantiation yields the ideal result unless some tuple of the type overflows:
the ideal result for its last slot is a list of call results that reaches past
the largest index.  Every tuple of the type counts, also one whose result is
dropped later on.  Types that are put in do not count, since nothing is spread
in them.
-/

namespace LuaTyping

theorem forall₂_iff_map {α β : Type} {related : α → β → Prop}
    {allowed : α → Prop} {image : α → β} {firsts : List α} {seconds : List β}
    (each : ∀ first ∈ firsts, ∀ second,
      related first second ↔ allowed first ∧ image first = second) :
    List.Forall₂ related firsts seconds ↔
      (∀ first ∈ firsts, allowed first) ∧ firsts.map image = seconds := by
  induction firsts generalizing seconds with
  | nil => simp [eq_comm]
  | cons first firsts ih =>
      have rest : ∀ {others}, List.Forall₂ related firsts others ↔
          (∀ first ∈ firsts, allowed first) ∧ firsts.map image = others :=
        ih fun later laterMem => each later (List.mem_cons_of_mem _ laterMem)
      rw [List.forall₂_cons_left_iff, List.forall_mem_cons, List.map_cons]
      constructor
      · rintro ⟨second, others, head, tail, rfl⟩
        obtain ⟨firstAllowed, rfl⟩ := (each first (by simp) second).mp head
        obtain ⟨restAllowed, rfl⟩ := rest.mp tail
        exact ⟨⟨firstAllowed, restAllowed⟩, rfl⟩
      · rintro ⟨⟨firstAllowed, restAllowed⟩, rfl⟩
        exact ⟨_, _, (each first (by simp) _).mpr ⟨firstAllowed, rfl⟩,
          rest.mpr ⟨restAllowed, rfl⟩, rfl⟩

/-- One slot for each type, counting on from an index. -/
def numbered (origin : Option Origin) (index : Nat) (types : List Ty) :
    List (Slot Ty) :=
  types.mapIdx fun offset type => ⟨index + offset, type, origin⟩

@[simp]
theorem numbered_cons (origin : Option Origin) (index : Nat) (type : Ty)
    (types : List Ty) :
    numbered origin index (type :: types) =
      ⟨index, type, origin⟩ :: numbered origin (index + 1) types := by
  simp [numbered, Nat.add_assoc, Nat.add_comm 1]

theorem placeResults_eq_ok {origin : Option Origin} {index : Nat}
    {types : List Ty} {placed : List (Slot Ty)} :
    placeResults origin index types = .ok placed ↔
      (0 < types.length → index + (types.length - 1) ≤ Slot.maxIndex) ∧
        numbered origin index types = placed := by
  induction types generalizing index placed with
  | nil => simp [placeResults, numbered]
  | cons type types ih =>
      rw [placeResults, numbered_cons, List.length_cons]
      split
      · rename_i inBounds
        -- The last index is the largest, so it alone has to be compared.
        have bound : (0 < types.length →
            index + 1 + (types.length - 1) ≤ Slot.maxIndex) ↔
            index + types.length ≤ Slot.maxIndex := by
          omega
        rw [bind_pure_eq_ok]
        simp [ih, bound]
      · rename_i tooLarge
        simp
        omega

/-- The slots over which call results in a last slot are spread. -/
def Slot.spread (last : Slot Ty) : List (Slot Ty) :=
  match last.type with
  | .results types => numbered last.origin last.index types
  | .repeating _ => []
  | _ => [last]

/-- Whether call results in a last slot reach past the largest index. -/
def Slot.overflows (last : Slot Ty) : Bool :=
  match last.type with
  | .results types =>
      0 < types.length && Slot.maxIndex < last.index + (types.length - 1)
  | _ => false

/-- Spread call results in the last slot of a tuple, as if there were no
largest index. -/
def spreadFreely : List (Slot Ty) → List (Slot Ty)
  | [] => []
  | [last] => last.spread
  | slot :: next :: slots => slot :: spreadFreely (next :: slots)

@[simp]
theorem spreadFreely_concat (before : List (Slot Ty)) (last : Slot Ty) :
    spreadFreely (before ++ [last]) = before ++ last.spread := by
  induction before with
  | nil => rfl
  | cons slot before ih =>
      cases before with
      | nil => rfl
      | cons next before => exact congrArg (slot :: ·) ih

theorem spreadLast_singleton_eq_ok {last : Slot Ty} {spread : List (Slot Ty)} :
    spreadLast [last] = .ok spread ↔
      last.overflows = false ∧ last.spread = spread := by
  obtain ⟨index, type, origin⟩ := last
  cases type with
  | results types =>
      simp [spreadLast, placeResults_eq_ok, Slot.overflows, Slot.spread]
  | _ => simp [spreadLast, Slot.overflows, Slot.spread]

theorem spreadLast_eq_ok {slots spread : List (Slot Ty)} :
    spreadLast slots = .ok spread ↔
      slots.getLast?.any Slot.overflows = false ∧
        spreadFreely slots = spread := by
  induction slots generalizing spread with
  | nil => simp [spreadLast, spreadFreely]
  | cons slot slots ih =>
      cases slots with
      | nil => simp [spreadLast_singleton_eq_ok, spreadFreely]
      | cons next slots =>
          rw [spreadLast, bind_pure_eq_ok, List.getLast?_cons_cons,
            spreadFreely]
          simp [ih]

namespace Ty

mutual

/-- Replace the type parameters that a substitution binds, as if there were
no largest slot index. -/
def ideal (substitution : Substitution) : Ty → Ty
  | .any => .any
  | .unknown => .unknown
  | .nil => .nil
  | .named name => substitution.atName name
  | .union members => unionOf (idealList substitution members)
  | .tuple slots => .tuple (spreadFreely (idealSlots substitution slots))
  | .array element => .array (ideal substitution element)
  | .generic base arguments =>
      .generic (substitution.atBase base) (idealList substitution arguments)
  | .stringLiteral content => .stringLiteral content
  | .integerLiteral value => .integerLiteral value
  | .tableLiteral origin => .tableLiteral origin
  | .docTable origin => .docTable origin
  | .variadic element => .variadic (ideal substitution element)
  | .expand name => substitution.atExpand name
  | .results types => .results (idealList substitution types)
  | .repeating base => .repeating (ideal substitution base)
termination_by structural type => type

def idealList (substitution : Substitution) : List Ty → List Ty
  | [] => []
  | type :: types => ideal substitution type :: idealList substitution types

def idealSlots (substitution : Substitution) :
    List (Slot Ty) → List (Slot Ty)
  | [] => []
  | ⟨index, type, origin⟩ :: slots =>
      ⟨index, ideal substitution type, origin⟩ :: idealSlots substitution slots

end

end Ty

/-- A slot with the ideal result for its type. -/
def Slot.ideal (substitution : Substitution) (slot : Slot Ty) : Slot Ty :=
  ⟨slot.index, slot.type.ideal substitution, slot.origin⟩

namespace Ty

variable {substitution : Substitution} {type result : Ty}

@[simp]
theorem idealList_eq (types : List Ty) :
    idealList substitution types = types.map (ideal substitution) := by
  induction types with
  | nil => rfl
  | cons type types ih => rw [idealList, ih, List.map_cons]

@[simp]
theorem idealSlots_eq (slots : List (Slot Ty)) :
    idealSlots substitution slots = slots.map (Slot.ideal substitution) := by
  induction slots with
  | nil => rfl
  | cons slot slots ih => rw [idealSlots, ih, List.map_cons, Slot.ideal]

/-- Whether a type is a tuple in which ideal call results reach past the
largest index. -/
def overflows (substitution : Substitution) : Ty → Bool
  | .tuple slots =>
      (slots.map (Slot.ideal substitution)).getLast?.any Slot.overflows
  | _ => false

/-- Whether no tuple inside a type overflows. -/
def Within (substitution : Substitution) (type : Ty) : Prop :=
  ∀ node ∈ type.nodes, node.overflows substitution = false

theorem within_iff :
    type.Within substitution ↔
      type.overflows substitution = false ∧
        ∀ part ∈ type.parts, part.Within substitution :=
  forall_nodes

/-- Instantiation succeeds exactly where no tuple overflows, with the ideal
result. -/
def Determined (substitution : Substitution) (type : Ty) : Prop :=
  ∀ result, type.instantiate substitution = .ok result ↔
    type.Within substitution ∧ type.ideal substitution = result

theorem instantiateList_determined (types : List Ty)
    (each : ∀ type ∈ types, type.Determined substitution)
    (instances : List Ty) :
    instantiateList substitution types = .ok instances ↔
      (∀ type ∈ types, type.Within substitution) ∧
        idealList substitution types = instances := by
  rw [instantiateList_eq_ok, idealList_eq]
  exact forall₂_iff_map each

theorem instantiateSlots_determined {slots : List (Slot Ty)}
    (each : ∀ slot ∈ slots, slot.type.Determined substitution)
    (placed : List (Slot Ty)) :
    instantiateSlots substitution slots = .ok placed ↔
      (∀ slot ∈ slots, slot.type.Within substitution) ∧
        idealSlots substitution slots = placed := by
  rw [instantiateSlots_eq_ok, idealSlots_eq]
  refine forall₂_iff_map fun slot slotMem placed => ⟨?_, ?_⟩
  · rintro ⟨indexEq, originEq, succeeds⟩
    obtain ⟨within, idealEq⟩ := (each slot slotMem _).mp succeeds
    rw [Slot.ideal, idealEq, ← indexEq, ← originEq]
    exact ⟨within, rfl⟩
  · rintro ⟨within, rfl⟩
    exact ⟨rfl, rfl, (each slot slotMem _).mpr ⟨within, rfl⟩⟩

theorem determined (substitution : Substitution) (type : Ty) :
    type.Determined substitution := by
  induction type using Ty.inductionOnParts with
  | step type ih =>
      intro result
      rw [within_iff]
      cases type with
      | union members =>
          rw [instantiate, bind_pure_eq_ok, ideal]
          simp [instantiateList_determined members ih, overflows, parts]
      | tuple slots =>
          -- Spreading looks at the ideal last slot only once every slot has
          -- succeeded, so its check and those of the parts come together.
          have ofSlots := instantiateSlots_determined fun slot slotMem =>
            ih slot.type (List.mem_map_of_mem slotMem)
          rw [instantiate, bind_eq_ok, ideal]
          simp only [bind_pure_eq_ok, spreadLast_eq_ok, ofSlots]
          simp [overflows, parts, and_assoc, and_left_comm]
      | generic base arguments =>
          rw [instantiate, bind_pure_eq_ok, ideal]
          simp [instantiateList_determined arguments ih, overflows, parts]
      | results types =>
          rw [instantiate, bind_pure_eq_ok, ideal]
          simp [instantiateList_determined types ih, overflows, parts]
      | array part | variadic part | repeating part =>
          rw [instantiate, bind_pure_eq_ok, ideal]
          simp [ih part List.mem_cons_self _, overflows, parts]
      | _ => simp [instantiate, ideal, overflows, parts]

theorem Within.instantiate_eq (within : type.Within substitution) :
    type.instantiate substitution = .ok (type.ideal substitution) :=
  (determined substitution type _).mpr ⟨within, rfl⟩

theorem instantiate_eq_ideal
    (within : ¬ ∃ node ∈ type.nodes, node.overflows substitution = true) :
    type.instantiate substitution = .ok (type.ideal substitution) := by
  apply Within.instantiate_eq
  intro node nodeMem
  rw [← Bool.not_eq_true]
  exact fun overflows => within ⟨node, nodeMem, overflows⟩

/-- Instantiation fails exactly if some tuple inside the type overflows, and
is ideal otherwise: call results in a last slot are replaced by one slot for
each of them, counting on from the index of that slot. -/
theorem instantiate_overflows_iff (substitution : Substitution) (type : Ty) :
    ((∃ reason, type.instantiate substitution = .error reason ∧
        reason.message = "attempt to add with overflow") ↔
      ∃ node ∈ type.nodes, node.overflows substitution = true) ∧
    ((¬ ∃ node ∈ type.nodes, node.overflows substitution = true) →
      type.instantiate substitution = .ok (type.ideal substitution)) ∧
    ∀ before last types,
      last.type.ideal substitution = .results types →
        (Ty.tuple (before ++ [last])).ideal substitution =
          .tuple (before.map (Slot.ideal substitution) ++
            numbered last.origin last.index types) := by
  refine ⟨⟨?_, ?_⟩, instantiate_eq_ideal, ?_⟩
  · rintro ⟨reason, fails, _⟩
    by_contra within
    rw [instantiate_eq_ideal within] at fails
    cases fails
  · rintro ⟨node, nodeMem, overflows⟩
    cases outcome : type.instantiate substitution with
    | error reason =>
        cases reason
        exact ⟨.indexOverflow, rfl, rfl⟩
    | ok result =>
        have within := ((determined substitution type result).mp outcome).1
        simp [within node nodeMem] at overflows
  · intro before last types isListed
    simp [ideal, Slot.ideal, Slot.spread, isListed]

/-- The slot with the tuple that overflows would have disappeared. -/
theorem instantiate_overflows_dropped :
    let substitution : Substitution :=
      Table.ofList [("R", .results [.string, .integer])]
    let inner := Ty.tuple [⟨Slot.maxIndex, .named "R", none⟩]
    let type := Ty.tuple [⟨0, .repeating inner, none⟩]
    inner ∈ type.nodes ∧ inner.overflows substitution = true ∧
      type.ideal substitution = .tuple [] ∧
      ∃ reason, type.instantiate substitution = .error reason ∧
        reason.message = "attempt to add with overflow" := by
  intro substitution inner type
  have innerMem : inner ∈ type.nodes := by
    simp [type, nodes]
  have overflows : inner.overflows substitution = true := by decide
  refine ⟨innerMem, overflows, rfl, ?_⟩
  exact (instantiate_overflows_iff substitution type).1.mpr
    ⟨inner, innerMem, overflows⟩

end Ty

end LuaTyping
