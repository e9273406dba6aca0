import LuaTyping.Proofs.TypeEquality
import Mathlib.Data.List.Flatten

/-!
# The nodes of a type

A type is a finite tree of types.  Its nodes are the type itself and all types
inside it, each as often as it occurs.  What a type contains at any depth is
said of its nodes: which identifiers occur in it, how many of its nodes are
call results, and whether every union in it has its members merged, which
makes well-formedness decidable.
-/

namespace LuaTyping

namespace Ty

/-- The types of which a type is immediately made up. -/
def parts : Ty → List Ty
  | .union members => members
  | .tuple slots => slots.map Slot.type
  | .array element => [element]
  | .generic _ arguments => arguments
  | .variadic element => [element]
  | .results types => types
  | .repeating base => [base]
  | _ => []

mutual

/-- A type and all types inside it, outermost first. -/
def nodes : Ty → List Ty
  | .any => [.any]
  | .unknown => [.unknown]
  | .nil => [.nil]
  | .named name => [.named name]
  | .union members => .union members :: nodesOfList members
  | .tuple slots => .tuple slots :: nodesOfSlots slots
  | .array element => .array element :: nodes element
  | .generic base arguments => .generic base arguments :: nodesOfList arguments
  | .stringLiteral content => [.stringLiteral content]
  | .integerLiteral value => [.integerLiteral value]
  | .tableLiteral origin => [.tableLiteral origin]
  | .docTable origin => [.docTable origin]
  | .variadic element => .variadic element :: nodes element
  | .expand name => [.expand name]
  | .results types => .results types :: nodesOfList types
  | .repeating base => .repeating base :: nodes base
termination_by structural type => type

/-- The nodes of several types. -/
def nodesOfList : List Ty → List Ty
  | [] => []
  | type :: types => nodes type ++ nodesOfList types

/-- The nodes of the types in a tuple. -/
def nodesOfSlots : List (Slot Ty) → List Ty
  | [] => []
  | ⟨_, type, _⟩ :: slots => nodes type ++ nodesOfSlots slots

end

@[simp]
theorem nodesOfList_eq (types : List Ty) :
    nodesOfList types = types.flatMap nodes := by
  induction types with
  | nil => rfl
  | cons type types ih => rw [nodesOfList, ih, List.flatMap_cons]

@[simp]
theorem nodesOfSlots_eq (slots : List (Slot Ty)) :
    nodesOfSlots slots = (slots.map Slot.type).flatMap nodes := by
  induction slots with
  | nil => rfl
  | cons slot slots ih =>
      rw [nodesOfSlots, ih, List.map_cons, List.flatMap_cons]

theorem nodes_eq (type : Ty) :
    type.nodes = type :: type.parts.flatMap nodes := by
  cases type <;> simp [nodes, parts]

@[simp]
theorem mem_nodes_self (type : Ty) : type ∈ type.nodes := by
  rw [nodes_eq]
  exact List.mem_cons_self

/-- What holds of every node of a type holds of the type and of every node of
its parts. -/
theorem forall_nodes {holds : Ty → Prop} {type : Ty} :
    (∀ node ∈ type.nodes, holds node) ↔
      holds type ∧ ∀ part ∈ type.parts, ∀ node ∈ part.nodes, holds node := by
  rw [nodes_eq]
  simp only [List.mem_cons, List.mem_flatMap, forall_eq_or_imp]
  refine and_congr_right fun _ => ?_
  constructor
  · intro below part partMem node nodeMem
    exact below node ⟨part, partMem, nodeMem⟩
  · rintro below node ⟨part, partMem, nodeMem⟩
    exact below part partMem node nodeMem

/-- Induction over types, with a hypothesis for every part. -/
theorem inductionOnParts {motive : Ty → Prop}
    (step : ∀ type, (∀ part ∈ type.parts, motive part) → motive type)
    (type : Ty) : motive type := by
  induction type using Ty.partsInduction with
  | union members ih => exact step _ ih
  | tuple slots ih =>
      refine step _ fun part partMem => ?_
      obtain ⟨slot, slotMem, rfl⟩ := List.mem_map.mp partMem
      exact ih slot slotMem
  | generic base arguments ih => exact step _ ih
  | results types ih => exact step _ ih
  | array element ih => exact step _ (by simpa [parts] using ih)
  | variadic element ih => exact step _ (by simpa [parts] using ih)
  | repeating base ih => exact step _ (by simpa [parts] using ih)
  | _ => exact step _ (by simp [parts])

theorem WellFormed.of_part {type part : Ty} (formed : type.WellFormed)
    (partMem : part ∈ type.parts) : part.WellFormed := by
  cases formed with
  | union formedParts =>
      exact formedParts part ((distinct_sublist _).subset partMem)
  | tuple formedParts =>
      obtain ⟨slot, slotMem, rfl⟩ := List.mem_map.mp partMem
      exact formedParts slot slotMem
  | generic formedParts => exact formedParts part partMem
  | results formedParts => exact formedParts part partMem
  | array formedPart => exact List.mem_singleton.mp partMem ▸ formedPart
  | variadic formedPart => exact List.mem_singleton.mp partMem ▸ formedPart
  | repeating formedPart => exact List.mem_singleton.mp partMem ▸ formedPart
  | _ => simp [parts] at partMem

theorem WellFormed.of_node {type : Ty} (formed : type.WellFormed) :
    ∀ node ∈ type.nodes, node.WellFormed := by
  induction type using Ty.inductionOnParts with
  | step type ih =>
      refine forall_nodes.mpr ⟨formed, fun part partMem => ?_⟩
      exact ih part partMem (formed.of_part partMem)

/-- A node that could be formed from its parts. -/
def Merged : Ty → Prop
  | .union members =>
      members.Pairwise fun first later => later.same first = false
  | _ => True

instance : DecidablePred Merged
  | .union members =>
      inferInstanceAs (Decidable
        (members.Pairwise fun first later => later.same first = false))
  | .any | .unknown | .nil | .named _ | .tuple _ | .array _ | .generic _ _
  | .stringLiteral _ | .integerLiteral _ | .tableLiteral _ | .docTable _
  | .variadic _ | .expand _ | .results _ | .repeating _ => isTrue trivial

theorem wellFormed_of_merged {type : Ty}
    (merged : ∀ node ∈ type.nodes, node.Merged) : type.WellFormed := by
  induction type using Ty.inductionOnParts with
  | step type ih =>
      obtain ⟨here, below⟩ := forall_nodes.mp merged
      have partsFormed : ∀ part ∈ type.parts, part.WellFormed :=
        fun part partMem => ih part partMem (below part partMem)
      cases type with
      | union members =>
          have unmerged : distinct members = members :=
            distinctFrom_eq_self (by simp) here
          have formed : (unionOf members).WellFormed := .union partsFormed
          rwa [unionOf, unmerged] at formed
      | tuple slots =>
          exact .tuple fun slot slotMem =>
            partsFormed slot.type (List.mem_map_of_mem slotMem)
      | generic base arguments => exact .generic partsFormed
      | results types => exact .results partsFormed
      | array element => exact .array (partsFormed _ List.mem_cons_self)
      | variadic element => exact .variadic (partsFormed _ List.mem_cons_self)
      | repeating base => exact .repeating (partsFormed _ List.mem_cons_self)
      | _ => constructor

theorem WellFormed.merged {type : Ty} (formed : type.WellFormed) :
    ∀ node ∈ type.nodes, node.Merged := by
  intro node nodeMem
  have nodeFormed := formed.of_node node nodeMem
  cases node with
  | union members => exact nodeFormed.members_pairwise
  | _ => trivial

instance : DecidablePred WellFormed := fun type =>
  decidable_of_iff (∀ node ∈ type.nodes, node.Merged)
    ⟨wellFormed_of_merged, WellFormed.merged⟩

theorem kind_eq_of_same {first second : Ty} (same : first.same second = true) :
    first.kind = second.kind := by
  cases same_iff_alike.mp same <;> rfl

/-- Types that are the same match their parts one to one.  Only the members of
unions may have to be reordered for that. -/
theorem exists_matching_parts {first second : Ty}
    (firstFormed : first.WellFormed) (secondFormed : second.WellFormed)
    (same : first.same second = true) :
    ∃ partners, partners.Perm second.parts ∧
      List.Forall₂ (fun part partner => part.same partner = true)
        first.parts partners := by
  cases same_iff_alike.mp same with
  | union lengthEq included =>
      refine exists_matching_members ?_ firstFormed.members_pairwise lengthEq
        included
      intro member memberMem other otherMem
      exact same_symm (firstFormed.of_part memberMem)
        (secondFormed.of_part otherMem)
  | tuple slots =>
      refine ⟨_, .refl _, ?_⟩
      rw [parts, parts, List.forall₂_map_left_iff, List.forall₂_map_right_iff]
      exact slots
  | generic arguments => exact ⟨_, .refl _, arguments⟩
  | results types => exact ⟨_, .refl _, types⟩
  | array part | variadic part | repeating part =>
      exact ⟨_, .refl _, .cons part .nil⟩
  | _ => exact ⟨[], .refl _, .nil⟩

/-- The identifier that a node carries. -/
def identifier? : Ty → Option Name
  | .named name => some name
  | .expand name => some name
  | .generic base _ => some base
  | _ => none

/-- An identifier that occurs in a type, as a name, as a placeholder or as the
base of a generic. -/
def Mentions (type : Ty) (name : Name) : Prop :=
  ∃ node ∈ type.nodes, node.identifier? = some name

/-- Number of call results in some types, at any depth. -/
def callCountOf (types : List Ty) : Nat :=
  (types.flatMap nodes).countP fun node => node.kind == .multiReturn

/-- Number of call results in a type, at any depth. -/
def callCount (type : Ty) : Nat :=
  type.nodes.countP fun node => node.kind == .multiReturn

theorem callCount_eq (type : Ty) :
    type.callCount =
      callCountOf type.parts + if type.kind == .multiReturn then 1 else 0 := by
  rw [callCount, nodes_eq, List.countP_cons]
  rfl

@[simp]
theorem callCountOf_nil : callCountOf [] = 0 :=
  rfl

@[simp]
theorem callCountOf_cons (type : Ty) (types : List Ty) :
    callCountOf (type :: types) = type.callCount + callCountOf types := by
  rw [callCountOf, List.flatMap_cons, List.countP_append]
  rfl

@[simp]
theorem callCountOf_append (firsts seconds : List Ty) :
    callCountOf (firsts ++ seconds) =
      callCountOf firsts + callCountOf seconds := by
  rw [callCountOf, List.flatMap_append, List.countP_append]
  rfl

theorem callCountOf_concat (slots : List (Slot Ty)) (last : Slot Ty) :
    callCountOf ((slots ++ [last]).map Slot.type) =
      callCountOf (slots.map Slot.type) + last.type.callCount := by
  simp

theorem callCountOf_le_of_sublist {firsts seconds : List Ty}
    (sublist : firsts.Sublist seconds) :
    callCountOf firsts ≤ callCountOf seconds :=
  (sublist.flatMap nodes).countP_le

theorem callCountOf_perm {firsts seconds : List Ty}
    (perm : firsts.Perm seconds) :
    callCountOf firsts = callCountOf seconds :=
  (perm.flatMap_right nodes).countP_eq _

theorem callCountOf_congr {firsts seconds : List Ty}
    (equal : List.Forall₂
      (fun first second => first.callCount = second.callCount)
      firsts seconds) :
    callCountOf firsts = callCountOf seconds := by
  induction equal with
  | nil => rfl
  | cons head tail ih => simp [head, ih]

/-- Types that are the same hold equally many call results. -/
theorem callCount_eq_of_same {first second : Ty}
    (firstFormed : first.WellFormed) (secondFormed : second.WellFormed)
    (same : first.same second = true) :
    first.callCount = second.callCount := by
  induction first using Ty.inductionOnParts generalizing second with
  | step first ih =>
      obtain ⟨partners, partnersPerm, matched⟩ :=
        exists_matching_parts firstFormed secondFormed same
      have equal : List.Forall₂
          (fun part partner => part.callCount = partner.callCount)
          first.parts partners := by
        refine forall₂_imp_of_mem ?_ matched
        intro part partMem partner partnerMem
        exact ih part partMem (firstFormed.of_part partMem)
          (secondFormed.of_part (partnersPerm.mem_iff.mp partnerMem))
      rw [callCount_eq, callCount_eq, kind_eq_of_same same,
        callCountOf_congr equal, callCountOf_perm partnersPerm]

@[simp]
theorem callResults?_eq_none_iff {type : Ty} :
    type.callResults? = none ↔ type.kind ≠ .multiReturn := by
  cases type <;> simp [callResults?, kind]

/-- Whether a type is a tuple with call results in its last slot. -/
def endsInCall : Ty → Bool
  | .tuple slots =>
      slots.getLast?.any fun last => last.type.kind == .multiReturn
  | _ => false

theorem callCount_pos_of_endsInCall {type : Ty}
    (ends : type.endsInCall = true) : 0 < type.callCount := by
  cases type with
  | tuple slots =>
      rcases List.eq_nil_or_concat' slots with rfl | ⟨before, last, rfl⟩
      · simp [endsInCall] at ends
      · have isCall : last.type.kind = .multiReturn := by
          simpa [endsInCall] using ends
        have lastCount : last.type.callCount =
            callCountOf last.type.parts + 1 := by
          rw [callCount_eq, isCall]
          rfl
        rw [callCount_eq, parts, callCountOf_concat]
        omega
  | _ => simp [endsInCall] at ends

end Ty

end LuaTyping
