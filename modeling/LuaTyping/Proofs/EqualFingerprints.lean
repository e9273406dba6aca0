import LuaTyping.Proofs.TypeNodes
import LuaTyping.Ty.Fingerprint

/-!
# Equal types have equal fingerprints

Types that are the same write the same tokens, so no hash function can tell
them apart.  Tuples and lists write their parts in order.  A union writes the
sum of the fingerprints of its members: two unions that are the same match
their members one to one, matched members have equal fingerprints, and the
order in which they are added up does not matter.
-/

namespace LuaTyping

namespace Ty

section Tokens

variable {hash : List Token → UInt64}

theorem memberSum_perm {firsts seconds : List Ty}
    (perm : firsts.Perm seconds) :
    memberSum hash firsts = memberSum hash seconds := by
  induction perm with
  | nil => rfl
  | cons type perm ih => rw [memberSum, memberSum, ih]
  | swap first second types =>
      simp only [memberSum]
      rw [← UInt64.add_assoc, UInt64.add_comm (hash (tokens hash second)),
        UInt64.add_assoc]
  | trans firstPerm secondPerm firstIh secondIh => exact firstIh.trans secondIh

section Parts

variable {firsts seconds : List Ty}
  (equal : List.Forall₂
    (fun first second => tokens hash first = tokens hash second)
    firsts seconds)

include equal

theorem memberSum_congr : memberSum hash firsts = memberSum hash seconds := by
  induction equal with
  | nil => rfl
  | cons head tail ih => rw [memberSum, memberSum, head, ih]

theorem listTokens_congr :
    listTokens hash firsts = listTokens hash seconds := by
  induction equal with
  | nil => rfl
  | cons head tail ih => rw [listTokens, listTokens, head, ih]

end Parts

@[simp]
theorem slotTokens_eq (slots : List (Slot Ty)) :
    slotTokens hash slots = listTokens hash (slots.map Slot.type) := by
  induction slots with
  | nil => rfl
  | cons slot slots ih => rw [slotTokens, List.map_cons, listTokens, ih]

theorem tokens_eq_of_same {first second : Ty}
    (firstFormed : first.WellFormed) (secondFormed : second.WellFormed)
    (same : first.same second = true) :
    first.tokens hash = second.tokens hash := by
  induction first using Ty.inductionOnParts generalizing second with
  | step first ih =>
      have equalParts : ∀ part ∈ first.parts, ∀ other ∈ second.parts,
          part.same other = true → part.tokens hash = other.tokens hash := by
        intro part partMem other otherMem
        exact ih part partMem (firstFormed.of_part partMem)
          (secondFormed.of_part otherMem)
      cases same_iff_alike.mp same with
      | @union firsts seconds lengthEq included =>
          obtain ⟨partners, partnersPerm, matched⟩ :=
            exists_matching_parts firstFormed secondFormed same
          have equal : List.Forall₂
              (fun first second => tokens hash first = tokens hash second)
              firsts partners := by
            refine forall₂_imp_of_mem ?_ matched
            intro first firstMem partner partnerMem
            exact equalParts first firstMem partner
              (partnersPerm.mem_iff.mp partnerMem)
          have sumEq : memberSum hash firsts = memberSum hash seconds :=
            (memberSum_congr equal).trans (memberSum_perm partnersPerm)
          simp only [tokens, lengthEq, sumEq]
      | @tuple firsts seconds slots =>
          have types : List.Forall₂
              (fun first second => first.same second = true)
              (firsts.map Slot.type) (seconds.map Slot.type) := by
            rw [List.forall₂_map_left_iff, List.forall₂_map_right_iff]
            exact slots
          have equal : listTokens hash (firsts.map Slot.type) =
              listTokens hash (seconds.map Slot.type) :=
            listTokens_congr (forall₂_imp_of_mem equalParts types)
          simp [tokens, slots.length_eq, equal]
      | @generic _ firsts seconds arguments =>
          have equal : listTokens hash firsts = listTokens hash seconds :=
            listTokens_congr (forall₂_imp_of_mem equalParts arguments)
          simp only [tokens, arguments.length_eq, equal]
      | @results firsts seconds types =>
          have equal : listTokens hash firsts = listTokens hash seconds :=
            listTokens_congr (forall₂_imp_of_mem equalParts types)
          simp only [tokens, types.length_eq, equal]
      | array part | variadic part | repeating part =>
          have equal :=
            equalParts _ List.mem_cons_self _ List.mem_cons_self part
          simp only [tokens, equal]
      | _ => rfl

end Tokens

/-- Types that are the same cannot be told apart by hashing, whichever
function hashes the tokens of the whole type and whichever hashes those of
union members.  A fingerprint uses one function for both. -/
theorem hash_tokens_eq_of_same (outer inner : List Token → UInt64)
    (first second : Ty) (firstFormed : first.WellFormed)
    (secondFormed : second.WellFormed) (same : first.same second = true) :
    outer (first.tokens inner) = outer (second.tokens inner) :=
  congrArg outer (tokens_eq_of_same firstFormed secondFormed same)

/-- Members are listed in another order at two depths, and a slot carries
another index and origin. -/
theorem fingerprint_eq_reordered :
    let first := unionOf
      [.array (unionOf [.string, .nil]), .tuple [⟨0, .integer, none⟩]]
    let second := unionOf
      [.tuple [⟨7, .integer, some ⟨⟨1⟩, 2⟩⟩],
        .array (unionOf [.nil, .string])]
    first.WellFormed ∧ second.WellFormed ∧ first.same second = true ∧
      first.fingerprint hash = second.fingerprint hash := by
  intro first second
  have firstFormed : first.WellFormed := by
    refine .union (List.forall_mem_cons.mpr ⟨.array (.union ?_), ?_⟩)
    · exact List.forall_mem_cons.mpr
        ⟨.named _, List.forall_mem_singleton.mpr .nil⟩
    · exact List.forall_mem_singleton.mpr
        (.tuple (List.forall_mem_singleton.mpr (.named _)))
  have secondFormed : second.WellFormed := by
    refine .union (List.forall_mem_cons.mpr ⟨.tuple ?_, ?_⟩)
    · exact List.forall_mem_singleton.mpr (.named _)
    · refine List.forall_mem_singleton.mpr (.array (.union ?_))
      exact List.forall_mem_cons.mpr
        ⟨.nil, List.forall_mem_singleton.mpr (.named _)⟩
  have same : first.same second = true := by decide
  exact ⟨firstFormed, secondFormed, same,
    hash_tokens_eq_of_same hash hash first second firstFormed secondFormed
      same⟩

end Ty

end LuaTyping
