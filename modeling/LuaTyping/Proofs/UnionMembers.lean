import LuaTyping.Proofs.TypeNodes
import Mathlib.Data.List.Induction

/-!
# Members of unions

Forming a union drops every type that is the same as an earlier one.  Nothing
is lost by that: each type given has one that is the same among the members
kept.  Two unions are therefore the same if and only if each type given for
one of them is the same as one given for the other, however the types are
ordered and repeated.

An operation that respects equality may be applied before or after the
repetitions are dropped.
-/

namespace LuaTyping

namespace Ty

theorem seen_or_kept (seen : List Ty) {types : List Ty} {type : Ty}
    (typeMem : type ∈ types) :
    (∃ known ∈ seen, type.same known = true) ∨
      ∃ kept ∈ distinctFrom seen types, type.same kept = true := by
  induction types generalizing seen with
  | nil => simp at typeMem
  | cons next types ih =>
      rw [distinctFrom]
      rcases List.mem_cons.mp typeMem with rfl | later
      · by_cases known : type.among seen = true
        · left
          simpa [among] using known
        · right
          rw [if_neg known]
          exact ⟨type, List.mem_cons_self, same_refl type⟩
      · split
        · exact ih seen later
        · rcases ih (next :: seen) later with
            ⟨known, knownMem, same⟩ | ⟨kept, keptMem, same⟩
          · rcases List.mem_cons.mp knownMem with rfl | wasSeen
            · exact .inr ⟨known, List.mem_cons_self, same⟩
            · exact .inl ⟨known, wasSeen, same⟩
          · exact .inr ⟨kept, List.mem_cons_of_mem next keptMem, same⟩

theorem exists_same_mem_distinct {types : List Ty} {type : Ty}
    (typeMem : type ∈ types) :
    ∃ kept ∈ distinct types, type.same kept = true := by
  rcases seen_or_kept [] typeMem with ⟨known, knownMem, _⟩ | kept
  · simp at knownMem
  · exact kept

section Included

variable {firsts seconds : List Ty}
  (included : ∀ first ∈ firsts, ∃ second ∈ seconds, first.same second = true)

include included

theorem distinct_included :
    ∀ first ∈ distinct firsts, ∃ second ∈ distinct seconds,
      first.same second = true := by
  intro first firstMem
  obtain ⟨second, secondMem, firstSame⟩ :=
    included first ((distinct_sublist firsts).subset firstMem)
  obtain ⟨kept, keptMem, secondSame⟩ := exists_same_mem_distinct secondMem
  exact ⟨kept, keptMem, same_trans firstSame secondSame⟩

theorem length_distinct_le
    (firstsFormed : ∀ first ∈ firsts, first.WellFormed)
    (secondsFormed : ∀ second ∈ seconds, second.WellFormed) :
    (distinct firsts).length ≤ (distinct seconds).length := by
  have reverse : ∀ first ∈ distinct firsts, ∀ second ∈ distinct seconds,
      first.same second = true → second.same first = true := by
    intro first firstMem second secondMem
    exact same_symm
      (firstsFormed first ((distinct_sublist firsts).subset firstMem))
      (secondsFormed second ((distinct_sublist seconds).subset secondMem))
  have apart : (distinct firsts).Pairwise fun first later =>
      later.same first = false := distinctFrom_pairwise [] firsts
  obtain ⟨partners, others, partnersPerm, matched⟩ := exists_partners
    (pairwise_no_common_partner reverse apart) (distinct_included included)
  have total := partnersPerm.length_eq
  have paired := matched.length_eq
  rw [List.length_append] at total
  omega

end Included

/-- Unions of types that are the same, class by class, are the same. -/
theorem unionOf_same {firsts seconds : List Ty}
    (firstsFormed : ∀ first ∈ firsts, first.WellFormed)
    (secondsFormed : ∀ second ∈ seconds, second.WellFormed)
    (included : ∀ first ∈ firsts, ∃ second ∈ seconds,
      first.same second = true)
    (covered : ∀ second ∈ seconds, ∃ first ∈ firsts,
      second.same first = true) :
    (unionOf firsts).same (unionOf seconds) = true := by
  have lengthEq : (distinct firsts).length = (distinct seconds).length := by
    apply Nat.le_antisymm
    · exact length_distinct_le included firstsFormed secondsFormed
    · exact length_distinct_le covered secondsFormed firstsFormed
  exact same_iff_alike.mpr (.union lengthEq (distinct_included included))

theorem among_iff {type : Ty} {types : List Ty} :
    type.among types = true ↔ ∃ other ∈ types, type.same other = true :=
  List.any_eq_true

@[simp]
theorem among_cons (type other : Ty) (types : List Ty) :
    type.among (other :: types) = (type.same other || type.among types) :=
  rfl

@[simp]
theorem among_append (type : Ty) (firsts seconds : List Ty) :
    type.among (firsts ++ seconds) =
      (type.among firsts || type.among seconds) :=
  List.any_append

theorem among_of_same {first second : Ty} {types : List Ty}
    (same : first.same second = true) (known : second.among types = true) :
    first.among types = true := by
  obtain ⟨other, otherMem, secondSame⟩ := among_iff.mp known
  exact among_iff.mpr ⟨other, otherMem, same_trans same secondSame⟩

theorem among_distinct_iff {type : Ty} {types : List Ty} :
    type.among (distinct types) = true ↔
      ∃ other ∈ types, type.same other = true := by
  rw [among_iff]
  constructor
  · rintro ⟨kept, keptMem, same⟩
    exact ⟨kept, (distinct_sublist types).subset keptMem, same⟩
  · rintro ⟨other, otherMem, same⟩
    obtain ⟨kept, keptMem, otherSame⟩ := exists_same_mem_distinct otherMem
    exact ⟨kept, keptMem, same_trans same otherSame⟩

/-- The types of a list before which there is none that is the same, in
order. -/
def firstOccurrences (types : List Ty) : List Ty :=
  (types.zipIdx.filter fun (type, position) =>
    !type.among (types.take position)).map Prod.fst

theorem firstOccurrences_concat (types : List Ty) (last : Ty) :
    firstOccurrences (types ++ [last]) =
      firstOccurrences types ++ if last.among types then [] else [last] := by
  -- A type further on does not change what comes before a position.
  have earlier : types.zipIdx.filter (fun (type, position) =>
        !type.among ((types ++ [last]).take position)) =
      types.zipIdx.filter (fun (type, position) =>
        !type.among (types.take position)) := by
    apply List.filter_congr
    rintro ⟨type, position⟩ placed
    have inside : position ≤ types.length :=
      Nat.le_of_lt (List.snd_lt_of_mem_zipIdx placed)
    simp only [List.take_append_of_le_length inside]
  unfold firstOccurrences
  rw [List.zipIdx_append, List.filter_append, earlier, List.map_append]
  by_cases known : last.among types = true <;> simp [known]

theorem distinctFrom_concat (seen types : List Ty) (last : Ty) :
    distinctFrom seen (types ++ [last]) =
      distinctFrom seen types ++
        if last.among (seen ++ types) then [] else [last] := by
  induction types generalizing seen with
  | nil => simp [distinctFrom]
  | cons type types ih =>
      rw [List.cons_append, distinctFrom, distinctFrom]
      by_cases known : type.among seen = true
      · -- A type dropped for an earlier one need not be compared with.
        have sameTest : last.among (seen ++ type :: types) =
            last.among (seen ++ types) := by
          by_cases same : last.same type = true
          · simp [among_of_same same known]
          · simp [same]
        rw [if_pos known, if_pos known, ih, sameTest]
      · have sameTest : last.among (seen ++ type :: types) =
            last.among (type :: seen ++ types) := by
          simp [Bool.or_left_comm]
        rw [if_neg known, if_neg known, ih, sameTest]
        rfl

/-- What is kept are the first occurrences, although each type is compared
with those kept before it only. -/
theorem distinct_eq_firstOccurrences (types : List Ty) :
    distinct types = firstOccurrences types := by
  induction types using List.reverseRecOn with
  | nil => rfl
  | append_singleton types last ih =>
      rw [firstOccurrences_concat, ← ih]
      exact distinctFrom_concat [] types last

theorem included_of_unionOf_same {firsts seconds : List Ty}
    (same : (unionOf firsts).same (unionOf seconds) = true) :
    ∀ first ∈ firsts, ∃ second ∈ seconds, first.same second = true := by
  cases same_iff_alike.mp same with
  | union lengthEq included =>
      intro first firstMem
      obtain ⟨kept, keptMem, firstSame⟩ := exists_same_mem_distinct firstMem
      obtain ⟨second, secondMem, keptSame⟩ := included kept keptMem
      exact ⟨second, (distinct_sublist seconds).subset secondMem,
        same_trans firstSame keptSame⟩

/-- A union is the set of the types it is formed from.  It keeps the first
occurrence of each class of equal types, it contains the types that are the
same as one of them, and two unions are the same if and only if the types they
are formed from are, class by class. -/
theorem unionOf_forms_set {firsts seconds : List Ty}
    (firstsFormed : ∀ first ∈ firsts, first.WellFormed)
    (secondsFormed : ∀ second ∈ seconds, second.WellFormed) :
    unionOf firsts = .union (firstOccurrences firsts) ∧
      (∀ type : Ty, type.among (distinct firsts) = true ↔
        ∃ first ∈ firsts, type.same first = true) ∧
      ((unionOf firsts).same (unionOf seconds) = true ↔
        (∀ first ∈ firsts, ∃ second ∈ seconds, first.same second = true) ∧
          ∀ second ∈ seconds, ∃ first ∈ firsts, second.same first = true) := by
  refine ⟨congrArg Ty.union (distinct_eq_firstOccurrences firsts),
    fun type => among_distinct_iff, ?_, ?_⟩
  · intro same
    have reversed : (unionOf seconds).same (unionOf firsts) = true :=
      same_symm (.union firstsFormed) (.union secondsFormed) same
    exact ⟨included_of_unionOf_same same, included_of_unionOf_same reversed⟩
  · rintro ⟨included, covered⟩
    exact unionOf_same firstsFormed secondsFormed included covered

/-- The members are unions and tuples themselves, equal without being
identical. -/
theorem unionOf_forms_set_nested :
    let row := tupleOf [.named "A", .nil]
    let moved := Ty.tuple [⟨7, .named "A", none⟩, ⟨7, .nil, some ⟨⟨1⟩, 2⟩⟩]
    let either := unionOf [.named "A", row]
    let turned := unionOf [moved, .named "A", row]
    let firsts := [either, moved, turned, row]
    let seconds := [row, row, turned]
    (∀ first ∈ firsts, first.WellFormed) ∧
      (∀ second ∈ seconds, second.WellFormed) ∧
      unionOf firsts = .union [either, moved] ∧
      turned.among (distinct firsts) = true ∧
      (unionOf firsts).same (unionOf seconds) = true := by
  intro row moved either turned firsts seconds
  have firstsFormed : ∀ first ∈ firsts, first.WellFormed := by decide
  have secondsFormed : ∀ second ∈ seconds, second.WellFormed := by decide
  obtain ⟨kept, contains, sameIff⟩ :=
    unionOf_forms_set firstsFormed secondsFormed
  refine ⟨firstsFormed, secondsFormed, kept, ?_, ?_⟩
  · exact (contains turned).mpr ⟨either, List.mem_cons_self, by decide⟩
  · exact sameIff.mpr ⟨by decide, by decide⟩

section Images

variable {related : Ty → Ty → Prop}
  (respects : ∀ first image second other, related first image →
    related second other → first.same second = true →
      image.same other = true)

include respects

private theorem exists_kept_images {seen seenImages types images : List Ty}
    (ofSeen : ∀ known ∈ seen, ∃ image ∈ seenImages,
      ∃ other, related known other ∧ other.same image = true)
    (ofTypes : List.Forall₂ related types images) :
    ∃ kept, List.Forall₂ related (distinctFrom seen types) kept ∧
      distinctFrom seenImages kept = distinctFrom seenImages images := by
  induction ofTypes generalizing seen seenImages with
  | nil => exact ⟨[], .nil, rfl⟩
  | @cons type image types images head tail ih =>
      by_cases known : type.among seen = true
      · -- The image of a repetition is a repetition.
        obtain ⟨earlier, earlierMem, same⟩ := List.any_eq_true.mp known
        obtain ⟨earlierImage, imageMem, other, isOther, otherSame⟩ :=
          ofSeen earlier earlierMem
        have imageSame : image.same earlierImage = true :=
          same_trans (respects type image earlier other head isOther same)
            otherSame
        have imageKnown : image.among seenImages = true :=
          List.any_eq_true.mpr ⟨earlierImage, imageMem, imageSame⟩
        obtain ⟨kept, ofKept, keptEq⟩ := ih ofSeen
        refine ⟨kept, ?_, ?_⟩
        · rw [distinctFrom, if_pos known]
          exact ofKept
        · rw [keptEq, distinctFrom, if_pos imageKnown]
      · by_cases imageKnown : image.among seenImages = true
        · have ofMore : ∀ known ∈ type :: seen, ∃ image ∈ seenImages,
              ∃ other, related known other ∧ other.same image = true := by
            obtain ⟨earlierImage, imageMem, imageSame⟩ :=
              List.any_eq_true.mp imageKnown
            exact List.forall_mem_cons.mpr
              ⟨⟨earlierImage, imageMem, image, head, imageSame⟩, ofSeen⟩
          obtain ⟨kept, ofKept, keptEq⟩ := ih ofMore
          refine ⟨image :: kept, ?_, ?_⟩
          · rw [distinctFrom, if_neg known]
            exact .cons head ofKept
          · rw [distinctFrom, if_pos imageKnown, distinctFrom,
              if_pos imageKnown, keptEq]
        · have ofMore : ∀ known ∈ type :: seen,
              ∃ other ∈ image :: seenImages, ∃ own,
                related known own ∧ own.same other = true := by
            refine List.forall_mem_cons.mpr
              ⟨⟨image, by simp, image, head, same_refl image⟩, ?_⟩
            intro known knownMem
            obtain ⟨other, otherMem, ownImage⟩ := ofSeen known knownMem
            exact ⟨other, List.mem_cons_of_mem image otherMem, ownImage⟩
          obtain ⟨kept, ofKept, keptEq⟩ := ih ofMore
          refine ⟨image :: kept, ?_, ?_⟩
          · rw [distinctFrom, if_neg known]
            exact .cons head ofKept
          · rw [distinctFrom, if_neg imageKnown, distinctFrom,
              if_neg imageKnown, keptEq]

/-- Dropping repetitions before an operation that respects equality changes
nothing about what is left after it. -/
theorem exists_distinct_images {types images : List Ty}
    (ofTypes : List.Forall₂ related types images) :
    ∃ kept, List.Forall₂ related (distinct types) kept ∧
      distinct kept = distinct images :=
  exists_kept_images respects (by simp) ofTypes

end Images

end Ty

end LuaTyping
