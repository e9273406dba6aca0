import LuaTyping.Ty.Equality
import Mathlib.Data.List.Forall2

/-!
# Type equality is an equivalence

Unions are compared by length and inclusion in one direction, which by itself
is not symmetric: `A|B` would be included in `A|A` if the latter could be
written.  It is symmetric on the types that can be formed, because every union
at every depth keeps one member for each class of equal types.  Distinct
members on one side then need distinct partners on the other, and equal
lengths leave no member without a partner.

That argument uses symmetry and transitivity for the members, so it runs
inside the induction over types.
-/

namespace LuaTyping

namespace Ty

/-- Induction over types, with a hypothesis for every immediate part. -/
@[elab_as_elim]
theorem partsInduction {motive : Ty → Prop}
    (any : motive .any) (unknown : motive .unknown) (nil : motive .nil)
    (named : ∀ name, motive (.named name))
    (union : ∀ members, (∀ member ∈ members, motive member) →
      motive (.union members))
    (tuple : ∀ slots, (∀ slot ∈ slots, motive slot.type) →
      motive (.tuple slots))
    (array : ∀ element, motive element → motive (.array element))
    (generic : ∀ base arguments, (∀ argument ∈ arguments, motive argument) →
      motive (.generic base arguments))
    (stringLiteral : ∀ content, motive (.stringLiteral content))
    (integerLiteral : ∀ value, motive (.integerLiteral value))
    (tableLiteral : ∀ origin, motive (.tableLiteral origin))
    (docTable : ∀ origin, motive (.docTable origin))
    (variadic : ∀ element, motive element → motive (.variadic element))
    (expand : ∀ name, motive (.expand name))
    (results : ∀ types, (∀ type ∈ types, motive type) →
      motive (.results types))
    (repeating : ∀ base, motive base → motive (.repeating base))
    (type : Ty) : motive type :=
  @Ty.rec motive (fun types => ∀ type ∈ types, motive type)
    (fun slots => ∀ slot ∈ slots, motive slot.type)
    (fun slot => motive slot.type)
    any unknown nil named union tuple array generic stringLiteral
    integerLiteral tableLiteral docTable variadic expand results repeating
    (by simp) (by simp_all) (by simp) (by simp_all) (fun _ _ _ part => part)
    type

@[simp]
theorem allAmong_iff {firsts seconds : List Ty} :
    allAmong firsts seconds = true ↔
      ∀ first ∈ firsts, ∃ second ∈ seconds, first.same second = true := by
  induction firsts with
  | nil => simp [allAmong]
  | cons first firsts ih => simp [allAmong, ih]

@[simp]
theorem sameList_iff {firsts seconds : List Ty} :
    sameList firsts seconds = true ↔
      List.Forall₂ (fun first second => first.same second = true)
        firsts seconds := by
  induction firsts generalizing seconds with
  | nil => cases seconds <;> simp [sameList]
  | cons first firsts ih => cases seconds <;> simp [sameList, ih]

@[simp]
theorem sameSlots_iff {firsts seconds : List (Slot Ty)} :
    sameSlots firsts seconds = true ↔
      List.Forall₂ (fun first second => first.type.same second.type = true)
        firsts seconds := by
  induction firsts generalizing seconds with
  | nil => cases seconds <;> simp [sameSlots]
  | cons first firsts ih => cases seconds <;> simp [sameSlots, ih]

/-- What it takes for two types to be the same, by their outermost
constructor. -/
inductive Alike : Ty → Ty → Prop
  | any : Alike .any .any
  | unknown : Alike .unknown .unknown
  | nil : Alike .nil .nil
  | named (name : Name) : Alike (.named name) (.named name)
  | union {firsts seconds : List Ty}
      (lengthEq : firsts.length = seconds.length)
      (included : ∀ first ∈ firsts, ∃ second ∈ seconds,
        first.same second = true) :
      Alike (.union firsts) (.union seconds)
  | tuple {firsts seconds : List (Slot Ty)}
      (slots : List.Forall₂
        (fun first second => first.type.same second.type = true)
        firsts seconds) :
      Alike (.tuple firsts) (.tuple seconds)
  | array {first second : Ty} (element : first.same second = true) :
      Alike (.array first) (.array second)
  | generic {base : Name} {firsts seconds : List Ty}
      (arguments : List.Forall₂
        (fun first second => first.same second = true) firsts seconds) :
      Alike (.generic base firsts) (.generic base seconds)
  | stringLiteral (content : String) :
      Alike (.stringLiteral content) (.stringLiteral content)
  | integerLiteral (value : Int64) :
      Alike (.integerLiteral value) (.integerLiteral value)
  | tableLiteral (origin : Origin) :
      Alike (.tableLiteral origin) (.tableLiteral origin)
  | docTable (origin : Origin) : Alike (.docTable origin) (.docTable origin)
  | variadic {first second : Ty} (element : first.same second = true) :
      Alike (.variadic first) (.variadic second)
  | expand (name : Name) : Alike (.expand name) (.expand name)
  | results {firsts seconds : List Ty}
      (types : List.Forall₂
        (fun first second => first.same second = true) firsts seconds) :
      Alike (.results firsts) (.results seconds)
  | repeating {first second : Ty} (base : first.same second = true) :
      Alike (.repeating first) (.repeating second)

theorem same_iff_alike {first second : Ty} :
    first.same second = true ↔ Alike first second := by
  constructor
  · intro same
    rw [Ty.same.eq_def] at same
    split at same
    · exact .any
    · exact .unknown
    · exact .nil
    · exact beq_iff_eq.mp same ▸ .named _
    · rw [Bool.and_eq_true, beq_iff_eq] at same
      exact .union same.1 (allAmong_iff.mp same.2)
    · exact .tuple (sameSlots_iff.mp same)
    · exact .array same
    · rw [Bool.and_eq_true, beq_iff_eq] at same
      exact same.1 ▸ .generic (sameList_iff.mp same.2)
    · exact beq_iff_eq.mp same ▸ .stringLiteral _
    · exact beq_iff_eq.mp same ▸ .integerLiteral _
    · exact beq_iff_eq.mp same ▸ .tableLiteral _
    · exact beq_iff_eq.mp same ▸ .docTable _
    · exact .variadic same
    · exact beq_iff_eq.mp same ▸ .expand _
    · exact .results (sameList_iff.mp same)
    · exact .repeating same
    · exact absurd same Bool.false_ne_true
  · intro alike
    cases alike with
    | union lengthEq included =>
        simpa [same] using ⟨lengthEq, included⟩
    | tuple slots => exact sameSlots_iff.mpr slots
    | generic arguments => simpa [same] using arguments
    | results types => exact sameList_iff.mpr types
    | array same | variadic same | repeating same => exact same
    | _ => simp [same]

theorem declaredName?_of_same {first second : Ty}
    (same : first.same second = true) :
    first.declaredName? = second.declaredName? := by
  cases same_iff_alike.mp same <;> rfl

@[simp]
theorem same_refl (type : Ty) : type.same type = true := by
  induction type using Ty.partsInduction with
  | union members ih =>
      refine same_iff_alike.mpr (.union rfl fun member memberMem => ?_)
      exact ⟨member, memberMem, ih member memberMem⟩
  | tuple slots ih =>
      exact same_iff_alike.mpr (.tuple (List.forall₂_same.mpr ih))
  | generic base arguments ih =>
      exact same_iff_alike.mpr (.generic (List.forall₂_same.mpr ih))
  | results types ih =>
      exact same_iff_alike.mpr (.results (List.forall₂_same.mpr ih))
  | array element ih => exact same_iff_alike.mpr (.array ih)
  | variadic element ih => exact same_iff_alike.mpr (.variadic ih)
  | repeating base ih => exact same_iff_alike.mpr (.repeating ih)
  | _ => simp [same]

end Ty

section Lists

variable {α β γ : Type} {related : α → β → Prop} {firsts : List α}
  {seconds : List β} {thirds : List γ}

theorem forall₂_compose {onward : β → γ → Prop} {composed : α → γ → Prop}
    (compose : ∀ first ∈ firsts, ∀ second, ∀ third ∈ thirds,
      related first second → onward second third → composed first third)
    (firstSecond : List.Forall₂ related firsts seconds)
    (secondThird : List.Forall₂ onward seconds thirds) :
    List.Forall₂ composed firsts thirds := by
  induction firstSecond generalizing thirds with
  | nil =>
      cases secondThird
      exact .nil
  | cons head tail ih =>
      cases secondThird with
      | cons nextHead nextTail =>
          refine .cons (compose _ (by simp) _ _ (by simp) head nextHead)
            (ih ?_ nextTail)
          intro first firstMem second third thirdMem
          exact compose first (by simp [firstMem]) second third
            (by simp [thirdMem])

theorem forall₂_imp_of_mem {implied : α → β → Prop}
    (implies : ∀ first ∈ firsts, ∀ second ∈ seconds,
      related first second → implied first second)
    (firstSecond : List.Forall₂ related firsts seconds) :
    List.Forall₂ implied firsts seconds := by
  induction firstSecond with
  | nil => exact .nil
  | cons head tail ih =>
      refine .cons (implies _ (by simp) _ (by simp) head) (ih ?_)
      intro first firstMem second secondMem
      exact implies first (by simp [firstMem]) second (by simp [secondMem])

private theorem forall₂_reverse {reversed : β → α → Prop}
    (reverse : ∀ first ∈ firsts, ∀ second ∈ seconds,
      related first second → reversed second first)
    (firstSecond : List.Forall₂ related firsts seconds) :
    List.Forall₂ reversed seconds firsts :=
  (forall₂_imp_of_mem reverse firstSecond).flip

theorem exists_forall₂ (total : ∀ first ∈ firsts, ∃ second, related first second) :
    ∃ seconds, List.Forall₂ related firsts seconds := by
  induction firsts with
  | nil => exact ⟨[], .nil⟩
  | cons first firsts ih =>
      obtain ⟨second, head⟩ := total first (by simp)
      obtain ⟨seconds, tail⟩ := ih fun later laterMem =>
        total later (by simp [laterMem])
      exact ⟨second :: seconds, .cons head tail⟩

theorem exists_of_mem_left {first : α}
    (firstSecond : List.Forall₂ related firsts seconds)
    (firstMem : first ∈ firsts) :
    ∃ second ∈ seconds, related first second := by
  induction firstSecond with
  | nil => simp at firstMem
  | cons head tail ih =>
      rcases List.mem_cons.mp firstMem with rfl | inTail
      · exact ⟨_, List.mem_cons_self, head⟩
      · obtain ⟨second, secondMem, secondRelated⟩ := ih inTail
        exact ⟨second, List.mem_cons_of_mem _ secondMem, secondRelated⟩

theorem exists_of_mem_right {second : β}
    (firstSecond : List.Forall₂ related firsts seconds)
    (secondMem : second ∈ seconds) :
    ∃ first ∈ firsts, related first second := by
  have secondFirst : List.Forall₂ (flip related) seconds firsts :=
    firstSecond.flip
  exact exists_of_mem_left secondFirst secondMem

/-- If the elements of a list are related to elements of another one, and no
two of them to the same element, then they have partners of their own in the
other list. -/
theorem exists_partners
    (apart : firsts.Pairwise fun first later =>
      ∀ second ∈ seconds, related first second → ¬ related later second)
    (included : ∀ first ∈ firsts, ∃ second ∈ seconds, related first second) :
    ∃ partners others, (partners ++ others).Perm seconds ∧
      List.Forall₂ related firsts partners := by
  induction firsts generalizing seconds with
  | nil => exact ⟨[], seconds, .refl _, .nil⟩
  | cons first firsts ih =>
      obtain ⟨partner, partnerMem, partnerRelated⟩ :=
        included first (by simp)
      obtain ⟨before, after, rfl⟩ := List.append_of_mem partnerMem
      rw [List.pairwise_cons] at apart
      -- The partner is taken, so the later elements find theirs elsewhere.
      have restIncluded : ∀ later ∈ firsts,
          ∃ second ∈ before ++ after, related later second := by
        intro later laterMem
        obtain ⟨second, secondMem, laterRelated⟩ :=
          included later (by simp [laterMem])
        have notPartner : second ≠ partner := by
          rintro rfl
          exact apart.1 later laterMem second partnerMem partnerRelated
            laterRelated
        exact ⟨second, by simpa [notPartner] using secondMem, laterRelated⟩
      have restApart : firsts.Pairwise fun first later =>
          ∀ second ∈ before ++ after,
            related first second → ¬ related later second := by
        refine apart.2.imp fun separate second secondMem => separate second ?_
        rcases List.mem_append.mp secondMem with inBefore | inAfter
        · exact List.mem_append_left _ inBefore
        · exact List.mem_append_right _ (List.mem_cons_of_mem _ inAfter)
      obtain ⟨partners, others, partnersPerm, matched⟩ :=
        ih restApart restIncluded
      exact ⟨partner :: partners, others,
        (partnersPerm.cons partner).trans List.perm_middle.symm,
        .cons partnerRelated matched⟩

/-- With equal lengths the partners are the whole other list. -/
theorem exists_matching
    (apart : firsts.Pairwise fun first later =>
      ∀ second ∈ seconds, related first second → ¬ related later second)
    (included : ∀ first ∈ firsts, ∃ second ∈ seconds, related first second)
    (lengthEq : firsts.length = seconds.length) :
    ∃ partners, partners.Perm seconds ∧
      List.Forall₂ related firsts partners := by
  obtain ⟨partners, others, partnersPerm, matched⟩ :=
    exists_partners apart included
  have noOthers : others = [] := by
    have total := partnersPerm.length_eq
    rw [List.length_append, ← matched.length_eq] at total
    exact List.eq_nil_of_length_eq_zero (by omega)
  rw [noOthers, List.append_nil] at partnersPerm
  exact ⟨partners, partnersPerm, matched⟩

end Lists

namespace Ty

theorem same_trans {first second third : Ty}
    (firstSecond : first.same second = true)
    (secondThird : second.same third = true) :
    first.same third = true := by
  induction first using Ty.partsInduction generalizing second third with
  | union firsts ih =>
      cases same_iff_alike.mp firstSecond with
      | union firstLength firstIncluded =>
      cases same_iff_alike.mp secondThird with
      | union secondLength secondIncluded =>
          refine same_iff_alike.mpr
            (.union (firstLength.trans secondLength) fun first firstMem => ?_)
          obtain ⟨second, secondMem, firstSame⟩ := firstIncluded first firstMem
          obtain ⟨third, thirdMem, secondSame⟩ :=
            secondIncluded second secondMem
          exact ⟨third, thirdMem, ih first firstMem firstSame secondSame⟩
  | tuple firsts ih =>
      cases same_iff_alike.mp firstSecond with
      | tuple firstSlots =>
      cases same_iff_alike.mp secondThird with
      | tuple secondSlots =>
          refine same_iff_alike.mpr
            (.tuple (forall₂_compose ?_ firstSlots secondSlots))
          intro first firstMem second third thirdMem
          exact ih first firstMem
  | generic base firsts ih =>
      cases same_iff_alike.mp firstSecond with
      | generic firstArguments =>
      cases same_iff_alike.mp secondThird with
      | generic secondArguments =>
          refine same_iff_alike.mpr
            (.generic (forall₂_compose ?_ firstArguments secondArguments))
          intro first firstMem second third thirdMem
          exact ih first firstMem
  | results firsts ih =>
      cases same_iff_alike.mp firstSecond with
      | results firstTypes =>
      cases same_iff_alike.mp secondThird with
      | results secondTypes =>
          refine same_iff_alike.mpr
            (.results (forall₂_compose ?_ firstTypes secondTypes))
          intro first firstMem second third thirdMem
          exact ih first firstMem
  | array first ih =>
      cases same_iff_alike.mp firstSecond with
      | array firstElement =>
      cases same_iff_alike.mp secondThird with
      | array secondElement =>
          exact same_iff_alike.mpr (.array (ih firstElement secondElement))
  | variadic first ih =>
      cases same_iff_alike.mp firstSecond with
      | variadic firstElement =>
      cases same_iff_alike.mp secondThird with
      | variadic secondElement =>
          exact same_iff_alike.mpr (.variadic (ih firstElement secondElement))
  | repeating first ih =>
      cases same_iff_alike.mp firstSecond with
      | repeating firstBase =>
      cases same_iff_alike.mp secondThird with
      | repeating secondBase =>
          exact same_iff_alike.mpr (.repeating (ih firstBase secondBase))
  | _ =>
      -- A type without parts is the same as itself only.
      cases same_iff_alike.mp firstSecond
      exact secondThird

theorem distinctFrom_sublist (seen types : List Ty) :
    (distinctFrom seen types).Sublist types := by
  induction types generalizing seen with
  | nil => exact .slnil
  | cons type types ih =>
      rw [distinctFrom]
      split
      · exact (ih seen).cons type
      · exact (ih (type :: seen)).cons_cons type

theorem distinct_sublist (types : List Ty) : (distinct types).Sublist types :=
  distinctFrom_sublist [] types

theorem not_same_of_mem_distinctFrom {seen types : List Ty} {type known : Ty}
    (typeMem : type ∈ distinctFrom seen types) (knownMem : known ∈ seen) :
    type.same known = false := by
  induction types generalizing seen with
  | nil => simp [distinctFrom] at typeMem
  | cons next types ih =>
      rw [distinctFrom] at typeMem
      split at typeMem
      · exact ih typeMem knownMem
      · rename_i fresh
        rcases List.mem_cons.mp typeMem with rfl | later
        · simp only [among, List.any_eq_true, not_exists, not_and] at fresh
          simpa using fresh known knownMem
        · exact ih later (List.mem_cons_of_mem next knownMem)

/-- No kept member is the same as an earlier one. -/
theorem distinctFrom_pairwise (seen types : List Ty) :
    (distinctFrom seen types).Pairwise fun first later =>
      later.same first = false := by
  induction types generalizing seen with
  | nil => exact .nil
  | cons type types ih =>
      rw [distinctFrom]
      split
      · exact ih seen
      · refine List.pairwise_cons.mpr ⟨fun later laterMem => ?_, ih _⟩
        exact not_same_of_mem_distinctFrom laterMem List.mem_cons_self

theorem distinctFrom_eq_self {seen types : List Ty}
    (fresh : ∀ type ∈ types, ∀ known ∈ seen, type.same known = false)
    (apart : types.Pairwise fun first later => later.same first = false) :
    distinctFrom seen types = types := by
  induction types generalizing seen with
  | nil => rfl
  | cons type types ih =>
      rw [List.pairwise_cons] at apart
      have unseen : ¬ type.among seen = true := by
        simp only [among, List.any_eq_true, not_exists, not_and]
        intro known knownMem
        simp [fresh type List.mem_cons_self known knownMem]
      have restFresh : ∀ later ∈ types, ∀ known ∈ type :: seen,
          later.same known = false := by
        intro later laterMem known knownMem
        rcases List.mem_cons.mp knownMem with rfl | wasSeen
        · exact apart.1 later laterMem
        · exact fresh later (List.mem_cons_of_mem _ laterMem) known wasSeen
      rw [distinctFrom, if_neg unseen, ih restFresh apart.2]

/-- The types that can be formed: every union, at every depth, is a
`Ty.unionOf`. -/
inductive WellFormed : Ty → Prop
  | any : WellFormed .any
  | unknown : WellFormed .unknown
  | nil : WellFormed .nil
  | named (name : Name) : WellFormed (.named name)
  | union {members : List Ty}
      (parts : ∀ member ∈ members, WellFormed member) :
      WellFormed (unionOf members)
  | tuple {slots : List (Slot Ty)}
      (parts : ∀ slot ∈ slots, WellFormed slot.type) :
      WellFormed (.tuple slots)
  | array {element : Ty} (part : WellFormed element) :
      WellFormed (.array element)
  | generic {base : Name} {arguments : List Ty}
      (parts : ∀ argument ∈ arguments, WellFormed argument) :
      WellFormed (.generic base arguments)
  | stringLiteral (content : String) : WellFormed (.stringLiteral content)
  | integerLiteral (value : Int64) : WellFormed (.integerLiteral value)
  | tableLiteral (origin : Origin) : WellFormed (.tableLiteral origin)
  | docTable (origin : Origin) : WellFormed (.docTable origin)
  | variadic {element : Ty} (part : WellFormed element) :
      WellFormed (.variadic element)
  | expand (name : Name) : WellFormed (.expand name)
  | results {types : List Ty} (parts : ∀ type ∈ types, WellFormed type) :
      WellFormed (.results types)
  | repeating {base : Ty} (part : WellFormed base) :
      WellFormed (.repeating base)

theorem WellFormed.members {members : List Ty}
    (formed : WellFormed (.union members)) :
    ∀ member ∈ members, WellFormed member := by
  cases formed with
  | union parts =>
      intro member memberMem
      exact parts member ((distinct_sublist _).subset memberMem)

theorem WellFormed.members_pairwise {members : List Ty}
    (formed : WellFormed (.union members)) :
    members.Pairwise fun first later => later.same first = false := by
  cases formed with
  | union parts => exact distinctFrom_pairwise [] _

/-- Where equality can be reversed, members that are not the same have no
partner in common. -/
theorem pairwise_no_common_partner {firsts seconds : List Ty}
    (reverse : ∀ first ∈ firsts, ∀ second ∈ seconds,
      first.same second = true → second.same first = true)
    (apart : firsts.Pairwise fun first later => later.same first = false) :
    firsts.Pairwise fun first later => ∀ second ∈ seconds,
      first.same second = true → ¬ later.same second = true := by
  refine apart.imp_of_mem ?_
  intro first later firstMem laterMem different second secondMem firstSame
    laterSame
  have laterFirst : later.same first = true :=
    same_trans laterSame (reverse first firstMem second secondMem firstSame)
  exact absurd laterFirst (by simp [different])

/-- Unions that are the same match their members one to one. -/
theorem exists_matching_members {firsts seconds : List Ty}
    (reverse : ∀ first ∈ firsts, ∀ second ∈ seconds,
      first.same second = true → second.same first = true)
    (apart : firsts.Pairwise fun first later => later.same first = false)
    (lengthEq : firsts.length = seconds.length)
    (included : ∀ first ∈ firsts, ∃ second ∈ seconds,
      first.same second = true) :
    ∃ partners, partners.Perm seconds ∧
      List.Forall₂ (fun first second => first.same second = true)
        firsts partners :=
  exists_matching (pairwise_no_common_partner reverse apart) included lengthEq

theorem same_symm {first second : Ty} (firstFormed : first.WellFormed)
    (secondFormed : second.WellFormed) (same : first.same second = true) :
    second.same first = true := by
  induction first using Ty.partsInduction generalizing second with
  | union firsts ih =>
      cases same_iff_alike.mp same with
      | @union _ seconds lengthEq included =>
          have reverse : ∀ first ∈ firsts, ∀ second ∈ seconds,
              first.same second = true → second.same first = true :=
            fun first firstMem second secondMem =>
              ih first firstMem (firstFormed.members first firstMem)
                (secondFormed.members second secondMem)
          obtain ⟨partners, partnersPerm, matched⟩ :=
            exists_matching_members reverse firstFormed.members_pairwise
              lengthEq included
          refine same_iff_alike.mpr (.union lengthEq.symm ?_)
          intro second secondMem
          have partnerMem := partnersPerm.mem_iff.mpr secondMem
          obtain ⟨first, firstMem, firstSame⟩ :=
            exists_of_mem_right matched partnerMem
          exact ⟨first, firstMem,
            reverse first firstMem second secondMem firstSame⟩
  | tuple firsts ih =>
      cases same_iff_alike.mp same with
      | tuple slots =>
          cases firstFormed with
          | tuple firstParts =>
          cases secondFormed with
          | tuple secondParts =>
              refine same_iff_alike.mpr (.tuple (forall₂_reverse ?_ slots))
              intro first firstMem second secondMem
              exact ih first firstMem (firstParts first firstMem)
                (secondParts second secondMem)
  | generic base firsts ih =>
      cases same_iff_alike.mp same with
      | generic arguments =>
          cases firstFormed with
          | generic firstParts =>
          cases secondFormed with
          | generic secondParts =>
              refine same_iff_alike.mpr
                (.generic (forall₂_reverse ?_ arguments))
              intro first firstMem second secondMem
              exact ih first firstMem (firstParts first firstMem)
                (secondParts second secondMem)
  | results firsts ih =>
      cases same_iff_alike.mp same with
      | results types =>
          cases firstFormed with
          | results firstParts =>
          cases secondFormed with
          | results secondParts =>
              refine same_iff_alike.mpr (.results (forall₂_reverse ?_ types))
              intro first firstMem second secondMem
              exact ih first firstMem (firstParts first firstMem)
                (secondParts second secondMem)
  | array first ih =>
      cases same_iff_alike.mp same with
      | array element =>
          cases firstFormed with
          | array firstPart =>
          cases secondFormed with
          | array secondPart =>
              exact same_iff_alike.mpr
                (.array (ih firstPart secondPart element))
  | variadic first ih =>
      cases same_iff_alike.mp same with
      | variadic element =>
          cases firstFormed with
          | variadic firstPart =>
          cases secondFormed with
          | variadic secondPart =>
              exact same_iff_alike.mpr
                (.variadic (ih firstPart secondPart element))
  | repeating first ih =>
      cases same_iff_alike.mp same with
      | repeating base =>
          cases firstFormed with
          | repeating firstPart =>
          cases secondFormed with
          | repeating secondPart =>
              exact same_iff_alike.mpr
                (.repeating (ih firstPart secondPart base))
  | _ =>
      cases same_iff_alike.mp same
      exact same

/-- On the types that can be formed, being the same is an equivalence. -/
theorem same_equivalence :
    Equivalence fun first second : {type : Ty // type.WellFormed} =>
      first.val.same second.val = true where
  refl type := same_refl type.val
  symm {first second} same := same_symm first.property second.property same
  trans firstSecond secondThird := same_trans firstSecond secondThird

/-- Without the restriction to formed types symmetry fails: inclusion does not
notice that `A|A` repeats a member. -/
example :
    (union [.named "A", .named "A"]).same (union [.named "A", .named "B"]) =
        true ∧
      (union [.named "A", .named "B"]).same (union [.named "A", .named "A"]) =
        false := by
  decide

end Ty

end LuaTyping
