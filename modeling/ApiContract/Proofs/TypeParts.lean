import ApiContract.Proofs.IntersectionMeaning
import ApiContract.Proofs.UnionMeaning

namespace ApiContract.TypeExpr

-- What every step of putting unions and intersections into canonical form keeps. A step takes types
-- apart, drops some of them or makes one object type of two, so a property is kept if these three do.

section Parts

-- The types that stand directly in a type.
def parts : TypeExpr → List TypeExpr
  | primitive _ => []
  | literal _ => []
  | reference _ => []
  | union members => members
  | intersection members => members
  | record members => members.flatMap Member.types
  | array items => [items]
  | tuple places rest => places ++ rest.toList

theorem sizeOf_members {members : List (Member TypeExpr)} {part : TypeExpr}
    (member : part ∈ members.flatMap Member.types) : sizeOf part < sizeOf members := by
  obtain ⟨m, inside, typed⟩ := List.mem_flatMap.mp member
  have smaller := List.sizeOf_lt_of_mem inside
  cases m with
  | property p =>
    obtain ⟨name, type, optional, doc⟩ := p
    have same : part = type := List.mem_singleton.mp typed
    subst same
    simp only [Member.property.sizeOf_spec, Property.mk.sizeOf_spec] at smaller
    omega
  | index s =>
    obtain ⟨keyName, key, value⟩ := s
    simp only [Member.index.sizeOf_spec, IndexSignature.mk.sizeOf_spec] at smaller
    have either : part = key ∨ part = value := by simpa [Member.types] using typed
    rcases either with same | same
    · subst same
      omega
    · subst same
      omega

theorem sizeOf_part {type part : TypeExpr} (member : part ∈ type.parts) : sizeOf part < sizeOf type := by
  cases type with
  | primitive p => cases member
  | literal l => cases member
  | reference name => cases member
  | union members =>
    have smaller := List.sizeOf_lt_of_mem (show part ∈ members from member)
    simp only [union.sizeOf_spec]
    omega
  | intersection members =>
    have smaller := List.sizeOf_lt_of_mem (show part ∈ members from member)
    simp only [intersection.sizeOf_spec]
    omega
  | record members =>
    have smaller := sizeOf_members member
    simp only [record.sizeOf_spec]
    omega
  | array items =>
    cases List.mem_singleton.mp member
    simp only [array.sizeOf_spec]
    omega
  | tuple places rest =>
    simp only [tuple.sizeOf_spec]
    rcases List.mem_append.mp member with place | last
    · have smaller := List.sizeOf_lt_of_mem place
      omega
    · cases Option.mem_toList.mp last
      simp only [Option.some.sizeOf_spec]
      omega

theorem parts_induction {P : TypeExpr → Prop} (step : ∀ type, (∀ part ∈ type.parts, P part) → P type)
    (type : TypeExpr) : P type :=
  step type fun part _member => parts_induction step part
termination_by sizeOf type
decreasing_by exact sizeOf_part _member

theorem forall_pair {P : TypeExpr → Prop} {a b : TypeExpr} (first : P a) (second : P b) :
    ∀ type ∈ [a, b], P type :=
  List.forall_mem_cons.mpr ⟨first, List.forall_mem_singleton.mpr second⟩

theorem types_map {T U : Type} (f : T → U) (member : Member T) : (member.map f).types = member.types.map f := by
  cases member <;> rfl

end Parts

section Unions

variable {P : TypeExpr → Prop} {types : List TypeExpr} {join : TypeExpr → TypeExpr → TypeExpr}

-- The members of a union once they are flattened, and all repetitions and `never` are dropped.
def settledParts (types : List TypeExpr) : List TypeExpr :=
  collapseFlags (distinct (dropNever (unionPartsAll types)))

-- The members that are left when no two of them merge.
def unionMembers (join : TypeExpr → TypeExpr → TypeExpr) (types : List TypeExpr) : List TypeExpr :=
  mergeUpTo join (settledParts types).length (settledParts types)

theorem unionWith_eq (join : TypeExpr → TypeExpr → TypeExpr) (types : List TypeExpr) :
    unionWith join types = unionOfParts (unionMembers join types) := rfl

theorem unionParts_keep (inside : ∀ members, P (union members) → ∀ member ∈ members, P member)
    {type : TypeExpr} (holds : P type) : ∀ part ∈ unionParts type, P part := by
  induction type using parts_induction with
  | step type ih =>
    cases type with
    | union members =>
      rw [unionParts, unionPartsAll_eq]
      intro part member
      obtain ⟨inner, listed, member⟩ := List.mem_flatMap.mp member
      exact ih inner listed (inside members holds inner listed) part member
    | _ => exact List.forall_mem_singleton.mpr holds

theorem dropNever_subset {type : TypeExpr} (member : type ∈ dropNever types) : type ∈ types := by
  unfold dropNever at member
  split at member
  · exact List.mem_of_mem_filter member
  · exact member

theorem mem_collapseFlags {type : TypeExpr} (member : type ∈ collapseFlags types) :
    type ∈ types ∨ type = boolean := by
  unfold collapseFlags at member
  split at member
  · obtain ⟨old, inside, rfl⟩ := List.mem_map.mp (distinct_subset member)
    split
    · exact .inr rfl
    · exact .inl inside
  · split at member
    · exact .inl (List.mem_of_mem_filter member)
    · exact .inl member

theorem settledParts_keep (flag : P boolean)
    (inside : ∀ members, P (union members) → ∀ member ∈ members, P member)
    (all : ∀ type ∈ types, P type) : ∀ type ∈ settledParts types, P type := by
  intro type member
  rcases mem_collapseFlags member with member | rfl
  · have flat := dropNever_subset (distinct_subset member)
    rw [unionPartsAll_eq] at flat
    obtain ⟨source, listed, part⟩ := List.mem_flatMap.mp flat
    exact unionParts_keep inside (all source listed) type part
  · exact flag

-- A merge takes two of the types and leaves the others.
theorem mergeWith?_some {type merged : TypeExpr} {others : List TypeExpr}
    (found : mergeWith? join type types = some (merged, others)) :
    ∃ other ∈ types, mergePair? join type other = some merged ∧ ∀ kept ∈ others, kept ∈ types := by
  induction types generalizing others with
  | nil => cases found
  | cons other rest ih =>
    unfold mergeWith? at found
    split at found
    · rename_i result merges
      cases found
      exact ⟨other, List.mem_cons_self, merges, fun kept member => List.mem_cons_of_mem other member⟩
    · obtain ⟨⟨result, left⟩, later, equal⟩ := Option.map_eq_some_iff.mp found
      cases equal
      obtain ⟨partner, member, merges, remaining⟩ := ih later
      refine ⟨partner, List.mem_cons_of_mem other member, merges, List.forall_mem_cons.mpr ⟨?_, ?_⟩⟩
      · exact List.mem_cons_self
      · exact fun kept member => List.mem_cons_of_mem other (remaining kept member)

theorem mergeOnce?_some {merged : List TypeExpr} (found : mergeOnce? join types = some merged) :
    ∃ a ∈ types, ∃ b ∈ types, ∃ result, mergePair? join a b = some result ∧
      ∀ kept ∈ merged, kept = result ∨ kept ∈ types := by
  induction types generalizing merged with
  | nil => cases found
  | cons type rest ih =>
    unfold mergeOnce? at found
    split at found
    · rename_i result others merges
      cases found
      obtain ⟨other, member, merges, remaining⟩ := mergeWith?_some merges
      refine ⟨type, List.mem_cons_self, other, List.mem_cons_of_mem type member, result, merges, ?_⟩
      refine List.forall_mem_cons.mpr ⟨.inl rfl, ?_⟩
      exact fun kept member => .inr (List.mem_cons_of_mem type (remaining kept member))
    · obtain ⟨left, later, rfl⟩ := Option.map_eq_some_iff.mp found
      obtain ⟨a, first, b, second, result, merges, remaining⟩ := ih later
      refine ⟨a, List.mem_cons_of_mem type first, b, List.mem_cons_of_mem type second, result, merges, ?_⟩
      refine List.forall_mem_cons.mpr ⟨.inr List.mem_cons_self, ?_⟩
      exact fun kept member => (remaining kept member).imp_right (List.mem_cons_of_mem type)

theorem mergeUpTo_keep
    (merge : ∀ a b merged, mergePair? join a b = some merged → P a → P b → P merged) (steps : Nat)
    (all : ∀ type ∈ types, P type) : ∀ type ∈ mergeUpTo join steps types, P type := by
  induction steps generalizing types with
  | zero => exact all
  | succ steps ih =>
    unfold mergeUpTo
    split
    · rename_i merged once
      obtain ⟨a, first, b, second, result, merges, remaining⟩ := mergeOnce?_some once
      refine ih fun type member => ?_
      rcases remaining type (distinct_subset member) with rfl | old
      · exact merge a b _ merges (all a first) (all b second)
      · exact all type old
    · exact all

theorem unionMembers_keep (flag : P boolean)
    (inside : ∀ members, P (union members) → ∀ member ∈ members, P member)
    (merge : ∀ a b merged, mergePair? join a b = some merged → P a → P b → P merged)
    (all : ∀ type ∈ types, P type) : ∀ type ∈ unionMembers join types, P type :=
  mergeUpTo_keep merge _ (settledParts_keep flag inside all)

-- What a merge does: it joins two properties of the same name and takes the others from the first.
theorem mergePair?_some {left right merged : TypeExpr} (found : mergePair? join left right = some merged) :
    ∃ ps qs pairs, left = object ps ∧ right = object qs ∧ (ps ≠ [] ∧ ps.length = qs.length) ∧
      pairUp qs ps = some pairs ∧ (pairs.filter differs).length = 1 ∧
      merged = object (pairs.map fun pair =>
        if differs pair then joinProperty join pair.1 pair.2 else pair.1) := by
  unfold mergePair? at found
  split at found
  · rename_i ps qs leftProperties rightProperties
    split at found
    · cases found
    · rename_i long
      have sized : ps ≠ [] ∧ ps.length = qs.length := by simpa using long
      split at found
      · cases found
      · rename_i pairs paired
        split at found
        · rename_i single
          cases found
          exact ⟨ps, qs, pairs, properties?_eq leftProperties, properties?_eq rightProperties, sized, paired,
            eq_of_beq single, rfl⟩
        · cases found
  · cases found

-- Merging joins two properties of the same name; whatever is not joined is as it was.
theorem mergePair?_types {ps qs : List (Property TypeExpr)}
    {pairs : List (Property TypeExpr × Property TypeExpr)}
    (paired : pairUp qs ps = some pairs) (joins : ∀ a b, P a → P b → P (join a b))
    (left : ∀ p ∈ ps, P p.type) (right : ∀ q ∈ qs, P q.type) :
    ∀ p ∈ pairs.map (fun pair => if differs pair then joinProperty join pair.1 pair.2 else pair.1),
      P p.type := by
  refine List.forall_mem_map.mpr fun pair inside => ?_
  obtain ⟨inLeft, inRight, _⟩ := pairUp_pairs paired inside
  split
  · exact joins _ _ (left _ inLeft) (right _ inRight)
  · exact left _ inLeft

end Unions

section Intersections

variable {P : TypeExpr → Prop} {types : List TypeExpr} {meet : TypeExpr → TypeExpr → TypeExpr}

-- The operands of an intersection once they are flattened and those that ask nothing are dropped.
def keptOperands (types : List TypeExpr) : List TypeExpr :=
  distinct ((intersectionPartsAll types).filter fun type => type != unknown && type != emptyObject)

def intersectionMembers (meet : TypeExpr → TypeExpr → TypeExpr) (types : List TypeExpr) : List TypeExpr :=
  distinct (gatherProperties meet (keptOperands types))

theorem intersectionWith_eq (meet : TypeExpr → TypeExpr → TypeExpr) (types : List TypeExpr) :
    intersectionWith meet types =
      if (intersectionPartsAll types).contains never then never
      else intersectionOfParts ((intersectionPartsAll types).contains unknown)
        (intersectionMembers meet types) := rfl

theorem intersectionParts_keep
    (inside : ∀ members, P (intersection members) → ∀ member ∈ members, P member) {type : TypeExpr}
    (holds : P type) : ∀ part ∈ intersectionParts type, P part := by
  induction type using parts_induction with
  | step type ih =>
    cases type with
    | intersection members =>
      rw [intersectionParts, intersectionPartsAll_eq]
      intro part member
      obtain ⟨inner, listed, member⟩ := List.mem_flatMap.mp member
      exact ih inner listed (inside members holds inner listed) part member
    | _ => exact List.forall_mem_singleton.mpr holds

theorem keptOperands_subset {type : TypeExpr} (member : type ∈ keptOperands types) :
    type ∈ intersectionPartsAll types := List.mem_of_mem_filter (distinct_subset member)

theorem keptOperands_keep
    (inside : ∀ members, P (intersection members) → ∀ member ∈ members, P member)
    (all : ∀ type ∈ types, P type) : ∀ type ∈ keptOperands types, P type := by
  intro type member
  have flat := keptOperands_subset member
  rw [intersectionPartsAll_eq] at flat
  obtain ⟨source, listed, part⟩ := List.mem_flatMap.mp flat
  exact intersectionParts_keep inside (all source listed) type part

theorem gathered_keep
    (add : ∀ ps qs, P (object ps) → P (object qs) → P (object (addProperties meet ps qs)))
    {ps : List (Property TypeExpr)} {groups : List (List (Property TypeExpr))} (first : P (object ps))
    (others : ∀ qs ∈ groups, P (object qs)) : P (object (groups.foldl (addProperties meet) ps)) := by
  induction groups generalizing ps with
  | nil => exact first
  | cons qs rest ih =>
    obtain ⟨next, later⟩ := List.forall_mem_cons.mp others
    exact ih (add ps qs first next) later

theorem gatherProperties_keep
    (add : ∀ ps qs, P (object ps) → P (object qs) → P (object (addProperties meet ps qs)))
    (all : ∀ type ∈ types, P type) : ∀ type ∈ gatherProperties meet types, P type := by
  induction types with
  | nil => exact all
  | cons type rest ih =>
    obtain ⟨first, later⟩ := List.forall_mem_cons.mp all
    unfold gatherProperties
    split
    · exact List.forall_mem_cons.mpr ⟨first, ih later⟩
    · rename_i ps found
      rw [properties?_eq found] at first
      refine List.forall_mem_cons.mpr ⟨gathered_keep add first ?_, ?_⟩
      · intro qs member
        obtain ⟨other, inside, isObject⟩ := List.mem_filterMap.mp member
        exact properties?_eq isObject ▸ later other inside
      · exact fun other member => later other (List.mem_of_mem_filter member)

theorem intersectionMembers_keep
    (inside : ∀ members, P (intersection members) → ∀ member ∈ members, P member)
    (add : ∀ ps qs, P (object ps) → P (object qs) → P (object (addProperties meet ps qs)))
    (all : ∀ type ∈ types, P type) : ∀ type ∈ intersectionMembers meet types, P type :=
  fun type member => gatherProperties_keep add (keptOperands_keep inside all) type (distinct_subset member)

-- What adding properties to others does to each of them, and to how they are called.
theorem addProperties_keep {Q : Property TypeExpr → Prop} (combine : ∀ p q, Q p → Q q → Q (meetProperty meet p q))
    {ps qs : List (Property TypeExpr)} (first : ∀ p ∈ ps, Q p) (second : ∀ q ∈ qs, Q q) :
    ∀ p ∈ addProperties meet ps qs, Q p := by
  have add (q : Property TypeExpr) (holds : Q q) (ps : List (Property TypeExpr)) (all : ∀ p ∈ ps, Q p) :
      ∀ p ∈ addProperty meet q ps, Q p := by
    induction ps with
    | nil => exact List.forall_mem_singleton.mpr holds
    | cons p rest ih =>
      obtain ⟨here, later⟩ := List.forall_mem_cons.mp all
      unfold addProperty
      split
      · exact List.forall_mem_cons.mpr ⟨combine p q here holds, later⟩
      · exact List.forall_mem_cons.mpr ⟨here, ih later⟩
  unfold addProperties
  induction qs generalizing ps with
  | nil => exact first
  | cons q rest ih =>
    obtain ⟨next, later⟩ := List.forall_mem_cons.mp second
    exact ih (add q next ps first) later

end Intersections

end ApiContract.TypeExpr
