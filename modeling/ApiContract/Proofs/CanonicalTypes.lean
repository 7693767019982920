import ApiContract.Proofs.DistinctProperties
import ApiContract.Proofs.ReducedTypes
import ApiContract.TypeExpr.OfSchema
import Mathlib.Data.List.Nodup
import Mathlib.Data.List.Perm.Subperm
import Mathlib.Data.Prod.Basic

namespace ApiContract

namespace TypeExpr

-- The form that all types of the output have, at every depth.

section Form

structure CanonicalUnion (members : List TypeExpr) : Prop where
  several : 2 ≤ members.length
  flat : ∀ inner, union inner ∉ members
  possible : never ∉ members
  differ : members.Pairwise fun a b => (a == b) = false ∧ (b == a) = false
  flags : ¬ (flag true ∈ members ∧ flag false ∈ members)
  absorbed : boolean ∈ members → ∀ b, flag b ∉ members
  -- No two object types are left that differ in one property only.
  merged : members.Pairwise fun a b =>
    mergePair? (fun a b => unionOf [a, b]) a b = none ∧ mergePair? (fun a b => unionOf [a, b]) b a = none

structure CanonicalIntersection (members : List TypeExpr) : Prop where
  several : 2 ≤ members.length
  flat : ∀ inner, intersection inner ∉ members
  possible : never ∉ members
  known : unknown ∉ members
  asking : emptyObject ∉ members
  differ : members.Pairwise fun a b => (a == b) = false ∧ (b == a) = false
  single : members.Pairwise fun a b => a.properties? = none ∨ b.properties? = none

-- What is asked of a type apart from its parts.
def Tidy : TypeExpr → Prop
  | union members => CanonicalUnion members
  | intersection members => CanonicalIntersection members
  | record members => (keys (record members)).Nodup
  | _ => True

inductive Canonical : TypeExpr → Prop where
  | intro {type : TypeExpr} (tidy : Tidy type) (inside : ∀ part ∈ type.parts, Canonical part) :
      Canonical type

theorem Canonical.tidy {type : TypeExpr} (canonical : Canonical type) : Tidy type := by
  cases canonical with
  | intro tidy _ => exact tidy

theorem Canonical.inside {type : TypeExpr} (canonical : Canonical type) :
    ∀ part ∈ type.parts, Canonical part := by
  cases canonical with
  | intro _ inside => exact inside

theorem canonical_primitive (p : Primitive) : Canonical (primitive p) := .intro trivial (List.forall_mem_nil _)

theorem canonical_literal (l : Literal) : Canonical (literal l) := .intro trivial (List.forall_mem_nil _)

theorem canonical_reference (name : String) : Canonical (reference name) :=
  .intro trivial (List.forall_mem_nil _)

theorem canonical_object {ps : List (Property TypeExpr)} :
    Canonical (object ps) ↔ (ps.map Property.name).Nodup ∧ ∀ p ∈ ps, Canonical p.type := by
  have inside : (∀ part ∈ (object ps).parts, Canonical part) ↔ ∀ p ∈ ps, Canonical p.type := by
    show (∀ part ∈ (ps.map Member.property).flatMap Member.types, Canonical part) ↔ _
    rw [List.flatMap_map, List.forall_mem_flatMap]
    exact forall₂_congr fun p _ => List.forall_mem_singleton
  rw [← keys_object, ← inside]
  exact ⟨fun canonical => ⟨canonical.tidy, canonical.inside⟩, fun both => .intro both.1 both.2⟩

end Form

section Nesting

theorem foldr_max_le {sizes : List Nat} {n : Nat} : sizes.foldr max 0 ≤ n ↔ ∀ size ∈ sizes, size ≤ n := by
  induction sizes with
  | nil => simp
  | cons size rest ih => rw [List.foldr_cons, Nat.max_le, ih, List.forall_mem_cons]

theorem nestingAll_le {types : List TypeExpr} {n : Nat} :
    nestingAll types ≤ n ↔ ∀ type ∈ types, nesting type ≤ n := by
  rw [nestingAll, foldr_max_le, List.forall_mem_map]

theorem nesting_union {members : List TypeExpr} {n : Nat} :
    nesting (union members) ≤ n ↔ ∀ member ∈ members, nesting member ≤ n := by
  rw [← nestingAll_le, nesting, fold_eq]
  rfl

theorem nesting_intersection {members : List TypeExpr} {n : Nat} :
    nesting (intersection members) ≤ n ↔ ∀ member ∈ members, nesting member ≤ n := by
  rw [← nestingAll_le, nesting, fold_eq]
  rfl

theorem nesting_object {ps : List (Property TypeExpr)} {n : Nat} :
    nesting (object ps) ≤ n ↔ ∃ level, n = level + 1 ∧ ∀ p ∈ ps, nesting p.type ≤ level := by
  have types : ((ps.map Member.property).map (Member.map nesting)).flatMap Member.types
      = ps.map fun p => nesting p.type := by
    induction ps with
    | nil => rfl
    | cons p rest ih => exact congrArg (nesting p.type :: ·) ih
  have equal : nesting (object ps)
      = 1 + (((ps.map Member.property).map (Member.map nesting)).flatMap Member.types).foldr max 0 :=
    fold_eq _ (object ps)
  rw [equal, types]
  constructor
  · intro small
    refine ⟨n - 1, by omega, List.forall_mem_map.mp (foldr_max_le.mp ?_)⟩
    omega
  · rintro ⟨level, rfl, each⟩
    have small := foldr_max_le.mpr (List.forall_mem_map.mpr each)
    omega

end Nesting

-- Whether two object types merge does not depend on which of them comes first.
section Order

theorem differs_swap (pair : Property TypeExpr × Property TypeExpr) : differs pair.swap = differs pair := by
  have types : (pair.2.type == pair.1.type) = (pair.1.type == pair.2.type) :=
    Bool.eq_iff_iff.mpr ⟨same_symm, same_symm⟩
  unfold differs
  rw [Prod.fst_swap, Prod.snd_swap, bne, bne, types, bne, bne, BEq.comm (a := pair.2.optional)]

theorem pairUp_left {right ps : List (Property TypeExpr)}
    {pairs : List (Property TypeExpr × Property TypeExpr)} (paired : pairUp right ps = some pairs) :
    pairs.map Prod.fst = ps := by
  induction ps generalizing pairs with
  | nil => cases paired; rfl
  | cons p rest ih =>
    rw [pairUp] at paired
    split at paired
    · rename_i later
      cases paired
      rw [List.map_cons, ih later]
    · cases paired

theorem pairUp_subset {ps qs : List (Property TypeExpr)} {pairs : List (Property TypeExpr × Property TypeExpr)}
    (paired : pairUp qs ps = some pairs) : ps.map Property.name ⊆ qs.map Property.name := by
  intro name member
  rw [← pairUp_left paired, List.map_map] at member
  obtain ⟨pair, inside, rfl⟩ := List.mem_map.mp member
  obtain ⟨_, right, named⟩ := pairUp_pairs paired inside
  exact List.mem_map.mpr ⟨pair.2, right, named⟩

theorem pairUp_succeeds {right ps : List (Property TypeExpr)}
    (named : ∀ p ∈ ps, p.name ∈ right.map Property.name) : ∃ pairs, pairUp right ps = some pairs := by
  induction ps with
  | nil => exact ⟨[], rfl⟩
  | cons p rest ih =>
    obtain ⟨first, later⟩ := List.forall_mem_cons.mp named
    obtain ⟨pairs, paired⟩ := ih later
    obtain ⟨q, member, equal⟩ := List.mem_map.mp first
    cases found : right.find? fun q => q.name == p.name with
    | none => simpa [equal] using List.find?_eq_none.mp found q member
    | some partner => exact ⟨(p, partner) :: pairs, by rw [pairUp, found, paired]⟩

-- Pairing up from the other side gives the same pairs, turned around and maybe in another order.
theorem pairUp_perm {ps qs : List (Property TypeExpr)} {pairs : List (Property TypeExpr × Property TypeExpr)}
    (leftNames : (ps.map Property.name).Nodup) (rightNames : (qs.map Property.name).Nodup)
    (sized : ps.length = qs.length) (paired : pairUp qs ps = some pairs) :
    ∃ others, pairUp ps qs = some others ∧ others.Perm (pairs.map Prod.swap) := by
  have fst := pairUp_left paired
  have same := (List.subperm_of_subset leftNames (pairUp_subset paired)).perm_of_length_le (by simp [sized])
  obtain ⟨others, back⟩ := pairUp_succeeds fun q member => same.mem_iff.mpr (List.mem_map_of_mem member)
  have partner {p q : Property TypeExpr} (inLeft : p ∈ ps) (inRight : q ∈ qs) (named : p.name = q.name) :
      (p, q) ∈ pairs := by
    rw [← fst] at inLeft
    obtain ⟨⟨_, found⟩, inside, rfl⟩ := List.mem_map.mp inLeft
    obtain ⟨_, right, equal⟩ := pairUp_pairs paired inside
    have only : found = q := List.inj_on_of_nodup_map rightNames right inRight (equal.trans named)
    exact only ▸ inside
  refine ⟨others, back, (List.perm_ext_iff_of_nodup ?_ ?_).mpr ?_⟩
  · exact List.Nodup.of_map Prod.fst (pairUp_left back ▸ rightNames.of_map)
  · exact (List.Nodup.of_map Prod.fst (fst ▸ leftNames.of_map)).map Prod.swap_injective
  · rintro ⟨q, p⟩
    have turned : (q, p) ∈ pairs.map Prod.swap ↔ (p, q) ∈ pairs :=
      List.mem_map_of_injective Prod.swap_injective (a := (p, q))
    rw [turned]
    constructor
    · intro inside
      obtain ⟨inRight, inLeft, named⟩ := pairUp_pairs back inside
      exact partner inLeft inRight named
    · intro inside
      obtain ⟨inLeft, inRight, named⟩ := pairUp_pairs paired inside
      have listed : q ∈ others.map Prod.fst := (pairUp_left back).symm ▸ inRight
      obtain ⟨⟨_, found⟩, member, rfl⟩ := List.mem_map.mp listed
      obtain ⟨_, left, equal⟩ := pairUp_pairs back member
      have only : found = p := List.inj_on_of_nodup_map leftNames left inLeft (equal.trans named)
      exact only ▸ member

theorem properties?_object (ps : List (Property TypeExpr)) : (object ps).properties? = some ps := by
  have all : propertiesOf? (ps.map Member.property) = some ps := by
    induction ps with
    | nil => rfl
    | cons p rest ih => rw [List.map_cons, propertiesOf?, ih, Option.map_some]
  exact all

theorem mergePair?_symm {join : TypeExpr → TypeExpr → TypeExpr} {a b : TypeExpr} (first : (keys a).Nodup)
    (second : (keys b).Nodup) (none : mergePair? join a b = none) : mergePair? join b a = .none := by
  cases merges : mergePair? join b a with
  | none => rfl
  | some merged =>
    obtain ⟨qs, ps, pairs, rfl, rfl, ⟨some, sized⟩, paired, single, _⟩ := mergePair?_some merges
    rw [keys_object] at first second
    obtain ⟨others, back, turned⟩ := pairUp_perm second first sized paired
    have count : (others.filter differs).length = 1 := by
      rw [(turned.filter differs).length_eq, List.filter_map, List.length_map, ← single]
      exact congrArg (fun keep => (pairs.filter keep).length) (funext differs_swap)
    have long : ¬ (ps.isEmpty || ps.length != qs.length) = true := by
      have present : ps ≠ [] := by
        rintro rfl
        exact some (List.length_eq_zero_iff.mp sized)
      simp [present, sized]
    unfold mergePair? at none
    simp only [properties?_object, if_neg long, back, count, beq_self_eq_true, if_true] at none
    cases none

end Order

-- Canonical members give a canonical union, if the properties of two object types that merge are less
-- deeply nested than the level. At level zero there are no object types.
section Unions

variable {types : List TypeExpr}

theorem unionOfParts_canonical (reduced : UnionReduced types) (all : ∀ type ∈ types, Canonical type) :
    Canonical (unionOfParts types) := by
  have form (several : 2 ≤ types.length) : Canonical (union types) := by
    refine .intro ⟨several, ?_, ?_, ?_, reduced.flags, ?_, ?_⟩ all
    · exact fun inner member => reduced.flat _ member inner rfl
    · intro member
      rw [reduced.alone member] at several
      simp at several
    · exact reduced.differ.imp fun differ => ⟨differ, beq_symm differ⟩
    · exact fun found b member => Bool.noConfusion (reduced.absorbed found _ member)
    · have named : ∀ type ∈ types, (keys type).Nodup := by
        intro type member
        have tidy := (all type member).tidy
        cases type with
        | record members => exact tidy
        | _ => exact List.nodup_nil
      refine reduced.apart.imp_of_mem fun {a b} inside among apart => ⟨apart _, ?_⟩
      exact mergePair?_symm (named a inside) (named b among) (apart _)
  match types with
  | [] => exact canonical_primitive _
  | [type] => exact all type (List.mem_singleton_self _)
  | first :: second :: rest => exact form (by simp)

theorem unionOfParts_nesting {n : Nat} (all : ∀ type ∈ types, nesting type ≤ n) :
    nesting (unionOfParts types) ≤ n := by
  unfold unionOfParts
  split
  · exact Nat.zero_le n
  · exact all _ (List.mem_singleton_self _)
  · exact nesting_union.mpr all

theorem mergePair?_names {join : TypeExpr → TypeExpr → TypeExpr} {ps qs : List (Property TypeExpr)}
    {pairs : List (Property TypeExpr × Property TypeExpr)} (paired : pairUp qs ps = some pairs) :
    (pairs.map fun pair => if differs pair then joinProperty join pair.1 pair.2 else pair.1).map Property.name
      = ps.map Property.name := by
  rw [← pairUp_left paired, List.map_map, List.map_map]
  refine List.map_congr_left fun pair _ => ?_
  show (if differs pair then joinProperty join pair.1 pair.2 else pair.1).name = pair.1.name
  split <;> rfl

-- Canonical, with object types nested at most as deep as the level.
def Fits (level : Nat) (type : TypeExpr) : Prop := Canonical type ∧ nesting type ≤ level

theorem fits_object {ps : List (Property TypeExpr)} {level : Nat} :
    Fits level (object ps) ↔
      ∃ below, level = below + 1 ∧ (ps.map Property.name).Nodup ∧ ∀ p ∈ ps, Fits below p.type := by
  unfold Fits
  rw [canonical_object, nesting_object]
  constructor
  · rintro ⟨⟨names, types⟩, below, rfl, small⟩
    exact ⟨below, rfl, names, fun p member => ⟨types p member, small p member⟩⟩
  · rintro ⟨below, rfl, names, each⟩
    exact ⟨⟨names, fun p member => (each p member).1⟩, below, rfl, fun p member => (each p member).2⟩

theorem unionWith_fits {join : TypeExpr → TypeExpr → TypeExpr} {level : Nat}
    (merge : ∀ a b merged, mergePair? join a b = some merged → Fits level a → Fits level b →
      Fits level merged) (all : ∀ type ∈ types, Fits level type) : Fits level (unionWith join types) := by
  have members : ∀ type ∈ unionMembers join types, Fits level type :=
    unionMembers_keep ⟨canonical_primitive _, Nat.zero_le level⟩
      (fun members canonical member inside =>
        ⟨canonical.1.inside member inside, nesting_union.mp canonical.2 member inside⟩) merge all
  rw [unionWith_eq]
  refine ⟨unionOfParts_canonical (unionMembers_reduced join types) fun type member => (members type member).1, ?_⟩
  exact unionOfParts_nesting fun type member => (members type member).2

theorem unionAt_fits (level : Nat) (all : ∀ type ∈ types, Fits level type) :
    Fits level (unionAt level types) := by
  induction level generalizing types with
  | zero =>
    refine unionWith_fits ?_ all
    intro a b merged merges first
    obtain ⟨ps, qs, pairs, rfl, _⟩ := mergePair?_some merges
    obtain ⟨below, equal, _⟩ := fits_object.mp first
    cases equal
  | succ level ih =>
    refine unionWith_fits ?_ all
    intro a b merged merges first second
    obtain ⟨ps, qs, pairs, rfl, rfl, _, paired, _, rfl⟩ := mergePair?_some merges
    obtain ⟨_, equal, names, left⟩ := fits_object.mp first
    cases equal
    obtain ⟨_, equal, _, right⟩ := fits_object.mp second
    cases equal
    refine fits_object.mpr ⟨level, rfl, ?_, mergePair?_types paired ?_ left right⟩
    · rw [mergePair?_names paired]
      exact names
    · exact fun a b first second => ih (forall_pair first second)

theorem unionOf_canonical (all : ∀ type ∈ types, Canonical type) : Canonical (unionOf types) :=
  (unionAt_fits _ fun type member => ⟨all type member, nestingAll_le.mp (Nat.le_refl _) type member⟩).1

end Unions

section Intersections

variable {types : List TypeExpr}

theorem intersectionOfParts_canonical (sawUnknown : Bool) (reduced : IntersectionReduced types)
    (all : ∀ type ∈ types, Canonical type) : Canonical (intersectionOfParts sawUnknown types) := by
  have form (several : 2 ≤ types.length) : Canonical (intersection types) := by
    refine .intro ⟨several, ?_, reduced.possible, reduced.known, reduced.asking, ?_, reduced.single⟩ all
    · exact fun inner member => reduced.flat _ member inner rfl
    · exact reduced.differ.imp fun differ => ⟨differ, beq_symm differ⟩
  match types with
  | [] =>
    cases sawUnknown with
    | true => exact canonical_primitive _
    | false => exact .intro List.nodup_nil (List.forall_mem_nil _)
  | [type] => exact all type (List.mem_singleton_self _)
  | first :: second :: rest => exact form (by simp)

theorem mem_addProperty {meet : TypeExpr → TypeExpr → TypeExpr} {q : Property TypeExpr}
    {ps : List (Property TypeExpr)} {name : String}
    (member : name ∈ (addProperty meet q ps).map Property.name) :
    name = q.name ∨ name ∈ ps.map Property.name := by
  induction ps with
  | nil => exact .inl (List.mem_singleton.mp member)
  | cons p rest ih =>
    unfold addProperty at member
    split at member
    · exact .inr member
    · rcases List.mem_cons.mp member with rfl | later
      · exact .inr List.mem_cons_self
      · exact (ih later).imp_right (List.mem_cons_of_mem _)

theorem addProperties_names {meet : TypeExpr → TypeExpr → TypeExpr} {ps : List (Property TypeExpr)}
    (qs : List (Property TypeExpr)) (names : (ps.map Property.name).Nodup) :
    ((addProperties meet ps qs).map Property.name).Nodup := by
  have add (q : Property TypeExpr) (ps : List (Property TypeExpr)) (names : (ps.map Property.name).Nodup) :
      ((addProperty meet q ps).map Property.name).Nodup := by
    induction ps with
    | nil => exact List.nodup_singleton _
    | cons p rest ih =>
      obtain ⟨absent, later⟩ := List.nodup_cons.mp names
      unfold addProperty
      split
      · exact names
      · rename_i different
        refine List.nodup_cons.mpr ⟨fun member => ?_, ih later⟩
        rcases mem_addProperty member with equal | old
        · exact different (beq_iff_eq.mpr equal)
        · exact absent old
  unfold addProperties
  induction qs generalizing ps with
  | nil => exact names
  | cons q rest ih => exact ih (add q ps names)

theorem intersectionParts_ne_nil {type : TypeExpr} (canonical : Canonical type) : intersectionParts type ≠ [] := by
  induction type using parts_induction with
  | step type ih =>
    cases type with
    | intersection members =>
      have several := CanonicalIntersection.several canonical.tidy
      cases members with
      | nil => simp at several
      | cons first rest =>
        rw [intersectionParts, intersectionPartsAll]
        have some := ih first List.mem_cons_self (canonical.inside first List.mem_cons_self)
        exact fun empty => some (List.append_eq_nil_iff.mp empty).1
    | _ => exact List.cons_ne_nil _ _

-- Nothing is left only of operands that ask nothing.
theorem intersectionMembers_nil {meet : TypeExpr → TypeExpr → TypeExpr}
    (none : intersectionMembers meet types = []) :
    ∀ part ∈ intersectionPartsAll types, part = unknown ∨ part = emptyObject := by
  have ungathered {xs : List TypeExpr} (empty : gatherProperties meet xs = []) : xs = [] := by
    cases xs with
    | nil => rfl
    | cons x rest =>
      unfold gatherProperties at empty
      split at empty <;> cases empty
  intro part member
  have dropped := List.filter_eq_nil_iff.mp (distinct_eq_nil (ungathered (distinct_eq_nil none))) part member
  rw [asks_iff] at dropped
  by_cases unasked : part = unknown
  · exact .inl unasked
  · exact .inr (Classical.byContradiction fun other => dropped ⟨unasked, other⟩)

theorem intersectionWith_fits {meet : TypeExpr → TypeExpr → TypeExpr} {level : Nat}
    (add : ∀ ps qs, Fits level (object ps) → Fits level (object qs) →
      Fits level (object (addProperties meet ps qs)))
    (all : ∀ type ∈ types, Fits level type) :
    Canonical (intersectionWith meet types) ∧ (types ≠ [] → nesting (intersectionWith meet types) ≤ level) := by
  have inside : ∀ members, Fits level (intersection members) → ∀ member ∈ members, Fits level member :=
    fun members fits member listed =>
      ⟨fits.1.inside member listed, nesting_intersection.mp fits.2 member listed⟩
  have members : ∀ type ∈ intersectionMembers meet types, Fits level type :=
    intersectionMembers_keep inside add all
  rw [intersectionWith_eq]
  split
  · exact ⟨canonical_primitive _, fun _ => Nat.zero_le level⟩
  · rename_i possible
    refine ⟨intersectionOfParts_canonical _ (intersectionMembers_reduced meet possible)
      fun type member => (members type member).1, ?_⟩
    intro some
    unfold intersectionOfParts
    split
    · rename_i none
      split
      · exact Nat.zero_le level
      · rename_i unknownFree
        -- some operand is left that is not `unknown`, so it is the empty object type
        obtain ⟨type, listed⟩ := List.exists_mem_of_ne_nil types some
        obtain ⟨part, member⟩ := List.exists_mem_of_ne_nil _ (intersectionParts_ne_nil (all type listed).1)
        have fits := intersectionParts_keep inside (all type listed) part member
        have among : part ∈ intersectionPartsAll types := by
          rw [intersectionPartsAll_eq]
          exact List.mem_flatMap.mpr ⟨type, listed, member⟩
        rcases intersectionMembers_nil none part among with rfl | rfl
        · exact absurd (contains_of_mem among) unknownFree
        · exact fits.2
    · rename_i type single
      exact (members type (single ▸ List.mem_singleton_self type)).2
    · exact nesting_intersection.mpr fun type member => (members type member).2

theorem intersectionAt_fits (level : Nat) (all : ∀ type ∈ types, Fits level type) :
    Canonical (intersectionAt level types) ∧ (types ≠ [] → nesting (intersectionAt level types) ≤ level) := by
  induction level generalizing types with
  | zero =>
    refine intersectionWith_fits ?_ all
    intro ps qs first
    obtain ⟨below, equal, _⟩ := fits_object.mp first
    cases equal
  | succ level ih =>
    refine intersectionWith_fits ?_ all
    intro ps qs first second
    obtain ⟨_, equal, names, left⟩ := fits_object.mp first
    cases equal
    obtain ⟨_, equal, _, right⟩ := fits_object.mp second
    cases equal
    refine fits_object.mpr ⟨level, rfl, addProperties_names qs names, addProperties_keep ?_ left right⟩
    intro p q first second
    obtain ⟨canonical, small⟩ := ih (forall_pair first second)
    exact ⟨canonical, small (List.cons_ne_nil _ _)⟩

theorem intersectionOf_canonical (all : ∀ type ∈ types, Canonical type) : Canonical (intersectionOf types) :=
  (intersectionAt_fits _ fun type member => ⟨all type member, nestingAll_le.mp (Nat.le_refl _) type member⟩).1

end Intersections

end TypeExpr

-- Schemas whose objects declare no property twice have canonical types.
section Schemas

namespace TypeExpr

variable {typed : Node → TypeExpr}

theorem ofObject_canonical {o : ObjectShape (Node × TypeExpr)} (names : (Keyed.keys o.properties).Nodup)
    (declared : ∀ property ∈ o.properties, Canonical property.2.2) (others : Canonical o.additional.2) :
    Canonical (ofObject o) := by
  refine intersectionOf_canonical (List.forall_mem_cons.mpr ⟨canonical_object.mpr ⟨?_, ?_⟩, ?_⟩)
  · rw [List.map_map]
    exact names
  · exact List.forall_mem_map.mpr declared
  · split
    · exact List.forall_mem_nil _
    · refine List.forall_mem_singleton.mpr (.intro List.nodup_nil ?_)
      exact forall_pair (canonical_primitive _) others

theorem ofLiterals_canonical (values : List Json) : Canonical (ofLiterals values) := by
  refine unionOf_canonical (List.forall_mem_map.mpr fun value _ => ?_)
  cases Literal.ofJson? value with
  | none => exact canonical_primitive _
  | some l => exact canonical_literal l

theorem ofScalar_canonical (scalar : Scalar) : Canonical (ofScalar scalar) := by
  unfold ofScalar
  split
  · split <;> exact canonical_primitive _
  · exact canonical_primitive _
  · exact canonical_primitive _
  · exact canonical_primitive _
  · exact canonical_literal _

theorem ofArray_canonical {a : ArrayShape Node}
    (children : ∀ child ∈ (Shape.array a).children, Canonical (typed child)) :
    Canonical (ofShape ((Shape.array a).map fun child => (child, typed child))) := by
  obtain ⟨items, places, low, high, unique⟩ := a
  obtain ⟨inPlaces, inItems⟩ := List.forall_mem_append.mp children
  have last : Canonical (typed items) := inItems items (List.mem_singleton_self _)
  cases places with
  | none => exact .intro trivial (List.forall_mem_singleton.mpr last)
  | some places =>
    refine .intro trivial (List.forall_mem_append.mpr ⟨?_, ?_⟩)
    · rw [List.map_map]
      exact List.forall_mem_map.mpr inPlaces
    · intro part member
      split at member
      · cases member
      · exact List.mem_singleton.mp member ▸ last

theorem ofShape_canonical {shape : Shape Node}
    (names : ∀ o, shape = .object o → (Keyed.keys o.properties).Nodup)
    (children : ∀ child ∈ shape.children, Canonical (typed child)) :
    Canonical (ofShape (shape.map fun child => (child, typed child))) := by
  cases shape with
  | bool value => cases value <;> exact canonical_primitive _
  | ref name => exact canonical_reference name
  | scalar scalar => exact ofScalar_canonical scalar
  | array a => exact ofArray_canonical children
  | object o =>
    obtain ⟨declared, others⟩ := List.forall_mem_append.mp children
    refine ofObject_canonical ?_ ?_ (others _ (List.mem_singleton_self _))
    · have same : Keyed.keys (o.properties.map fun property => (property.1, property.2, typed property.2))
          = Keyed.keys o.properties := by
        rw [Keyed.keys, List.map_map]
        rfl
      exact same ▸ names o rfl
    · exact List.forall_mem_map.mpr fun property member => declared _ (List.mem_map_of_mem member)
  | composition op branches =>
    have all : ∀ type ∈ (branches.map fun node => (node, typed node)).map Prod.snd, Canonical type := by
      rw [List.map_map]
      exact List.forall_mem_map.mpr children
    cases op with
    | oneOf => exact unionOf_canonical all
    | anyOf => exact unionOf_canonical all
    | allOf => exact intersectionOf_canonical all
  | const value => exact ofLiterals_canonical [value]
  | enum values => exact ofLiterals_canonical values

theorem orNull_canonical (nullable : Bool) {type : TypeExpr} (canonical : Canonical type) :
    Canonical (type.orNull nullable) := by
  unfold orNull
  split
  · exact unionOf_canonical (forall_pair canonical (canonical_literal _))
  · exact canonical

theorem ofNode_canonical {node : Node} (names : node.DistinctNames) : Canonical (ofNode node) := by
  induction node using Node.children_induction with
  | step node ih =>
    obtain ⟨own, below⟩ := Node.distinctNames_iff.mp names
    rw [ofNode, Node.foldPaired_eq]
    refine orNull_canonical node.nullable ?_
    cases node.target? with
    | some name => exact canonical_reference name
    | none => exact ofShape_canonical own fun child member => ih child member (below child member)

theorem expanded_canonical {node : Node} (names : node.DistinctNames) : Canonical (expanded node) := by
  obtain ⟨own, below⟩ := Node.distinctNames_iff.mp names
  refine orNull_canonical node.nullable (ofShape_canonical own ?_)
  exact fun child member => ofNode_canonical (below child member)

end TypeExpr

end Schemas

end ApiContract
