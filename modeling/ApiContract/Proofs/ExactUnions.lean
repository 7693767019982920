import ApiContract.Proofs.CanonicalTypes

namespace ApiContract.TypeExpr

-- The canonical union holds of nothing that no member holds of. The one step that could add values is
-- a merge: it lets the properties of two object types vary apart from each other. It adds none because
-- only one property differs, and because no object type declares a key twice.

section Keys

-- At every depth, the keys of an object type are distinct.
inductive DistinctKeys : TypeExpr → Prop where
  | intro {type : TypeExpr} (own : (keys type).Nodup) (inside : ∀ part ∈ type.parts, DistinctKeys part) :
      DistinctKeys type

theorem DistinctKeys.own {type : TypeExpr} (distinct : DistinctKeys type) : (keys type).Nodup := by
  cases distinct with
  | intro own _ => exact own

theorem DistinctKeys.inside {type : TypeExpr} (distinct : DistinctKeys type) :
    ∀ part ∈ type.parts, DistinctKeys part := by
  cases distinct with
  | intro _ inside => exact inside

theorem Canonical.distinctKeys {type : TypeExpr} (canonical : Canonical type) : DistinctKeys type := by
  induction canonical with
  | @intro type tidy _ ih =>
    refine .intro ?_ ih
    cases type with
    | record members => exact tidy
    | _ => exact List.nodup_nil

theorem distinctKeys_primitive (p : Primitive) : DistinctKeys (primitive p) :=
  (canonical_primitive p).distinctKeys

theorem distinctKeys_union {members : List TypeExpr} :
    DistinctKeys (union members) ↔ ∀ member ∈ members, DistinctKeys member := by
  constructor
  · exact DistinctKeys.inside
  · intro all
    exact .intro List.nodup_nil all

theorem distinctKeys_object {ps : List (Property TypeExpr)} :
    DistinctKeys (object ps) ↔ (ps.map Property.name).Nodup ∧ ∀ p ∈ ps, DistinctKeys p.type := by
  have inside : (∀ part ∈ (object ps).parts, DistinctKeys part) ↔ ∀ p ∈ ps, DistinctKeys p.type := by
    show (∀ part ∈ (ps.map Member.property).flatMap Member.types, DistinctKeys part) ↔ _
    rw [List.flatMap_map, List.forall_mem_flatMap]
    exact forall₂_congr fun p _ => List.forall_mem_singleton
  rw [← keys_object, ← inside]
  exact ⟨fun distinct => ⟨distinct.own, distinct.inside⟩, fun both => .intro both.1 both.2⟩

theorem mergePair?_distinctKeys {join : TypeExpr → TypeExpr → TypeExpr} {a b merged : TypeExpr}
    (joins : ∀ a b, DistinctKeys a → DistinctKeys b → DistinctKeys (join a b))
    (merges : mergePair? join a b = some merged) (first : DistinctKeys a) (second : DistinctKeys b) :
    DistinctKeys merged := by
  obtain ⟨ps, qs, pairs, rfl, rfl, _, paired, _, rfl⟩ := mergePair?_some merges
  obtain ⟨names, left⟩ := distinctKeys_object.mp first
  obtain ⟨_, right⟩ := distinctKeys_object.mp second
  refine distinctKeys_object.mpr ⟨?_, mergePair?_types paired joins left right⟩
  rw [mergePair?_names paired]
  exact names

theorem unionOfParts_distinctKeys {types : List TypeExpr} (all : ∀ type ∈ types, DistinctKeys type) :
    DistinctKeys (unionOfParts types) := by
  unfold unionOfParts
  split
  · exact distinctKeys_primitive _
  · exact all _ (List.mem_singleton_self _)
  · exact distinctKeys_union.mpr all

theorem unionWith_distinctKeys {join : TypeExpr → TypeExpr → TypeExpr} {types : List TypeExpr}
    (joins : ∀ a b, DistinctKeys a → DistinctKeys b → DistinctKeys (join a b))
    (all : ∀ type ∈ types, DistinctKeys type) : DistinctKeys (unionWith join types) := by
  rw [unionWith_eq]
  refine unionOfParts_distinctKeys (unionMembers_keep (distinctKeys_primitive _) ?_ ?_ all)
  · exact fun members distinct => distinctKeys_union.mp distinct
  · exact fun a b merged merges => mergePair?_distinctKeys joins merges

theorem unionAt_distinctKeys (level : Nat) {types : List TypeExpr} (all : ∀ type ∈ types, DistinctKeys type) :
    DistinctKeys (unionAt level types) := by
  induction level generalizing types with
  | zero =>
    refine unionWith_distinctKeys ?_ all
    exact fun a b first second => distinctKeys_union.mpr (forall_pair first second)
  | succ level ih =>
    refine unionWith_distinctKeys ?_ all
    exact fun a b first second => ih (forall_pair first second)

end Keys

section Steps

variable {r : Reading} {v : Json} {types : List TypeExpr}

theorem inhabits_of_unionParts {type part : TypeExpr} (member : part ∈ unionParts type)
    (holds : Inhabits r [] part v) : Inhabits r [] type v := by
  induction type using parts_induction with
  | step type ih =>
    cases type with
    | union members =>
      rw [unionParts, unionPartsAll_eq] at member
      obtain ⟨inner, listed, member⟩ := List.mem_flatMap.mp member
      exact .union listed (ih inner listed member)
    | _ =>
      cases List.mem_singleton.mp member
      exact holds

theorem contains_flag {b : Bool} (found : types.contains (flag b) = true) : flag b ∈ types := by
  obtain ⟨type, member, equal⟩ := List.contains_iff_exists_mem_beq.mp found
  cases type with
  | literal l =>
    cases l with
    | bool c =>
      cases eq_of_beq (show (b == c) = true from equal)
      exact member
    | _ => cases equal
  | _ => cases equal

-- Both flags together hold of what `boolean` holds of.
theorem covers_of_collapseFlags (covered : Covers r v (collapseFlags types)) : Covers r v types := by
  obtain ⟨type, member, holds⟩ := covered
  unfold collapseFlags at member
  split at member
  · rename_i both
    obtain ⟨yes, no⟩ := (Bool.and_eq_true _ _).mp both
    obtain ⟨old, inside, rfl⟩ := List.mem_map.mp (distinct_subset member)
    split at holds
    · cases holds with
      | primitive holds =>
        obtain ⟨b, rfl⟩ := holds
        refine ⟨flag b, ?_, .literal (by cases b <;> rfl)⟩
        cases b with
        | true => exact contains_flag yes
        | false => exact contains_flag no
    · exact ⟨old, inside, holds⟩
  · split at member
    · exact ⟨type, List.mem_of_mem_filter member, holds⟩
    · exact ⟨type, member, holds⟩

theorem covers_of_settledParts (covered : Covers r v (settledParts types)) : Covers r v types := by
  obtain ⟨type, member, holds⟩ := covers_of_collapseFlags covered
  have flat := dropNever_subset (distinct_subset member)
  rw [unionPartsAll_eq] at flat
  obtain ⟨source, listed, part⟩ := List.mem_flatMap.mp flat
  exact ⟨source, listed, inhabits_of_unionParts part holds⟩

theorem covers_of_unionOfParts (inhabited : Inhabits r [] (unionOfParts types) v) : Covers r v types := by
  unfold unionOfParts at inhabited
  split at inhabited
  · exact absurd inhabited not_inhabits_never
  · exact ⟨_, List.mem_singleton_self _, inhabited⟩
  · cases inhabited with
    | union inside holds => exact ⟨_, inside, holds⟩

end Steps

section Merging

variable {r : Reading} {v : Json} {join : TypeExpr → TypeExpr → TypeExpr}

-- Joining two types adds no value to those of either.
def JoinsExactly (r : Reading) (join : TypeExpr → TypeExpr → TypeExpr) : Prop :=
  ∀ a b w, DistinctKeys a → DistinctKeys b → Inhabits r [] (join a b) w → Inhabits r [] a w ∨ Inhabits r [] b w

theorem property_to_partner {p q : Property TypeExpr} (name : q.name = p.name) (same : differs (p, q) = false)
    (holds : PropertyHolds r p v) : PropertyHolds r q v := by
  refine property_of_partner name.symm ?_ holds
  rw [← same]
  exact differs_swap (p, q)

theorem joinProperty_splits (joins : JoinsExactly r join) {p q : Property TypeExpr} (name : q.name = p.name)
    (left : DistinctKeys p.type) (right : DistinctKeys q.type)
    (holds : PropertyHolds r (joinProperty join p q) v) :
    PropertyHolds r p v ∨ PropertyHolds r q v := by
  cases found : v.get? p.name with
  | none =>
    -- the key is missing, so one of the two does without it
    have optional : (p.optional || q.optional) = true := by
      by_contra needed
      have present := holds.required (Bool.eq_false_iff.mpr needed)
      rw [show (joinProperty join p q).name = p.name from rfl, found] at present
      cases present
    rcases (Bool.or_eq_true _ _).mp optional with free | free
    · refine .inl ⟨holds.shaped, fun needed => ?_, fun x present => ?_⟩
      · rw [free] at needed
        cases needed
      · rw [found] at present
        cases present
    · refine .inr ⟨holds.shaped, fun needed => ?_, fun x present => ?_⟩
      · rw [free] at needed
        cases needed
      · rw [name, found] at present
        cases present
  | some x =>
    have only {y : Json} (present : v.get? p.name = some y) : y = x := by
      rw [found] at present
      exact (Option.some.inj present).symm
    rcases joins _ _ _ left right (holds.present x found) with held | held
    · exact .inl ⟨holds.shaped, fun _ => by rw [found]; rfl, fun y present => only present ▸ held⟩
    · refine .inr ⟨holds.shaped, fun _ => by rw [name, found]; rfl, fun y present => ?_⟩
      rw [name] at present
      exact only present ▸ held

-- The one pair that differs decides which of the two object types the value belongs to.
theorem mergePair?_splits (joins : JoinsExactly r join) {left right merged : TypeExpr}
    (merges : mergePair? join left right = some merged) (first : DistinctKeys left) (second : DistinctKeys right)
    (inhabited : Inhabits r [] merged v) : Inhabits r [] left v ∨ Inhabits r [] right v := by
  obtain ⟨ps, qs, pairs, rfl, rfl, ⟨_, sized⟩, paired, single, rfl⟩ := mergePair?_some merges
  obtain ⟨leftNames, leftTypes⟩ := distinctKeys_object.mp first
  obtain ⟨rightNames, rightTypes⟩ := distinctKeys_object.mp second
  obtain ⟨others, back, turned⟩ := pairUp_perm leftNames rightNames sized paired
  have each : ∀ pair ∈ pairs,
      PropertyHolds r (if differs pair then joinProperty join pair.1 pair.2 else pair.1) v :=
    fun pair inside => inhabits_object.mp inhabited _ (List.mem_map_of_mem inside)
  obtain ⟨varied, alone⟩ := List.length_eq_one_iff.mp single
  have inPairs : varied ∈ pairs ∧ differs varied = true :=
    List.mem_filter.mp (alone ▸ List.mem_singleton_self varied)
  have settled : ∀ pair ∈ pairs, pair = varied ∨ differs pair = false ∧ PropertyHolds r pair.1 v := by
    intro pair inside
    cases different : differs pair with
    | true => exact .inl (List.mem_singleton.mp (alone ▸ List.mem_filter.mpr ⟨inside, different⟩))
    | false =>
      have holds := each pair inside
      rw [different] at holds
      exact .inr ⟨rfl, holds⟩
  have decides : PropertyHolds r varied.1 v ∨ PropertyHolds r varied.2 v := by
    obtain ⟨inLeft, inRight, name⟩ := pairUp_pairs paired inPairs.1
    have holds := each varied inPairs.1
    rw [if_pos inPairs.2] at holds
    exact joinProperty_splits joins name (leftTypes _ inLeft) (rightTypes _ inRight) holds
  refine decides.imp (fun holds => inhabits_object.mpr fun p member => ?_)
    fun holds => inhabits_object.mpr fun q member => ?_
  · rw [← pairUp_left paired] at member
    obtain ⟨pair, inside, rfl⟩ := List.mem_map.mp member
    rcases settled pair inside with rfl | ⟨_, held⟩
    · exact holds
    · exact held
  · rw [← pairUp_left back] at member
    obtain ⟨swapped, listed, rfl⟩ := List.mem_map.mp member
    obtain ⟨pair, inside, rfl⟩ := List.mem_map.mp (turned.mem_iff.mp listed)
    rcases settled pair inside with rfl | ⟨same, held⟩
    · exact holds
    · exact property_to_partner (pairUp_pairs paired inside).2.2 same held

theorem covers_of_mergeUpTo (joins : JoinsExactly r join)
    (keep : ∀ a b, DistinctKeys a → DistinctKeys b → DistinctKeys (join a b)) (steps : Nat)
    {types : List TypeExpr} (all : ∀ type ∈ types, DistinctKeys type)
    (covered : Covers r v (mergeUpTo join steps types)) : Covers r v types := by
  induction steps generalizing types with
  | zero => exact covered
  | succ steps ih =>
    unfold mergeUpTo at covered
    split at covered
    · rename_i merged once
      obtain ⟨a, first, b, second, result, merges, remaining⟩ := mergeOnce?_some once
      have kept : ∀ type ∈ distinct merged, type = result ∨ type ∈ types :=
        fun type member => remaining type (distinct_subset member)
      have distinctKeys : ∀ type ∈ distinct merged, DistinctKeys type := by
        intro type member
        rcases kept type member with rfl | old
        · exact mergePair?_distinctKeys keep merges (all a first) (all b second)
        · exact all type old
      obtain ⟨type, member, holds⟩ := ih distinctKeys covered
      rcases kept type member with rfl | old
      · rcases mergePair?_splits joins merges (all a first) (all b second) holds with held | held
        · exact ⟨a, first, held⟩
        · exact ⟨b, second, held⟩
      · exact ⟨type, old, holds⟩
    · exact covered

theorem covers_of_unionWith (joins : JoinsExactly r join)
    (keep : ∀ a b, DistinctKeys a → DistinctKeys b → DistinctKeys (join a b)) {types : List TypeExpr}
    (all : ∀ type ∈ types, DistinctKeys type) (inhabited : Inhabits r [] (unionWith join types) v) :
    Covers r v types := by
  rw [unionWith_eq] at inhabited
  have settled : ∀ type ∈ settledParts types, DistinctKeys type :=
    settledParts_keep (distinctKeys_primitive _) (fun _ distinct => distinctKeys_union.mp distinct) all
  exact covers_of_settledParts (covers_of_mergeUpTo joins keep _ settled (covers_of_unionOfParts inhabited))

end Merging

section Unions

variable {r : Reading} {v : Json}

theorem covers_pair {a b : TypeExpr} (covered : Covers r v [a, b]) : Inhabits r [] a v ∨ Inhabits r [] b v := by
  obtain ⟨type, member, holds⟩ := covered
  rcases List.mem_cons.mp member with rfl | later
  · exact .inl holds
  · cases List.mem_singleton.mp later
    exact .inr holds

theorem covers_of_unionAt (level : Nat) {types : List TypeExpr} (all : ∀ type ∈ types, DistinctKeys type)
    (inhabited : Inhabits r [] (unionAt level types) v) : Covers r v types := by
  induction level generalizing v types with
  | zero =>
    refine covers_of_unionWith ?_ ?_ all inhabited
    · intro a b w _ _ held
      cases held with
      | union inside holds => exact covers_pair ⟨_, inside, holds⟩
    · exact fun a b first second => distinctKeys_union.mpr (forall_pair first second)
  | succ level ih =>
    refine covers_of_unionWith ?_ ?_ all inhabited
    · exact fun a b w first second held => covers_pair (ih (forall_pair first second) held)
    · exact fun a b first second => unionAt_distinctKeys level (forall_pair first second)

-- The canonical union holds of a value exactly if some member does.
theorem inhabits_unionOf {types : List TypeExpr} (all : ∀ type ∈ types, DistinctKeys type) :
    Inhabits r [] (unionOf types) v ↔ ∃ type ∈ types, Inhabits r [] type v :=
  ⟨covers_of_unionAt _ all, unionOf_inhabits⟩

theorem inhabits_unionOf_map {α : Type} {f : α → TypeExpr} {xs : List α} (all : ∀ x ∈ xs, DistinctKeys (f x)) :
    Inhabits r [] (unionOf (xs.map f)) v ↔ ∃ x ∈ xs, Inhabits r [] (f x) v := by
  rw [inhabits_unionOf (List.forall_mem_map.mpr all)]
  simp

end Unions

end ApiContract.TypeExpr
