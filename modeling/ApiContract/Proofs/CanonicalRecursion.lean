import ApiContract.Proofs.TypeSizes
import Mathlib.Logic.Relation

namespace ApiContract

-- The types that a canonical union joins in its turn need not be parts of its members: they may come from
-- joins that were made before. Since no join makes a type larger than the two that it is made of, they are
-- smaller than the members together, and so there is one function that computes unions in this way. The same
-- holds of intersections.

-- One level of a recursive computation. Which calls it makes may depend on the answers to earlier ones.
structure Recursion (α β : Type) where
  step : (α → β) → α → β
  Calls : (α → β) → α → α → Prop
  covered : ∀ f g input, (∀ arg, Calls f arg input → f arg = g arg) → step f input = step g input

namespace Recursion

variable {α β : Type} {r : Recursion α β} {f base : α → β} {rank level : α → Nat} {run : Nat → α → β}

def Descends (r : Recursion α β) (rank : α → Nat) (f : α → β) : Prop :=
  ∀ arg input, r.Calls f arg input → rank arg < rank input

-- The function is the only one that satisfies the equation, and it is computed by calls that get smaller.
structure Defines (r : Recursion α β) (rank : α → Nat) (f : α → β) : Prop where
  descends : r.Descends rank f
  wellFounded : WellFounded (r.Calls f)
  unique : ∀ g, g = r.step g ↔ g = f

theorem defines (descends : r.Descends rank f) (solves : f = r.step f) : r.Defines rank f := by
  have wellFounded : WellFounded (r.Calls f) :=
    Subrelation.wf (fun {arg input} calls => descends arg input calls) (measure rank).wf
  refine ⟨descends, wellFounded, fun g => ⟨fun other => funext fun input => ?_, ?_⟩⟩
  · induction input using wellFounded.induction with
    | _ input ih =>
      calc g input
        _ = r.step g input := congrFun other input
        _ = r.step f input := (r.covered f g input fun arg calls => (ih arg calls).symm).symm
        _ = f input := (congrFun solves input).symm
  · rintro rfl
    exact solves

-- The levels of a computation that is cut off: at the bottom, calls are answered by `base`. Each level keeps to a
-- bound if the answers to its calls do.
structure Levels (r : Recursion α β) (Bound : α → β → Prop) (base : α → β) (run : Nat → α → β) : Prop where
  zero : run 0 = r.step base
  succ : ∀ n, run (n + 1) = r.step (run n)
  bottom : ∀ input, Bound input (base input)
  keeps : ∀ f, (∀ input, Bound input (f input)) → ∀ input, Bound input (r.step f input)

namespace Levels

variable {Bound : α → β → Prop} (levels : r.Levels Bound base run)
  (descends : ∀ f, (∀ input, Bound input (f input)) → r.Descends rank f)

include levels

theorem bound (n : Nat) : ∀ input, Bound input (run n input) := by
  induction n with
  | zero =>
    rw [levels.zero]
    exact levels.keeps base levels.bottom
  | succ n ih =>
    rw [levels.succ]
    exact levels.keeps (run n) ih

include descends

-- An input of rank zero calls nothing, so no level from the rank on is cut off.
theorem agree {n m : Nat} {input : α} (enough : rank input ≤ n) (more : n ≤ m) : run n input = run m input := by
  induction n generalizing m input with
  | zero =>
    have none (arg : α) : ¬ r.Calls base arg input := by
      intro calls
      have smaller := descends base levels.bottom arg input calls
      omega
    cases m with
    | zero => rfl
    | succ m =>
      rw [levels.zero, levels.succ]
      exact r.covered base (run m) input fun arg calls => absurd calls (none arg)
  | succ n ih =>
    obtain ⟨m, rfl⟩ := Nat.exists_eq_add_of_lt more
    rw [levels.succ, levels.succ]
    refine r.covered _ _ input fun arg calls => ih ?_ (by omega)
    have smaller := descends (run n) (levels.bound n) arg input calls
    omega

-- It is enough to start at a level that is not below the rank.
theorem solves (enough : ∀ input, rank input ≤ level input) :
    (fun input => run (level input) input) = r.step fun input => run (level input) input := by
  funext input
  have called (arg : α) (calls : r.Calls (run (level input)) arg input) :
      run (level input) arg = run (level arg) arg := by
    have smaller := descends (run (level input)) (levels.bound _) arg input calls
    have bound := enough input
    have here : run (rank arg) arg = run (level input) arg := levels.agree descends (Nat.le_refl _) (by omega)
    exact here.symm.trans (levels.agree descends (Nat.le_refl _) (enough arg))
  calc run (level input) input
    _ = run (level input + 1) input := levels.agree descends (enough input) (Nat.le_succ _)
    _ = r.step (run (level input)) input := congrFun (levels.succ _) input
    _ = r.step (fun input => run (level input) input) input := r.covered _ _ input called

end Levels

end Recursion

namespace TypeExpr

section Depth

-- How many object types that have members stand inside one another. An intersection that asks nothing becomes
-- the empty object type, so the nesting of all object types may grow, but this depth does not.
def depth : TypeExpr → Nat :=
  fold {
    primitive := fun _ => 0
    literal := fun _ => 0
    reference := fun _ => 0
    union := fun depths => depths.foldr max 0
    intersection := fun depths => depths.foldr max 0
    record := fun members =>
      if members.isEmpty then 0 else 1 + (members.flatMap Member.types).foldr max 0
    array := id
    tuple := fun depths rest => max (depths.foldr max 0) (rest.getD 0) }

def depthAll (types : List TypeExpr) : Nat := (types.map depth).foldr max 0

theorem depthAll_le {types : List TypeExpr} {n : Nat} :
    depthAll types ≤ n ↔ ∀ type ∈ types, depth type ≤ n := by
  rw [depthAll, foldr_max_le, List.forall_mem_map]

theorem depthAll_pair (a b : TypeExpr) : depthAll [a, b] = max (depth a) (max (depth b) 0) := rfl

theorem depth_union {members : List TypeExpr} {n : Nat} :
    depth (union members) ≤ n ↔ ∀ member ∈ members, depth member ≤ n := by
  rw [← depthAll_le, depth, fold_eq]
  rfl

theorem depth_intersection {members : List TypeExpr} {n : Nat} :
    depth (intersection members) ≤ n ↔ ∀ member ∈ members, depth member ≤ n := by
  rw [← depthAll_le, depth, fold_eq]
  rfl

theorem memberTypes_map {T U : Type} (f : T → U) (members : List (Member T)) :
    (members.map (Member.map f)).flatMap Member.types = (members.flatMap Member.types).map f := by
  simp only [List.flatMap_map, types_map, List.map_flatMap]

theorem depth_object {ps : List (Property TypeExpr)} {n : Nat} :
    depth (object ps) ≤ n ↔ ∀ p ∈ ps, depth p.type < n := by
  cases ps with
  | nil => exact iff_of_true (Nat.zero_le n) (List.forall_mem_nil _)
  | cons p rest =>
    have equal : depth (object (p :: rest)) = 1 + depthAll ((p :: rest).map Property.type) := by
      rw [depth, fold_eq]
      show 1 + ((((p :: rest).map Member.property).map (Member.map depth)).flatMap Member.types).foldr max 0 = _
      rw [memberTypes_map, List.flatMap_map]
      show 1 + (((p :: rest).flatMap fun p => [p.type]).map depth).foldr max 0 = _
      rw [← List.map_eq_flatMap]
      rfl
    rw [equal]
    constructor
    · intro small q member
      have inner := depthAll_le.mp (Nat.le_refl _) q.type (List.mem_map_of_mem member)
      omega
    · intro each
      have first := each p List.mem_cons_self
      have inner : depthAll ((p :: rest).map Property.type) ≤ n - 1 := by
        refine depthAll_le.mpr (List.forall_mem_map.mpr fun q member => ?_)
        have small := each q member
        omega
      omega

theorem foldr_max_map {α : Type} {f g : α → Nat} {xs : List α} (each : ∀ x ∈ xs, f x ≤ g x) :
    (xs.map f).foldr max 0 ≤ (xs.map g).foldr max 0 := by
  refine foldr_max_le.mpr (List.forall_mem_map.mpr fun x member => ?_)
  exact Nat.le_trans (each x member) (foldr_max_le.mp (Nat.le_refl _) (g x) (List.mem_map_of_mem member))

theorem depth_le_nesting (type : TypeExpr) : depth type ≤ nesting type := by
  induction type using parts_induction with
  | step type ih =>
    rw [depth, fold_eq, nesting, fold_eq]
    cases type with
    | primitive p => exact Nat.le_refl _
    | literal l => exact Nat.le_refl _
    | reference name => exact Nat.le_refl _
    | union members => exact foldr_max_map ih
    | intersection members => exact foldr_max_map ih
    | record members =>
      have inner := foldr_max_map (show ∀ part ∈ members.flatMap Member.types, depth part ≤ nesting part from ih)
      rw [← memberTypes_map, ← memberTypes_map] at inner
      show (if (members.map (Member.map depth)).isEmpty then 0
        else 1 + ((members.map (Member.map depth)).flatMap Member.types).foldr max 0) ≤
          1 + ((members.map (Member.map nesting)).flatMap Member.types).foldr max 0
      split
      · exact Nat.zero_le _
      · exact Nat.add_le_add_left inner 1
    | array items => exact ih items (List.mem_singleton_self items)
    | tuple places rest =>
      obtain ⟨inPlaces, last⟩ := List.forall_mem_append.mp ih
      have inner := foldr_max_map inPlaces
      have ending : (rest.map depth).getD 0 ≤ (rest.map nesting).getD 0 := by
        cases rest with
        | none => exact Nat.le_refl 0
        | some rest => exact last rest (List.mem_singleton_self rest)
      show max ((places.map depth).foldr max 0) ((rest.map depth).getD 0) ≤
        max ((places.map nesting).foldr max 0) ((rest.map nesting).getD 0)
      omega

theorem depthAll_le_nestingAll (types : List TypeExpr) : depthAll types ≤ nestingAll types :=
  foldr_max_map fun type _ => depth_le_nesting type

end Depth

def ofPair (f : List TypeExpr → TypeExpr) (a b : TypeExpr) : TypeExpr := f [a, b]

-- The type is no larger than a union or an intersection of the others, and no deeper.
structure Bounded (types : List TypeExpr) (type : TypeExpr) : Prop where
  size : size type ≤ 1 + sizeAll types
  depth : depth type ≤ depthAll types

theorem bounded_union (types : List TypeExpr) : Bounded types (union types) :=
  ⟨Nat.le_of_eq (size_union types), depth_union.mpr (depthAll_le.mp (Nat.le_refl _))⟩

theorem bounded_intersection (types : List TypeExpr) : Bounded types (intersection types) :=
  ⟨Nat.le_of_eq (size_intersection types), depth_intersection.mpr (depthAll_le.mp (Nat.le_refl _))⟩

section Pairs

variable {f : List TypeExpr → TypeExpr} (bounded : ∀ types, Bounded types (f types))

include bounded

theorem modest_ofPair : Modest (ofPair f) := fun a b => (bounded [a, b]).size

theorem depth_ofPair {n : Nat} (a b : TypeExpr) (first : depth a < n) (second : depth b < n) :
    depth (ofPair f a b) < n := by
  refine Nat.lt_of_le_of_lt (bounded [a, b]).depth ?_
  rw [depthAll_pair]
  omega

end Pairs

section Unions

variable {types : List TypeExpr} {join other : TypeExpr → TypeExpr → TypeExpr} {f : List TypeExpr → TypeExpr}

-- The two object types merge, and the property in which they differ is `p` in the one and `q` in the other.
def DifferIn (left right : TypeExpr) (p q : Property TypeExpr) : Prop :=
  ∃ ps qs pairs, left = object ps ∧ right = object qs ∧ ps.length = qs.length ∧ pairUp qs ps = some pairs ∧
    pairs.filter differs = [(p, q)]

-- One round of merging: the first pair that merges becomes one object type, and repetitions are dropped.
def Round (join : TypeExpr → TypeExpr → TypeExpr) (before after : List TypeExpr) : Prop :=
  ∃ merged, mergeOnce? join before = some merged ∧ after = distinct merged

-- What a union may ask for: the union of two properties in which members differ that are there after some rounds.
-- In each round, the first pair that merges is asked for.
inductive UnionCalls (f : List TypeExpr → TypeExpr) : List TypeExpr → List TypeExpr → Prop
  | joins {types current : List TypeExpr} {left right : TypeExpr} {p q : Property TypeExpr}
      (rounds : Relation.ReflTransGen (Round (ofPair f)) (settledParts types) current)
      (listed : [left, right].Sublist current) (differ : DifferIn left right p q) :
      UnionCalls f [p.type, q.type] types

theorem DifferIn.member {left right : TypeExpr} {p q : Property TypeExpr} (differ : DifferIn left right p q) :
    ∃ ps qs, left = object ps ∧ right = object qs ∧ p ∈ ps ∧ q ∈ qs := by
  obtain ⟨ps, qs, pairs, first, second, _, paired, single⟩ := differ
  have inside : (p, q) ∈ pairs := List.mem_of_mem_filter (single ▸ List.mem_singleton_self (p, q))
  obtain ⟨inLeft, inRight, _⟩ := pairUp_pairs paired inside
  exact ⟨ps, qs, first, second, inLeft, inRight⟩

theorem mergePair?_congr {left right : TypeExpr}
    (agree : ∀ p q, DifferIn left right p q → join p.type q.type = other p.type q.type) :
    mergePair? join left right = mergePair? other left right := by
  unfold mergePair?
  cases first : left.properties? with
  | none => rfl
  | some ps =>
    cases second : right.properties? with
    | none => rfl
    | some qs =>
      simp only []
      split
      · rfl
      · rename_i long
        cases paired : pairUp qs ps with
        | none => rfl
        | some pairs =>
          simp only []
          split
          · rename_i single
            obtain ⟨⟨p, q⟩, only⟩ := List.length_eq_one_iff.mp (eq_of_beq single)
            have sized : ps ≠ [] ∧ ps.length = qs.length := by simpa using long
            have same : join p.type q.type = other p.type q.type :=
              agree p q ⟨ps, qs, pairs, properties?_eq first, properties?_eq second, sized.2, paired, only⟩
            refine congrArg (fun ps => some (object ps)) (List.map_congr_left fun pair inside => ?_)
            split
            · rename_i differ
              have here : pair ∈ pairs.filter differs := List.mem_filter.mpr ⟨inside, differ⟩
              rw [only] at here
              cases List.mem_singleton.mp here
              unfold joinProperty
              rw [same]
            · rfl
          · rfl

theorem mergeWith?_congr {type : TypeExpr}
    (agree : ∀ partner ∈ types, mergePair? join type partner = mergePair? other type partner) :
    mergeWith? join type types = mergeWith? other type types := by
  induction types with
  | nil => rfl
  | cons partner rest ih =>
    obtain ⟨first, later⟩ := List.forall_mem_cons.mp agree
    rw [mergeWith?, mergeWith?, first, ih later]

theorem mergeOnce?_congr (agree : types.Pairwise fun a b => mergePair? join a b = mergePair? other a b) :
    mergeOnce? join types = mergeOnce? other types := by
  induction types with
  | nil => rfl
  | cons type rest ih =>
    obtain ⟨first, later⟩ := List.pairwise_cons.mp agree
    rw [mergeOnce?, mergeOnce?, mergeWith?_congr first, ih later]

theorem mergeUpTo_congr (steps : Nat) (agree : ∀ current, Relation.ReflTransGen (Round join) types current →
      mergeOnce? join current = mergeOnce? other current) :
    mergeUpTo join steps types = mergeUpTo other steps types := by
  induction steps generalizing types with
  | zero => rfl
  | succ steps ih =>
    rw [mergeUpTo, mergeUpTo, ← agree types .refl]
    cases once : mergeOnce? join types with
    | none => rfl
    | some merged => exact ih fun current rounds => agree current (.head ⟨merged, once, rfl⟩ rounds)

theorem unionStep_covered (f g : List TypeExpr → TypeExpr) (types : List TypeExpr)
    (agree : ∀ args, UnionCalls f args types → f args = g args) :
    unionWith (ofPair f) types = unionWith (ofPair g) types := by
  rw [unionWith_eq, unionWith_eq]
  refine congrArg unionOfParts (mergeUpTo_congr _ fun current rounds => mergeOnce?_congr ?_)
  refine List.pairwise_iff_forall_sublist.mpr fun {left right} listed => mergePair?_congr fun p q differ => ?_
  exact agree [p.type, q.type] (.joins rounds listed differ)

def uniting : Recursion (List TypeExpr) TypeExpr where
  step f := unionWith (ofPair f)
  Calls := UnionCalls
  covered := unionStep_covered

-- Each merge leaves one member less, so the rounds end before their number is used up.
theorem mergeUpTo_rounds {steps : Nat} (enough : types.length ≤ steps) :
    Relation.ReflTransGen (Round join) types (mergeUpTo join steps types) ∧
      mergeOnce? join (mergeUpTo join steps types) = none := by
  induction steps generalizing types with
  | zero =>
    cases List.length_eq_zero_iff.mp (Nat.le_zero.mp enough)
    exact ⟨.refl, rfl⟩
  | succ steps ih =>
    unfold mergeUpTo
    split
    · rename_i merged once
      have fewer := mergeOnce?_length once
      have kept := (distinct_sublist merged).length_le
      obtain ⟨rounds, done⟩ := ih (show (distinct merged).length ≤ steps by omega)
      exact ⟨.head ⟨merged, once, rfl⟩ rounds, done⟩
    · rename_i done
      exact ⟨.refl, done⟩

theorem rounds_keep {P : TypeExpr → Prop}
    (merge : ∀ a b merged, mergePair? join a b = some merged → P a → P b → P merged)
    {before after : List TypeExpr} (rounds : Relation.ReflTransGen (Round join) before after)
    (all : ∀ type ∈ before, P type) : ∀ type ∈ after, P type := by
  induction rounds with
  | refl => exact all
  | tail _ round ih =>
    obtain ⟨merged, once, rfl⟩ := round
    obtain ⟨a, first, b, second, result, merges, remaining⟩ := mergeOnce?_some once
    intro type member
    rcases remaining type (distinct_subset member) with rfl | old
    · exact merge a b _ merges (ih a first) (ih b second)
    · exact ih type old

theorem round_size (modest : Modest join) {before after : List TypeExpr} (round : Round join before after) :
    sizeAll after < sizeAll before := by
  obtain ⟨merged, once, rfl⟩ := round
  exact Nat.lt_of_le_of_lt (sizeAll_sublist (distinct_sublist merged)) (mergeOnce?_size modest once)

theorem rounds_size (modest : Modest join) {before after : List TypeExpr}
    (rounds : Relation.ReflTransGen (Round join) before after) : sizeAll after ≤ sizeAll before := by
  induction rounds with
  | refl => exact Nat.le_refl _
  | tail _ round ih => exact Nat.le_trans (Nat.le_of_lt (round_size modest round)) ih

theorem uniting_descends (bounded : ∀ types, Bounded types (f types)) : uniting.Descends sizeAll f := by
  rintro _ types ⟨rounds, listed, differ⟩
  obtain ⟨ps, qs, rfl, rfl, inLeft, inRight⟩ := differ.member
  have both := sizeAll_sublist listed
  have current := Nat.le_trans (rounds_size (modest_ofPair bounded) rounds) (settledParts_size types)
  have first := propertySizes_mem inLeft
  have second := propertySizes_mem inRight
  simp only [sizeAll_cons, sizeAll_nil, size_object] at both ⊢
  omega

theorem mergePair?_depth (bounded : ∀ types, Bounded types (f types)) {n : Nat} (left right merged : TypeExpr)
    (found : mergePair? (ofPair f) left right = some merged) (first : depth left ≤ n)
    (second : depth right ≤ n) : depth merged ≤ n := by
  obtain ⟨ps, qs, pairs, rfl, rfl, _, paired, _, rfl⟩ := mergePair?_some found
  refine depth_object.mpr (mergePair?_types (P := fun type => depth type < n) paired ?_ ?_ ?_)
  · exact depth_ofPair bounded
  · exact depth_object.mp first
  · exact depth_object.mp second

theorem settledParts_depth (types : List TypeExpr) : ∀ type ∈ settledParts types, depth type ≤ depthAll types :=
  settledParts_keep (P := fun type => depth type ≤ depthAll types) (Nat.zero_le _)
    (fun _ => depth_union.mp) (depthAll_le.mp (Nat.le_refl _))

theorem uniting_descends_depth (bounded : ∀ types, Bounded types (f types)) : uniting.Descends depthAll f := by
  rintro _ types ⟨rounds, listed, differ⟩
  obtain ⟨ps, qs, rfl, rfl, inLeft, inRight⟩ := differ.member
  have all := rounds_keep (mergePair?_depth bounded) rounds (settledParts_depth types)
  have left := depth_object.mp (all _ (listed.subset List.mem_cons_self)) _ inLeft
  have right := depth_object.mp (all _ (listed.subset (List.mem_cons_of_mem _ List.mem_cons_self))) _ inRight
  rw [depthAll_pair]
  omega

theorem unionStep_bounded (bounded : ∀ types, Bounded types (f types)) (types : List TypeExpr) :
    Bounded types (uniting.step f types) := by
  refine ⟨unionWith_size (modest_ofPair bounded) types, ?_⟩
  have members : ∀ type ∈ unionMembers (ofPair f) types, depth type ≤ depthAll types :=
    mergeUpTo_keep (mergePair?_depth bounded) _ (settledParts_depth types)
  show depth (unionOfParts (unionMembers (ofPair f) types)) ≤ _
  unfold unionOfParts
  split
  · exact Nat.zero_le _
  · rename_i type single
    exact members type (single ▸ List.mem_singleton_self type)
  · exact depth_union.mpr members

theorem unionAt_levels : uniting.Levels Bounded union unionAt :=
  ⟨rfl, fun _ => rfl, bounded_union, fun _ => unionStep_bounded⟩

theorem unionOf_bounded (types : List TypeExpr) : Bounded types (unionOf types) := unionAt_levels.bound _ types

theorem unionOf_defines : uniting.Defines sizeAll unionOf :=
  Recursion.defines (uniting_descends unionOf_bounded)
    (unionAt_levels.solves (fun _ => uniting_descends_depth) depthAll_le_nestingAll)

end Unions

section Intersections

variable {types : List TypeExpr} {meet other : TypeExpr → TypeExpr → TypeExpr} {f : List TypeExpr → TypeExpr}

-- The operand that properties are added to, and the properties in the order in which they are added.
def GathersInto (types : List TypeExpr) (ps qs : List (Property TypeExpr)) : Prop :=
  ∃ groups, types.filterMap properties? = ps :: groups ∧ groups.flatten = qs

-- An intersection asks for that of each property with the one that it is added to, which may come from properties
-- that were added before.
inductive IntersectionCalls (f : List TypeExpr → TypeExpr) : List TypeExpr → List TypeExpr → Prop
  | meets {types : List TypeExpr} {ps before after : List (Property TypeExpr)} {p q : Property TypeExpr}
      (possible : (intersectionPartsAll types).contains never = false)
      (gathers : GathersInto (keptOperands types) ps (before ++ q :: after))
      (found : (addProperties (ofPair f) ps before).find? (fun p => p.name == q.name) = some p) :
      IntersectionCalls f [p.type, q.type] types

theorem addProperty_congr {q : Property TypeExpr} {ps : List (Property TypeExpr)}
    (agree : ∀ p, ps.find? (fun p => p.name == q.name) = some p → meet p.type q.type = other p.type q.type) :
    addProperty meet q ps = addProperty other q ps := by
  induction ps with
  | nil => rfl
  | cons p rest ih =>
    unfold addProperty
    split
    · rename_i named
      have same := agree p (List.find?_cons_of_pos named)
      unfold meetProperty
      rw [same]
    · rename_i named
      refine congrArg (p :: ·) (ih fun later found => agree later ?_)
      rw [List.find?_cons_of_neg (by exact named), found]

theorem addProperties_congr {ps qs : List (Property TypeExpr)}
    (agree : ∀ before q after p, qs = before ++ q :: after →
      (addProperties meet ps before).find? (fun p => p.name == q.name) = some p →
      meet p.type q.type = other p.type q.type) : addProperties meet ps qs = addProperties other ps qs := by
  induction qs generalizing ps with
  | nil => rfl
  | cons q rest ih =>
    have first : addProperty meet q ps = addProperty other q ps :=
      addProperty_congr fun p found => agree [] q rest p rfl found
    show addProperties meet (addProperty meet q ps) rest = addProperties other (addProperty other q ps) rest
    rw [← first]
    refine ih fun before q' after p cut found => agree (q :: before) q' after p ?_ found
    rw [cut, List.cons_append]

theorem gatherProperties_congr
    (agree : ∀ ps qs, GathersInto types ps qs → addProperties meet ps qs = addProperties other ps qs) :
    gatherProperties meet types = gatherProperties other types := by
  induction types with
  | nil => rfl
  | cons type rest ih =>
    unfold gatherProperties
    cases found : type.properties? with
    | none =>
      refine congrArg (type :: ·) (ih ?_)
      rintro ps qs ⟨groups, cut, flat⟩
      exact agree ps qs ⟨groups, (List.filterMap_cons_none found).trans cut, flat⟩
    | some ps =>
      have same := agree ps _ ⟨rest.filterMap properties?, List.filterMap_cons_some found, rfl⟩
      simp only [gathered_eq, same]

theorem intersectionStep_covered (f g : List TypeExpr → TypeExpr) (types : List TypeExpr)
    (agree : ∀ args, IntersectionCalls f args types → f args = g args) :
    intersectionWith (ofPair f) types = intersectionWith (ofPair g) types := by
  rw [intersectionWith_eq, intersectionWith_eq]
  split
  · rfl
  · rename_i possible
    have gathered : gatherProperties (ofPair f) (keptOperands types) =
        gatherProperties (ofPair g) (keptOperands types) := by
      refine gatherProperties_congr fun ps qs gathers => addProperties_congr fun before q after p cut found => ?_
      exact agree [p.type, q.type] (.meets (eq_false_of_ne_true possible) (cut ▸ gathers) found)
    unfold intersectionMembers
    rw [gathered]

def meeting : Recursion (List TypeExpr) TypeExpr where
  step f := intersectionWith (ofPair f)
  Calls := IntersectionCalls
  covered := intersectionStep_covered

theorem GathersInto.sizes {ps qs : List (Property TypeExpr)} (gathers : GathersInto types ps qs) :
    propertySizes ps + propertySizes qs ≤ sizeAll types := by
  obtain ⟨groups, cut, rfl⟩ := gathers
  have bound := operands_size types
  rw [cut, List.flatten_cons, propertySizes_append] at bound
  omega

theorem GathersInto.operands {ps qs : List (Property TypeExpr)} (gathers : GathersInto types ps qs) :
    object ps ∈ types ∧ ∀ q ∈ qs, ∃ group, object group ∈ types ∧ q ∈ group := by
  obtain ⟨groups, cut, rfl⟩ := gathers
  have each : ∀ group ∈ ps :: groups, object group ∈ types := by
    intro group member
    obtain ⟨type, inside, found⟩ := List.mem_filterMap.mp (cut ▸ member)
    exact properties?_eq found ▸ inside
  obtain ⟨first, others⟩ := List.forall_mem_cons.mp each
  refine ⟨first, fun q member => ?_⟩
  obtain ⟨group, inside, listed⟩ := List.mem_flatten.mp member
  exact ⟨group, others group inside, listed⟩

theorem meeting_descends (bounded : ∀ types, Bounded types (f types)) : meeting.Descends sizeAll f := by
  rintro _ types (@⟨_, ps, before, after, p, q, _, gathers, found⟩)
  have operands := Nat.le_trans gathers.sizes (keptOperands_size types)
  have added := addProperties_size (modest_ofPair bounded) ps before
  have first := propertySizes_mem (List.mem_of_find?_eq_some found)
  simp only [propertySizes_append, propertySizes_cons] at operands
  simp only [sizeAll_cons, sizeAll_nil]
  omega

theorem keptOperands_depth (types : List TypeExpr) : ∀ type ∈ keptOperands types, depth type ≤ depthAll types :=
  keptOperands_keep (P := fun type => depth type ≤ depthAll types) (fun _ => depth_intersection.mp)
    (depthAll_le.mp (Nat.le_refl _))

theorem addProperties_depth (bounded : ∀ types, Bounded types (f types)) {n : Nat} {ps qs : List (Property TypeExpr)}
    (first : ∀ p ∈ ps, depth p.type < n) (second : ∀ q ∈ qs, depth q.type < n) :
    ∀ p ∈ addProperties (ofPair f) ps qs, depth p.type < n :=
  addProperties_keep (fun p q => depth_ofPair bounded p.type q.type) first second

theorem meeting_descends_depth (bounded : ∀ types, Bounded types (f types)) : meeting.Descends depthAll f := by
  rintro _ types (@⟨_, ps, before, after, p, q, _, gathers, found⟩)
  obtain ⟨target, sources⟩ := gathers.operands
  have inTarget : ∀ p ∈ ps, depth p.type < depthAll types :=
    depth_object.mp (keptOperands_depth types _ target)
  have inSources : ∀ q' ∈ before ++ q :: after, depth q'.type < depthAll types := by
    intro q' member
    obtain ⟨group, operand, listed⟩ := sources q' member
    exact depth_object.mp (keptOperands_depth types _ operand) q' listed
  obtain ⟨inBefore, later⟩ := List.forall_mem_append.mp inSources
  have left := addProperties_depth bounded inTarget inBefore p (List.mem_of_find?_eq_some found)
  have right := later q List.mem_cons_self
  rw [depthAll_pair]
  omega

theorem intersectionStep_bounded (bounded : ∀ types, Bounded types (f types)) (types : List TypeExpr) :
    Bounded types (meeting.step f types) := by
  refine ⟨intersectionWith_size (modest_ofPair bounded) types, ?_⟩
  have members : ∀ type ∈ intersectionMembers (ofPair f) types, depth type ≤ depthAll types := by
    refine intersectionMembers_keep (P := fun type => depth type ≤ depthAll types)
      (fun _ => depth_intersection.mp) (fun ps qs first second => ?_) (depthAll_le.mp (Nat.le_refl _))
    exact depth_object.mpr (addProperties_depth bounded (depth_object.mp first) (depth_object.mp second))
  show depth (intersectionWith (ofPair f) types) ≤ _
  rw [intersectionWith_eq]
  split
  · exact Nat.zero_le _
  · unfold intersectionOfParts
    split
    · split <;> exact Nat.zero_le _
    · rename_i type single
      exact members type (single ▸ List.mem_singleton_self type)
    · exact depth_intersection.mpr members

theorem intersectionAt_levels : meeting.Levels Bounded intersection intersectionAt :=
  ⟨rfl, fun _ => rfl, bounded_intersection, fun _ => intersectionStep_bounded⟩

theorem intersectionOf_bounded (types : List TypeExpr) : Bounded types (intersectionOf types) :=
  intersectionAt_levels.bound _ types

theorem intersectionOf_defines : meeting.Defines sizeAll intersectionOf :=
  Recursion.defines (meeting_descends intersectionOf_bounded)
    (intersectionAt_levels.solves (fun _ => meeting_descends_depth) depthAll_le_nestingAll)

end Intersections

-- Unions and intersections are each defined by a recursion on smaller members. The rounds of merging end where
-- no two members merge, each of them leaves less than there was, and what comes out is no larger than a plain
-- union or intersection of the members.
theorem canonical_forms_never_grow :
    (uniting.Defines sizeAll unionOf ∧ meeting.Defines sizeAll intersectionOf) ∧
    (∀ types, Relation.ReflTransGen (Round (ofPair unionOf)) (settledParts types)
        (unionMembers (ofPair unionOf) types) ∧
      mergeOnce? (ofPair unionOf) (unionMembers (ofPair unionOf) types) = none) ∧
    (∀ types merged, mergeOnce? (ofPair unionOf) types = some merged →
      sizeAll merged < sizeAll types ∧ sizeAll (distinct merged) < sizeAll types) ∧
    ∀ types, size (unionOf types) ≤ 1 + sizeAll types ∧ size (intersectionOf types) ≤ 1 + sizeAll types := by
  refine ⟨⟨unionOf_defines, intersectionOf_defines⟩, fun types => mergeUpTo_rounds (Nat.le_refl _),
    fun types merged once => ⟨?_, ?_⟩, fun types => ⟨?_, ?_⟩⟩
  · exact mergeOnce?_size (modest_ofPair unionOf_bounded) once
  · exact round_size (modest_ofPair unionOf_bounded) ⟨merged, once, rfl⟩
  · exact (unionOf_bounded types).size
  · exact (intersectionOf_bounded types).size

-- Object types for pets, which differ in the type of the number.
def petKind : Property TypeExpr := { name := "kind", type := text "pet" }

def petId (number : TypeExpr) : Property TypeExpr := { name := "id", type := number }

def petNumbered (number : TypeExpr) : TypeExpr := object [petKind, petId number]

def firstPets : List TypeExpr := [1, 2, 3].map fun id => petNumbered (literal (.int id))

def firstIds : TypeExpr := union [literal (.int 1), literal (.int 2)]

-- The second round joins what the first one joined with the third number.
theorem firstPets_shrink :
    mergeOnce? (ofPair unionOf) firstPets = some [petNumbered firstIds, petNumbered (literal (.int 3))] ∧
    sizeAll [petNumbered firstIds, petNumbered (literal (.int 3))] < sizeAll firstPets ∧
    uniting.Calls unionOf [firstIds, literal (.int 3)] firstPets ∧
    sizeAll [firstIds, literal (.int 3)] < sizeAll firstPets ∧
    meeting.Calls intersectionOf [number, firstIds] [petNumbered number, petNumbered firstIds] ∧
    sizeAll [number, firstIds] < sizeAll [petNumbered number, petNumbered firstIds] := by
  have merges : mergeOnce? (ofPair unionOf) firstPets =
      some [petNumbered firstIds, petNumbered (literal (.int 3))] := rfl
  have differ : DifferIn (petNumbered firstIds) (petNumbered (literal (.int 3))) (petId firstIds)
      (petId (literal (.int 3))) := ⟨_, _, _, rfl, rfl, rfl, rfl, rfl⟩
  have joins : uniting.Calls unionOf [firstIds, literal (.int 3)] firstPets :=
    .joins (.single ⟨_, merges, rfl⟩) (List.Sublist.refl _) differ
  have gathers : GathersInto (keptOperands [petNumbered number, petNumbered firstIds]) [petKind, petId number]
      ([petKind] ++ petId firstIds :: []) := ⟨_, rfl, rfl⟩
  have found : (addProperties (ofPair intersectionOf) [petKind, petId number] [petKind]).find?
      (fun p => p.name == (petId firstIds).name) = some (petId number) := rfl
  have meets : meeting.Calls intersectionOf [number, firstIds] [petNumbered number, petNumbered firstIds] :=
    .meets rfl gathers found
  obtain ⟨⟨unions, intersections⟩, _, steps, _⟩ := canonical_forms_never_grow
  exact ⟨merges, (steps _ _ merges).1, joins, unions.descends _ _ joins, meets, intersections.descends _ _ meets⟩

end TypeExpr

end ApiContract
