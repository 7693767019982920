import ApiContract.Proofs.CanonicalTypes

namespace ApiContract.TypeExpr

-- A canonical union is no larger than the plain union of its members, and a canonical intersection no larger
-- than the plain intersection. Joining the types of two properties may add a union, but one of the two
-- properties goes for it, and with it the object type that it was in.

section Sizes

def sizeAll (types : List TypeExpr) : Nat := total (types.map size)

def propertySizes (ps : List (Property TypeExpr)) : Nat := total (ps.map fun p => 1 + size p.type)

theorem total_append (xs ys : List Nat) : total (xs ++ ys) = total xs + total ys := by
  induction xs with
  | nil => exact (Nat.zero_add _).symm
  | cons x rest ih =>
    show x + total (rest ++ ys) = x + total rest + total ys
    rw [ih, Nat.add_assoc]

theorem total_sublist {xs ys : List Nat} (sublist : xs.Sublist ys) : total xs ≤ total ys := by
  induction sublist with
  | slnil => exact Nat.le_refl _
  | cons y _ ih => exact Nat.le_trans ih (Nat.le_add_left _ y)
  | cons_cons x _ ih => exact Nat.add_le_add_left ih x

theorem total_map_le {α : Type} {f g : α → Nat} {xs : List α} (each : ∀ x ∈ xs, f x ≤ g x) :
    total (xs.map f) ≤ total (xs.map g) := by
  induction xs with
  | nil => exact Nat.le_refl _
  | cons x rest ih =>
    obtain ⟨first, later⟩ := List.forall_mem_cons.mp each
    exact Nat.add_le_add first (ih later)

@[simp] theorem sizeAll_nil : sizeAll [] = 0 := rfl

@[simp] theorem sizeAll_cons (type : TypeExpr) (rest : List TypeExpr) :
    sizeAll (type :: rest) = size type + sizeAll rest := rfl

@[simp] theorem sizeAll_append (types others : List TypeExpr) :
    sizeAll (types ++ others) = sizeAll types + sizeAll others := by
  rw [sizeAll, List.map_append, total_append]
  rfl

@[simp] theorem propertySizes_nil : propertySizes [] = 0 := rfl

@[simp] theorem propertySizes_cons (p : Property TypeExpr) (rest : List (Property TypeExpr)) :
    propertySizes (p :: rest) = 1 + size p.type + propertySizes rest := rfl

@[simp] theorem propertySizes_append (ps qs : List (Property TypeExpr)) :
    propertySizes (ps ++ qs) = propertySizes ps + propertySizes qs := by
  rw [propertySizes, List.map_append, total_append]
  rfl

theorem sizeAll_sublist {types others : List TypeExpr} (sublist : types.Sublist others) :
    sizeAll types ≤ sizeAll others := total_sublist (sublist.map size)

theorem propertySizes_mem {p : Property TypeExpr} {ps : List (Property TypeExpr)} (member : p ∈ ps) :
    1 + size p.type ≤ propertySizes ps :=
  total_sublist ((List.singleton_sublist.mpr member).map fun p : Property TypeExpr => 1 + size p.type)

theorem size_union (members : List TypeExpr) : size (union members) = 1 + sizeAll members := by
  rw [size, fold_eq]
  rfl

theorem size_intersection (members : List TypeExpr) : size (intersection members) = 1 + sizeAll members := by
  rw [size, fold_eq]
  rfl

theorem size_object (ps : List (Property TypeExpr)) : size (object ps) = 1 + propertySizes ps := by
  have equal : size (object ps) = 1 + total (((ps.map Member.property).map (Member.map size)).map fun member =>
      1 + total member.types) := fold_eq _ (object ps)
  rw [equal, List.map_map, List.map_map]
  rfl

theorem sizeAll_flatMap {f : TypeExpr → List TypeExpr} {types : List TypeExpr}
    (each : ∀ type ∈ types, sizeAll (f type) ≤ size type) : sizeAll (types.flatMap f) ≤ sizeAll types := by
  induction types with
  | nil => exact Nat.le_refl _
  | cons type rest ih =>
    obtain ⟨first, later⟩ := List.forall_mem_cons.mp each
    rw [List.flatMap_cons, sizeAll_append, sizeAll_cons]
    exact Nat.add_le_add first (ih later)

end Sizes

-- No larger than a union or an intersection of the two types.
def Modest (combine : TypeExpr → TypeExpr → TypeExpr) : Prop :=
  ∀ a b, size (combine a b) ≤ 1 + (size a + size b)

section Unions

variable {types : List TypeExpr} {join : TypeExpr → TypeExpr → TypeExpr}

theorem unionParts_size (type : TypeExpr) : sizeAll (unionParts type) ≤ size type := by
  induction type using parts_induction with
  | step type ih =>
    cases type with
    | union members =>
      rw [unionParts, unionPartsAll_eq, size_union]
      exact Nat.le_trans (sizeAll_flatMap ih) (Nat.le_add_left _ 1)
    | _ => exact Nat.le_refl _

theorem dropNever_sublist (types : List TypeExpr) : (dropNever types).Sublist types := by
  unfold dropNever
  split
  · exact List.filter_sublist
  · exact List.Sublist.refl types

theorem collapseFlags_size (types : List TypeExpr) : sizeAll (collapseFlags types) ≤ sizeAll types := by
  unfold collapseFlags
  split
  · -- each flag makes room for `boolean`, which is as large
    have collapsed (type : TypeExpr) : size (if type.isFlag then boolean else type) ≤ size type := by
      cases type with
      | literal l => cases l <;> exact Nat.le_refl _
      | _ => exact Nat.le_refl _
    refine Nat.le_trans (sizeAll_sublist (distinct_sublist _)) ?_
    rw [sizeAll, List.map_map]
    exact total_map_le fun type _ => collapsed type
  · split
    · exact sizeAll_sublist List.filter_sublist
    · exact Nat.le_refl _

theorem settledParts_size (types : List TypeExpr) : sizeAll (settledParts types) ≤ sizeAll types :=
  calc sizeAll (settledParts types)
    _ ≤ sizeAll (distinct (dropNever (unionPartsAll types))) := collapseFlags_size _
    _ ≤ sizeAll (unionPartsAll types) :=
      sizeAll_sublist ((distinct_sublist _).trans (dropNever_sublist _))
    _ = sizeAll (types.flatMap unionParts) := by rw [unionPartsAll_eq]
    _ ≤ sizeAll types := sizeAll_flatMap fun type _ => unionParts_size type

-- What a merge adds to the properties of the first object type is at most the property that it joins.
theorem joined_sizes (modest : Modest join) (pairs : List (Property TypeExpr × Property TypeExpr)) :
    propertySizes (pairs.map fun pair => if differs pair then joinProperty join pair.1 pair.2 else pair.1)
      ≤ propertySizes (pairs.map Prod.fst) + propertySizes ((pairs.filter differs).map Prod.snd) := by
  induction pairs with
  | nil => exact Nat.le_refl _
  | cons pair rest ih =>
    by_cases differ : differs pair = true
    · have bound : size (joinProperty join pair.1 pair.2).type ≤ 1 + (size pair.1.type + size pair.2.type) :=
        modest pair.1.type pair.2.type
      simp only [List.map_cons, propertySizes_cons, List.filter_cons_of_pos differ, if_pos differ]
      omega
    · simp only [List.map_cons, propertySizes_cons, List.filter_cons_of_neg differ, if_neg differ]
      omega

theorem mergePair?_size (modest : Modest join) {left right merged : TypeExpr}
    (found : mergePair? join left right = some merged) : size merged < size left + size right := by
  obtain ⟨ps, qs, pairs, rfl, rfl, _, paired, single, rfl⟩ := mergePair?_some found
  obtain ⟨pair, only⟩ := List.length_eq_one_iff.mp single
  have inside : pair ∈ pairs := List.mem_of_mem_filter (only ▸ List.mem_singleton_self pair)
  have paid := propertySizes_mem (pairUp_pairs paired inside).2.1
  have bound := joined_sizes modest pairs
  rw [only, pairUp_left paired, List.map_singleton, propertySizes_cons, propertySizes_nil] at bound
  rw [size_object, size_object, size_object]
  omega

theorem mergeWith?_size (modest : Modest join) {type merged : TypeExpr} {others : List TypeExpr}
    (found : mergeWith? join type types = some (merged, others)) :
    size merged + sizeAll others < size type + sizeAll types := by
  induction types generalizing others with
  | nil => cases found
  | cons other rest ih =>
    unfold mergeWith? at found
    split at found
    · rename_i result merges
      cases found
      have smaller := mergePair?_size modest merges
      rw [sizeAll_cons]
      omega
    · obtain ⟨⟨result, left⟩, later, equal⟩ := Option.map_eq_some_iff.mp found
      cases equal
      have smaller : size result + sizeAll left < size type + sizeAll rest := ih later
      show size result + (size other + sizeAll left) < size type + (size other + sizeAll rest)
      omega

theorem mergeOnce?_size (modest : Modest join) {merged : List TypeExpr}
    (found : mergeOnce? join types = some merged) : sizeAll merged < sizeAll types := by
  induction types generalizing merged with
  | nil => cases found
  | cons type rest ih =>
    unfold mergeOnce? at found
    split at found
    · rename_i result others merges
      cases found
      exact mergeWith?_size modest merges
    · obtain ⟨left, later, rfl⟩ := Option.map_eq_some_iff.mp found
      exact Nat.add_lt_add_left (ih later) (size type)

theorem mergeUpTo_size (modest : Modest join) (steps : Nat) (types : List TypeExpr) :
    sizeAll (mergeUpTo join steps types) ≤ sizeAll types := by
  induction steps generalizing types with
  | zero => exact Nat.le_refl _
  | succ steps ih =>
    unfold mergeUpTo
    split
    · rename_i merged once
      calc sizeAll (mergeUpTo join steps (distinct merged))
        _ ≤ sizeAll (distinct merged) := ih _
        _ ≤ sizeAll merged := sizeAll_sublist (distinct_sublist merged)
        _ ≤ sizeAll types := Nat.le_of_lt (mergeOnce?_size modest once)
    · exact Nat.le_refl _

theorem unionOfParts_size (types : List TypeExpr) : size (unionOfParts types) ≤ 1 + sizeAll types := by
  unfold unionOfParts
  split
  · exact Nat.le_refl _
  · exact Nat.le_add_left _ 1
  · exact Nat.le_of_eq (size_union _)

theorem unionWith_size (modest : Modest join) (types : List TypeExpr) :
    size (unionWith join types) ≤ 1 + sizeAll types := by
  have members : sizeAll (unionMembers join types) ≤ sizeAll types :=
    Nat.le_trans (mergeUpTo_size modest _ _) (settledParts_size types)
  rw [unionWith_eq]
  exact Nat.le_trans (unionOfParts_size _) (Nat.add_le_add_left members 1)

end Unions

section Intersections

variable {types : List TypeExpr} {meet : TypeExpr → TypeExpr → TypeExpr}

theorem intersectionParts_size (type : TypeExpr) : sizeAll (intersectionParts type) ≤ size type := by
  induction type using parts_induction with
  | step type ih =>
    cases type with
    | intersection members =>
      rw [intersectionParts, intersectionPartsAll_eq, size_intersection]
      exact Nat.le_trans (sizeAll_flatMap ih) (Nat.le_add_left _ 1)
    | _ => exact Nat.le_refl _

theorem keptOperands_size (types : List TypeExpr) : sizeAll (keptOperands types) ≤ sizeAll types :=
  calc sizeAll (keptOperands types)
    _ ≤ sizeAll (intersectionPartsAll types) :=
      sizeAll_sublist ((distinct_sublist _).trans List.filter_sublist)
    _ = sizeAll (types.flatMap intersectionParts) := by rw [intersectionPartsAll_eq]
    _ ≤ sizeAll types := sizeAll_flatMap fun type _ => intersectionParts_size type

theorem addProperty_size (modest : Modest meet) (q : Property TypeExpr) (ps : List (Property TypeExpr)) :
    propertySizes (addProperty meet q ps) ≤ propertySizes ps + (1 + size q.type) := by
  induction ps with
  | nil => exact Nat.le_of_eq (Nat.add_comm _ _)
  | cons p rest ih =>
    unfold addProperty
    split
    · have bound : size (meetProperty meet p q).type ≤ 1 + (size p.type + size q.type) := modest p.type q.type
      rw [propertySizes_cons, propertySizes_cons]
      omega
    · rw [propertySizes_cons, propertySizes_cons]
      omega

theorem addProperties_size (modest : Modest meet) (ps qs : List (Property TypeExpr)) :
    propertySizes (addProperties meet ps qs) ≤ propertySizes ps + propertySizes qs := by
  unfold addProperties
  induction qs generalizing ps with
  | nil => exact Nat.le_refl _
  | cons q rest ih =>
    have first := addProperty_size modest q ps
    have later := ih (addProperty meet q ps)
    rw [List.foldl_cons, propertySizes_cons]
    omega

-- Gathering adds the properties of all further object types to those of the first.
theorem gathered_eq (ps : List (Property TypeExpr)) (groups : List (List (Property TypeExpr))) :
    groups.foldl (addProperties meet) ps = addProperties meet ps groups.flatten := by
  rw [addProperties, List.foldl_flatten]
  rfl

theorem operands_size (types : List TypeExpr) :
    propertySizes (types.filterMap properties?).flatten
      + sizeAll (types.filter fun type => type.properties?.isNone) ≤ sizeAll types := by
  induction types with
  | nil => exact Nat.le_refl _
  | cons type rest ih =>
    cases found : type.properties? with
    | none =>
      rw [List.filterMap_cons_none found, List.filter_cons_of_pos (by rw [found]; rfl), sizeAll_cons, sizeAll_cons]
      omega
    | some ps =>
      rw [List.filterMap_cons_some found, List.filter_cons_of_neg (by rw [found]; simp), List.flatten_cons,
        propertySizes_append, sizeAll_cons, properties?_eq found, size_object]
      omega

theorem gatherProperties_size (modest : Modest meet) (types : List TypeExpr) :
    sizeAll (gatherProperties meet types) ≤ sizeAll types := by
  induction types with
  | nil => exact Nat.le_refl _
  | cons type rest ih =>
    unfold gatherProperties
    split
    · exact Nat.add_le_add_left ih (size type)
    · rename_i ps found
      have gathered := addProperties_size modest ps (rest.filterMap properties?).flatten
      have others := operands_size rest
      rw [gathered_eq, sizeAll_cons, sizeAll_cons, size_object, properties?_eq found, size_object]
      omega

theorem intersectionOfParts_size (sawUnknown : Bool) (types : List TypeExpr) :
    size (intersectionOfParts sawUnknown types) ≤ 1 + sizeAll types := by
  unfold intersectionOfParts
  split
  · cases sawUnknown <;> exact Nat.le_refl _
  · exact Nat.le_add_left _ 1
  · exact Nat.le_of_eq (size_intersection _)

theorem intersectionWith_size (modest : Modest meet) (types : List TypeExpr) :
    size (intersectionWith meet types) ≤ 1 + sizeAll types := by
  have members : sizeAll (intersectionMembers meet types) ≤ sizeAll types :=
    calc sizeAll (intersectionMembers meet types)
      _ ≤ sizeAll (gatherProperties meet (keptOperands types)) := sizeAll_sublist (distinct_sublist _)
      _ ≤ sizeAll (keptOperands types) := gatherProperties_size modest _
      _ ≤ sizeAll types := keptOperands_size types
  rw [intersectionWith_eq]
  split
  · exact Nat.le_add_right 1 _
  · exact Nat.le_trans (intersectionOfParts_size _ _) (Nat.add_le_add_left members 1)

end Intersections

end ApiContract.TypeExpr
