import ApiContract.Proofs.TypeParts

namespace ApiContract

-- What the members of a canonical union or intersection are to each other, and that putting such
-- members together once more changes nothing.

section Equality

theorem Literal.beq_self (l : Literal) : (l == l) = true := by
  cases l with
  | number x => exact Double.beq_iff.mpr rfl
  | null => rfl
  | string s => exact beq_self_eq_true s
  | int n => exact beq_self_eq_true n
  | bool b => exact beq_self_eq_true b

theorem Literal.beq_symm {l m : Literal} (equal : (l == m) = true) : (m == l) = true := by
  cases l with
  | number x =>
    cases m with
    | number y => exact Double.beq_iff.mpr (Double.beq_iff.mp equal).symm
    | _ => cases equal
  | string s =>
    cases m with
    | string t => cases eq_of_beq (show (s == t) = true from equal); exact equal
    | _ => cases equal
  | int n =>
    cases m with
    | int k => cases eq_of_beq (show (n == k) = true from equal); exact equal
    | _ => cases equal
  | bool b =>
    cases m with
    | bool c => cases eq_of_beq (show (b == c) = true from equal); exact equal
    | _ => cases equal
  | null =>
    cases m with
    | null => rfl
    | _ => cases equal

namespace TypeExpr

theorem testMember_self {member : Member TypeExpr} (types : ∀ type ∈ member.types, same type type = true) :
    testMember (member.map same) member = true := by
  cases member with
  | property p =>
    have type := types p.type (List.mem_singleton_self _)
    simp [testMember, Member.map, type]
  | index s =>
    have key := types s.key List.mem_cons_self
    have value := types s.value (List.mem_cons_of_mem _ List.mem_cons_self)
    simp [testMember, Member.map, key, value]

theorem testMember_symm {member other : Member TypeExpr}
    (types : ∀ type ∈ member.types, ∀ second, same type second = true → same second type = true)
    (equal : testMember (member.map same) other = true) : testMember (other.map same) member = true := by
  cases member with
  | property p =>
    cases other with
    | property q =>
      simp only [testMember, Member.map, Bool.and_eq_true, beq_iff_eq] at equal ⊢
      obtain ⟨⟨⟨name, type⟩, optional⟩, doc⟩ := equal
      exact ⟨⟨⟨name.symm, types _ (List.mem_singleton_self _) _ type⟩, optional.symm⟩, doc.symm⟩
    | index t => cases equal
  | index s =>
    cases other with
    | property q => cases equal
    | index t =>
      simp only [testMember, Member.map, Bool.and_eq_true, beq_iff_eq] at equal ⊢
      obtain ⟨⟨keyName, key⟩, value⟩ := equal
      exact ⟨⟨keyName.symm, types _ List.mem_cons_self _ key⟩,
        types _ (List.mem_cons_of_mem _ List.mem_cons_self) _ value⟩

theorem all_same_self {types : List TypeExpr} (each : ∀ type ∈ types, same type type = true) :
    pointwise (fun test => test) (types.map same) types = true := by
  refine pointwise_of_related (List.forall₂_map_left_iff.mpr ?_)
  exact List.forall₂_same.mpr each

theorem all_same_symm {types others : List TypeExpr}
    (each : ∀ type ∈ types, ∀ second, same type second = true → same second type = true)
    (equal : pointwise (fun test => test) (types.map same) others = true) :
    pointwise (fun test => test) (others.map same) types = true :=
  pointwise_of_related (List.forall₂_map_left_iff.mpr (related_imp (all_same equal) each).flip)

theorem same_self (type : TypeExpr) : same type type = true := by
  induction type using parts_induction with
  | step type ih =>
    unfold same
    rw [fold_eq]
    cases type with
    | primitive p => exact beq_self_eq_true p
    | literal l => exact l.beq_self
    | reference name => exact beq_self_eq_true name
    | union members => exact all_same_self ih
    | intersection members => exact all_same_self ih
    | record members =>
      refine pointwise_of_related (List.forall₂_map_left_iff.mpr (List.forall₂_same.mpr ?_))
      exact fun member inside => testMember_self fun type typed =>
        ih type (List.mem_flatMap.mpr ⟨member, inside, typed⟩)
    | array items => exact ih items (List.mem_singleton_self _)
    | tuple places rest =>
      obtain ⟨inPlaces, inRest⟩ := List.forall_mem_append.mp ih
      refine (Bool.and_eq_true _ _).mpr ⟨all_same_self inPlaces, ?_⟩
      cases rest with
      | none => rfl
      | some last => exact inRest last (List.mem_singleton_self _)

instance : ReflBEq TypeExpr := ⟨same_self _⟩

theorem same_symm {type other : TypeExpr} (equal : same type other = true) : same other type = true := by
  induction type using parts_induction generalizing other with
  | step type ih =>
    unfold same at equal ⊢
    rw [fold_eq] at equal ⊢
    cases type with
    | primitive p =>
      cases other with
      | primitive q => cases eq_of_beq (show (p == q) = true from equal); exact equal
      | _ => cases equal
    | literal l =>
      cases other with
      | literal m => exact Literal.beq_symm equal
      | _ => cases equal
    | reference name =>
      cases other with
      | reference second => cases eq_of_beq (show (name == second) = true from equal); exact equal
      | _ => cases equal
    | union members =>
      cases other with
      | union others => exact all_same_symm (fun type member second => ih type member) equal
      | _ => cases equal
    | intersection members =>
      cases other with
      | intersection others => exact all_same_symm (fun type member second => ih type member) equal
      | _ => cases equal
    | record members =>
      cases other with
      | record others =>
        have related := List.forall₂_map_left_iff.mp (pointwise_related equal)
        refine pointwise_of_related (List.forall₂_map_left_iff.mpr (related_imp related ?_).flip)
        exact fun member inside second => testMember_symm fun type typed other =>
          ih type (List.mem_flatMap.mpr ⟨member, inside, typed⟩)
      | _ => cases equal
    | array items =>
      cases other with
      | array second => exact ih items (List.mem_singleton_self _) equal
      | _ => cases equal
    | tuple places rest =>
      cases other with
      | tuple others last =>
        obtain ⟨first, second⟩ := (Bool.and_eq_true _ _).mp equal
        have places := all_same_symm (fun type member _ => ih type (List.mem_append_left _ member)) first
        refine (Bool.and_eq_true _ _).mpr ⟨places, ?_⟩
        cases rest with
        | none =>
          cases last with
          | none => rfl
          | some type => cases second
        | some type =>
          cases last with
          | none => cases second
          | some other => exact ih type (List.mem_append_right _ (List.mem_singleton_self _)) second
      | _ => cases equal

theorem beq_symm {type other : TypeExpr} (differ : (type == other) = false) : (other == type) = false := by
  rw [Bool.eq_false_iff] at differ ⊢
  exact fun equal => differ (same_symm equal)

theorem same_emptyObject {type : TypeExpr} (equal : same type emptyObject = true) : type = emptyObject := by
  cases type with
  | record members =>
    cases members_correspond equal
    rfl
  | tuple places rest => cases rest <;> cases equal
  | _ => cases equal

theorem contains_of_mem {type : TypeExpr} {types : List TypeExpr} (member : type ∈ types) :
    types.contains type = true :=
  List.contains_iff_exists_mem_beq.mpr ⟨type, member, beq_self_eq_true type⟩

end TypeExpr

end Equality

namespace TypeExpr

section Unions

variable {types : List TypeExpr} {join : TypeExpr → TypeExpr → TypeExpr}

-- Members that are flat, and of which none is absorbed by another.
structure Settled (types : List TypeExpr) : Prop where
  flat : ∀ type ∈ types, ∀ members, type ≠ union members
  alone : never ∈ types → types = [never]
  flags : ¬ (flag true ∈ types ∧ flag false ∈ types)
  absorbed : boolean ∈ types → ∀ type ∈ types, type.isFlag = false

-- No two members are equal, and no two merge.
structure UnionReduced (types : List TypeExpr) : Prop extends Settled types where
  differ : types.Pairwise fun a b => (a == b) = false
  apart : types.Pairwise fun a b => ∀ join, mergePair? join a b = none

theorem unionParts_flat (type : TypeExpr) : ∀ part ∈ unionParts type, ∀ members, part ≠ union members := by
  induction type using parts_induction with
  | step type ih =>
    cases type with
    | union members =>
      rw [unionParts, unionPartsAll_eq]
      intro part member
      obtain ⟨inner, listed, member⟩ := List.mem_flatMap.mp member
      exact ih inner listed part member
    | _ => exact List.forall_mem_singleton.mpr fun members equal => by cases equal

theorem dropNever_alone (found : never ∈ dropNever types) : types = [never] := by
  unfold dropNever at found
  split at found
  · exact absurd (List.mem_filter.mp found).2 (by decide)
  · rename_i short
    cases types with
    | nil => cases found
    | cons type rest =>
      cases rest with
      | nil => rw [List.mem_singleton.mp found]
      | cons second rest => simp at short

theorem collapseFlags_flags (types : List TypeExpr) :
    ¬ (flag true ∈ collapseFlags types ∧ flag false ∈ collapseFlags types) ∧
      (boolean ∈ collapseFlags types → ∀ type ∈ collapseFlags types, type.isFlag = false) := by
  have unflagged {kept : List TypeExpr} (none : ∀ type ∈ kept, type.isFlag = false) :
      ¬ (flag true ∈ kept ∧ flag false ∈ kept) ∧ (boolean ∈ kept → ∀ type ∈ kept, type.isFlag = false) :=
    ⟨fun both => Bool.noConfusion (none _ both.1), fun _ => none⟩
  unfold collapseFlags
  split
  · refine unflagged fun type member => ?_
    obtain ⟨old, _, rfl⟩ := List.mem_map.mp (distinct_subset member)
    split
    · rfl
    · rename_i plain
      simpa using plain
  · rename_i apart
    split
    · exact unflagged fun type member => by simpa using (List.mem_filter.mp member).2
    · rename_i absent
      refine ⟨fun both => apart ?_, fun found => absurd (contains_of_mem found) absent⟩
      rw [contains_of_mem both.1, contains_of_mem both.2]
      rfl

theorem settledParts_settled (types : List TypeExpr) : Settled (settledParts types) := by
  obtain ⟨flags, absorbed⟩ := collapseFlags_flags (distinct (dropNever (unionPartsAll types)))
  refine ⟨?_, ?_, flags, absorbed⟩
  · intro type member
    rcases mem_collapseFlags member with kept | rfl
    · have flat := dropNever_subset (distinct_subset kept)
      rw [unionPartsAll_eq] at flat
      obtain ⟨source, _, part⟩ := List.mem_flatMap.mp flat
      exact unionParts_flat source type part
    · exact fun members equal => by cases equal
  · intro found
    rcases mem_collapseFlags found with kept | equal
    · unfold settledParts
      rw [dropNever_alone (distinct_subset kept)]
      rfl
    · cases equal

theorem settledParts_differ (types : List TypeExpr) :
    (settledParts types).Pairwise fun a b => (a == b) = false := by
  have before := pairwise_distinct (dropNever (unionPartsAll types))
  unfold settledParts collapseFlags
  split
  · exact pairwise_distinct _
  · split
    · exact before.filter _
    · exact before

-- Whether two types merge does not depend on how their properties are joined.
theorem mergePair?_none {a b : TypeExpr} (none : mergePair? join a b = none)
    (other : TypeExpr → TypeExpr → TypeExpr) : mergePair? other a b = .none := by
  unfold mergePair? at none ⊢
  cases left : a.properties? with
  | none => rfl
  | some ps =>
    cases right : b.properties? with
    | none => rfl
    | some qs =>
      simp only [left, right] at none ⊢
      by_cases short : (ps.isEmpty || ps.length != qs.length) = true
      · rw [if_pos short]
      · rw [if_neg short] at none ⊢
        cases paired : pairUp qs ps with
        | none => rfl
        | some pairs =>
          simp only [paired] at none ⊢
          by_cases single : ((pairs.filter differs).length == 1) = true
          · rw [if_pos single] at none
            cases none
          · rw [if_neg single]

theorem mergeWith?_none {type : TypeExpr} :
    mergeWith? join type types = none ↔ ∀ other ∈ types, mergePair? join type other = none := by
  induction types with
  | nil => simp [mergeWith?]
  | cons other rest ih =>
    unfold mergeWith?
    rw [List.forall_mem_cons, ← ih]
    split
    · rename_i merged merges
      simp [merges]
    · rename_i unmerged
      simp [unmerged]

theorem mergeOnce?_none :
    mergeOnce? join types = none ↔ types.Pairwise fun a b => mergePair? join a b = none := by
  induction types with
  | nil => simp [mergeOnce?]
  | cons type rest ih =>
    unfold mergeOnce?
    rw [List.pairwise_cons, ← ih, ← mergeWith?_none]
    split
    · rename_i merged others merges
      simp [merges]
    · rename_i unmerged
      simp [unmerged]

theorem mergeWith?_length {type merged : TypeExpr} {others : List TypeExpr}
    (found : mergeWith? join type types = some (merged, others)) : others.length + 1 = types.length := by
  induction types generalizing others with
  | nil => cases found
  | cons other rest ih =>
    unfold mergeWith? at found
    split at found
    · cases found
      rfl
    · obtain ⟨⟨result, left⟩, later, equal⟩ := Option.map_eq_some_iff.mp found
      cases equal
      simp [← ih later]

theorem mergeOnce?_length {merged : List TypeExpr} (found : mergeOnce? join types = some merged) :
    merged.length + 1 = types.length := by
  induction types generalizing merged with
  | nil => cases found
  | cons type rest ih =>
    unfold mergeOnce? at found
    split at found
    · rename_i result others merges
      cases found
      simp [← mergeWith?_length merges]
    · obtain ⟨left, later, rfl⟩ := Option.map_eq_some_iff.mp found
      simp [← ih later]

-- A merge brings in one object type and nothing else, so it upsets nothing that is settled.
theorem mergeOnce?_settled {merged : List TypeExpr} (found : mergeOnce? join types = some merged)
    (settled : Settled types) : Settled (distinct merged) := by
  obtain ⟨a, first, b, second, result, merges, remaining⟩ := mergeOnce?_some found
  obtain ⟨_, _, pairs, _, _, _, _, _, equal⟩ := mergePair?_some merges
  have mem {type : TypeExpr} (member : type ∈ distinct merged) : (∃ ps, type = object ps) ∨ type ∈ types := by
    rcases remaining type (distinct_subset member) with rfl | old
    · exact .inl ⟨_, equal⟩
    · exact .inr old
  have old {type : TypeExpr} (member : type ∈ distinct merged) (plain : ∀ ps, type ≠ object ps) :
      type ∈ types := (mem member).resolve_left fun ⟨ps, equal⟩ => plain ps equal
  refine ⟨?_, ?_, ?_, ?_⟩
  · intro type member members
    rcases mem member with ⟨ps, rfl⟩ | kept
    · exact fun equal => by cases equal
    · exact settled.flat type kept members
  · intro member
    have only := settled.alone (old member fun ps equal => by cases equal)
    rw [only] at found
    cases found
  · rintro ⟨yes, no⟩
    have plain (b : Bool) (ps : List (Property TypeExpr)) : flag b ≠ object ps := fun equal => by cases equal
    exact settled.flags ⟨old yes (plain true), old no (plain false)⟩
  · intro member type listed
    rcases mem listed with ⟨ps, rfl⟩ | kept
    · rfl
    · exact settled.absorbed (old member fun ps equal => by cases equal) type kept

-- Each merge leaves one member less, so as many steps as members are enough.
theorem mergeUpTo_reduced {steps : Nat} (enough : types.length ≤ steps) (settled : Settled types)
    (differ : types.Pairwise fun a b => (a == b) = false) : UnionReduced (mergeUpTo join steps types) := by
  induction steps generalizing types with
  | zero =>
    cases List.length_eq_zero_iff.mp (Nat.le_zero.mp enough)
    exact ⟨settled, .nil, .nil⟩
  | succ steps ih =>
    unfold mergeUpTo
    split
    · rename_i merged once
      refine ih ?_ (mergeOnce?_settled once settled) (pairwise_distinct merged)
      have fewer := mergeOnce?_length once
      have kept := (distinct_sublist merged).length_le
      omega
    · rename_i done
      exact ⟨settled, differ, (mergeOnce?_none.mp done).imp fun none => mergePair?_none none⟩

theorem unionMembers_reduced (join : TypeExpr → TypeExpr → TypeExpr) (types : List TypeExpr) :
    UnionReduced (unionMembers join types) :=
  mergeUpTo_reduced (Nat.le_refl _) (settledParts_settled types) (settledParts_differ types)

theorem mergeUpTo_stable (steps : Nat)
    (apart : types.Pairwise fun a b => ∀ join, mergePair? join a b = none) :
    mergeUpTo join steps types = types := by
  cases steps with
  | zero => rfl
  | succ steps =>
    have done : mergeOnce? join types = none := mergeOnce?_none.mpr (apart.imp fun none => none join)
    unfold mergeUpTo
    rw [done]

theorem collapseFlags_stable (settled : Settled types) : collapseFlags types = types := by
  have flagged {b : Bool} (found : types.contains (flag b) = true) : flag b ∈ types := by
    obtain ⟨type, member, equal⟩ := List.contains_iff_exists_mem_beq.mp found
    cases type with
    | literal l =>
      cases l with
      | bool c => cases eq_of_beq (show (b == c) = true from equal); exact member
      | _ => cases equal
    | _ => cases equal
  unfold collapseFlags
  split
  · rename_i both
    obtain ⟨yes, no⟩ := (Bool.and_eq_true _ _).mp both
    exact absurd ⟨flagged yes, flagged no⟩ settled.flags
  · split
    · rename_i found
      refine List.filter_eq_self.mpr fun type member => ?_
      rw [settled.absorbed (contains_boolean found) type member]
      rfl
    · rfl

theorem unionPartsAll_flat (flat : ∀ type ∈ types, ∀ members, type ≠ union members) :
    unionPartsAll types = types := by
  induction types with
  | nil => rfl
  | cons type rest ih =>
    obtain ⟨first, later⟩ := List.forall_mem_cons.mp flat
    have single : unionParts type = [type] := by
      cases type with
      | union members => exact absurd rfl (first members)
      | _ => rfl
    rw [unionPartsAll, ih later, single]
    rfl

theorem unionPartsAll_union (flat : ∀ type ∈ types, ∀ members, type ≠ union members) :
    unionPartsAll [union types] = types ∧ unionPartsAll [union types, union types] = types ++ types := by
  have once : unionPartsAll [union types] = types := by
    rw [unionPartsAll, unionParts, unionPartsAll_flat flat]
    exact List.append_nil types
  refine ⟨once, ?_⟩
  rw [unionPartsAll, once, unionParts, unionPartsAll_flat flat]

theorem dropNever_of_not_mem (absent : never ∉ types) : dropNever types = types := by
  unfold dropNever
  split
  · refine List.filter_eq_self.mpr fun type member => ?_
    rw [bne, Bool.not_eq_true', Bool.eq_false_iff]
    exact fun equal => absent ((show type = never from same_primitive equal) ▸ member)
  · rfl

-- Reduced members are the settled parts of any list that flattens to one or two copies of them.
theorem settledParts_stable {sources : List TypeExpr} (reduced : UnionReduced types)
    (flat : unionPartsAll sources = types ∨ unionPartsAll sources = types ++ types)
    (several : types ≠ [never]) : settledParts sources = types := by
  have absent : never ∉ types := fun found => several (reduced.alone found)
  unfold settledParts
  rcases flat with once | twice
  · rw [once, dropNever_of_not_mem absent, distinct_of_pairwise reduced.differ,
      collapseFlags_stable reduced.toSettled]
  · have both : never ∉ types ++ types := by simpa using absent
    rw [twice, dropNever_of_not_mem both, distinct_twice reduced.differ,
      collapseFlags_stable reduced.toSettled]

theorem unionWith_reduced {sources : List TypeExpr} (reduced : UnionReduced types)
    (flat : unionPartsAll sources = types ∨ unionPartsAll sources = types ++ types)
    (several : types ≠ [never]) : unionWith join sources = unionOfParts types := by
  rw [unionWith_eq, unionMembers, settledParts_stable reduced flat several, mergeUpTo_stable _ reduced.apart]

theorem unionWith_stable (reduced : UnionReduced types) :
    unionWith join [unionOfParts types] = unionOfParts types ∧
      unionWith join [unionOfParts types, unionOfParts types] = unionOfParts types := by
  by_cases single : types = [never]
  · rw [single]
    exact ⟨rfl, rfl⟩
  have again {sources : List TypeExpr}
      (flat : unionPartsAll sources = types ∨ unionPartsAll sources = types ++ types) :
      unionWith join sources = unionOfParts types := unionWith_reduced reduced flat single
  match types with
  | [] => exact ⟨rfl, rfl⟩
  | [type] =>
    have flat := reduced.flat type (List.mem_singleton_self _)
    refine ⟨again (.inl (unionPartsAll_flat reduced.flat)), again (.inr (unionPartsAll_flat ?_))⟩
    exact List.forall_mem_cons.mpr ⟨flat, List.forall_mem_singleton.mpr flat⟩
  | first :: second :: rest =>
    obtain ⟨once, twice⟩ := unionPartsAll_union reduced.flat
    exact ⟨again (.inl once), again (.inr twice)⟩

theorem unionAt_eq (level : Nat) : ∃ join, unionAt level = unionWith join := by
  cases level <;> exact ⟨_, rfl⟩

-- Nothing is left to do for members that are reduced.
theorem unionOf_reduced (reduced : UnionReduced types) (several : types ≠ [never]) :
    unionOf types = unionOfParts types := by
  obtain ⟨join, equal⟩ := unionAt_eq (nestingAll types)
  rw [unionOf, equal]
  exact unionWith_reduced reduced (.inl (unionPartsAll_flat reduced.flat)) several

-- A canonical union stands for itself, alone or twice.
theorem unionOf_stable (types : List TypeExpr) :
    unionOf [unionOf types] = unionOf types ∧ unionOf [unionOf types, unionOf types] = unionOf types := by
  have stable (type : TypeExpr) (again : ∀ join, unionWith join [type] = type ∧
      unionWith join [type, type] = type) : unionOf [type] = type ∧ unionOf [type, type] = type := by
    obtain ⟨once, equal⟩ := unionAt_eq (nestingAll [type])
    obtain ⟨twice, same⟩ := unionAt_eq (nestingAll [type, type])
    rw [unionOf, unionOf, equal, same]
    exact ⟨(again once).1, (again twice).2⟩
  refine stable _ ?_
  obtain ⟨join, equal⟩ := unionAt_eq (nestingAll types)
  rw [unionOf, equal, unionWith_eq]
  exact fun other => unionWith_stable (unionMembers_reduced join types)

end Unions

section Intersections

variable {types : List TypeExpr} {meet : TypeExpr → TypeExpr → TypeExpr}

-- Operands that are flat and different, that all ask something, and of which one at most is an object
-- type that has properties only.
structure IntersectionReduced (types : List TypeExpr) : Prop where
  flat : ∀ type ∈ types, ∀ members, type ≠ intersection members
  possible : never ∉ types
  known : unknown ∉ types
  asking : emptyObject ∉ types
  differ : types.Pairwise fun a b => (a == b) = false
  single : types.Pairwise fun a b => a.properties? = none ∨ b.properties? = none

theorem intersectionParts_flat (type : TypeExpr) :
    ∀ part ∈ intersectionParts type, ∀ members, part ≠ intersection members := by
  induction type using parts_induction with
  | step type ih =>
    cases type with
    | intersection members =>
      rw [intersectionParts, intersectionPartsAll_eq]
      intro part member
      obtain ⟨inner, listed, member⟩ := List.mem_flatMap.mp member
      exact ih inner listed part member
    | _ => exact List.forall_mem_singleton.mpr fun members equal => by cases equal

theorem asks_iff {type : TypeExpr} :
    (type != unknown && type != emptyObject) = true ↔ type ≠ unknown ∧ type ≠ emptyObject := by
  rw [Bool.and_eq_true]
  refine and_congr ⟨?_, ?_⟩ ⟨?_, ?_⟩
  · rintro differs rfl
    exact absurd differs (by decide)
  · intro differs
    rw [bne, Bool.not_eq_true', Bool.eq_false_iff]
    exact fun equal => differs (same_primitive equal)
  · rintro differs rfl
    exact absurd differs (by decide)
  · intro differs
    rw [bne, Bool.not_eq_true', Bool.eq_false_iff]
    exact fun equal => differs (same_emptyObject equal)

theorem addProperties_ne_nil {ps : List (Property TypeExpr)} (some : ps ≠ [])
    (qs : List (Property TypeExpr)) : addProperties meet ps qs ≠ [] := by
  have add (q : Property TypeExpr) (ps : List (Property TypeExpr)) : addProperty meet q ps ≠ [] := by
    cases ps with
    | nil => exact List.cons_ne_nil _ _
    | cons p rest =>
      unfold addProperty
      split <;> exact List.cons_ne_nil _ _
  unfold addProperties
  induction qs generalizing ps with
  | nil => exact some
  | cons q rest ih => exact ih (add q ps)

theorem gathered_ne_nil {ps : List (Property TypeExpr)} (some : ps ≠ [])
    (groups : List (List (Property TypeExpr))) : groups.foldl (addProperties meet) ps ≠ [] := by
  induction groups generalizing ps with
  | nil => exact some
  | cons qs rest ih => exact ih (addProperties_ne_nil some qs)

theorem object_eq_emptyObject {ps : List (Property TypeExpr)} : object ps = emptyObject ↔ ps = [] := by
  constructor
  · intro equal
    exact List.map_eq_nil_iff.mp (record.inj equal)
  · rintro rfl
    rfl

-- Gathering brings in one object type, which is not empty.
theorem mem_gatherProperties (asking : emptyObject ∉ types) {type : TypeExpr}
    (member : type ∈ gatherProperties meet types) :
    type ∈ types ∨ ∃ ps, type = object ps ∧ type ≠ emptyObject := by
  induction types with
  | nil => cases member
  | cons first rest ih =>
    unfold gatherProperties at member
    split at member
    · rcases List.mem_cons.mp member with rfl | later
      · exact .inl List.mem_cons_self
      · refine (ih (fun empty => asking (List.mem_cons_of_mem first empty)) later).imp_left ?_
        exact List.mem_cons_of_mem first
    · rename_i ps found
      rcases List.mem_cons.mp member with rfl | later
      · refine .inr ⟨_, rfl, ?_⟩
        have some : ps ≠ [] := by
          rintro rfl
          rw [properties?_eq found] at asking
          exact asking List.mem_cons_self
        exact fun empty => gathered_ne_nil some _ (object_eq_emptyObject.mp empty)
      · exact .inl (List.mem_cons_of_mem first (List.mem_of_mem_filter later))

theorem gatherProperties_single (types : List TypeExpr) :
    (gatherProperties meet types).Pairwise fun a b => a.properties? = none ∨ b.properties? = none := by
  induction types with
  | nil => exact .nil
  | cons type rest ih =>
    unfold gatherProperties
    split
    · rename_i plain
      exact List.pairwise_cons.mpr ⟨fun _ _ => .inl plain, ih⟩
    · have others : ∀ other ∈ rest.filter (fun other => other.properties?.isNone), other.properties? = none :=
        fun other member => by simpa using (List.mem_filter.mp member).2
      refine List.pairwise_cons.mpr ⟨fun other member => .inr (others other member), ?_⟩
      exact List.pairwise_of_forall_mem_list fun a inside b _ => .inl (others a inside)

theorem gatherProperties_stable
    (single : types.Pairwise fun a b => a.properties? = none ∨ b.properties? = none) :
    gatherProperties meet types = types := by
  induction types with
  | nil => rfl
  | cons type rest ih =>
    obtain ⟨first, later⟩ := List.pairwise_cons.mp single
    unfold gatherProperties
    split
    · rw [ih later]
    · rename_i ps found
      have others : ∀ other ∈ rest, other.properties? = none := by
        intro other member
        refine (first other member).resolve_left ?_
        rw [found]
        exact Option.some_ne_none ps
      have none : rest.filterMap properties? = [] := List.filterMap_eq_nil_iff.mpr others
      have all : rest.filter (fun other => other.properties?.isNone) = rest :=
        List.filter_eq_self.mpr fun other member => by rw [others other member]; rfl
      rw [none, all, properties?_eq found]
      rfl

theorem intersectionMembers_reduced (meet : TypeExpr → TypeExpr → TypeExpr)
    (possible : ¬ (intersectionPartsAll types).contains never = true) :
    IntersectionReduced (intersectionMembers meet types) := by
  have asks : ∀ type ∈ keptOperands types, type ≠ unknown ∧ type ≠ emptyObject :=
    fun type member => asks_iff.mp (List.mem_filter.mp (distinct_subset member)).2
  have asking : emptyObject ∉ keptOperands types := fun empty => (asks _ empty).2 rfl
  have mem {type : TypeExpr} (member : type ∈ intersectionMembers meet types) :
      type ∈ keptOperands types ∨ ∃ ps, type = object ps ∧ type ≠ emptyObject :=
    mem_gatherProperties asking (distinct_subset member)
  refine ⟨?_, ?_, ?_, ?_, pairwise_distinct _, (gatherProperties_single _).sublist (distinct_sublist _)⟩
  · intro type member members
    rcases mem member with kept | ⟨ps, rfl, _⟩
    · have flat := keptOperands_subset kept
      rw [intersectionPartsAll_eq] at flat
      obtain ⟨source, _, part⟩ := List.mem_flatMap.mp flat
      exact intersectionParts_flat source type part members
    · exact fun equal => by cases equal
  · intro member
    rcases mem member with kept | ⟨ps, equal, _⟩
    · exact possible (contains_of_mem (keptOperands_subset kept))
    · cases equal
  · intro member
    rcases mem member with kept | ⟨ps, equal, _⟩
    · exact (asks _ kept).1 rfl
    · cases equal
  · intro member
    rcases mem member with kept | ⟨ps, _, asking⟩
    · exact asking kept
    · exact asking rfl

theorem intersectionPartsAll_flat (flat : ∀ type ∈ types, ∀ members, type ≠ intersection members) :
    intersectionPartsAll types = types := by
  induction types with
  | nil => rfl
  | cons type rest ih =>
    obtain ⟨first, later⟩ := List.forall_mem_cons.mp flat
    have single : intersectionParts type = [type] := by
      cases type with
      | intersection members => exact absurd rfl (first members)
      | _ => rfl
    rw [intersectionPartsAll, ih later, single]
    rfl

theorem intersectionPartsAll_intersection (flat : ∀ type ∈ types, ∀ members, type ≠ intersection members) :
    intersectionPartsAll [intersection types] = types ∧
      intersectionPartsAll [intersection types, intersection types] = types ++ types := by
  have once : intersectionPartsAll [intersection types] = types := by
    rw [intersectionPartsAll, intersectionParts, intersectionPartsAll_flat flat]
    exact List.append_nil types
  refine ⟨once, ?_⟩
  rw [intersectionPartsAll, once, intersectionParts, intersectionPartsAll_flat flat]

theorem intersectionMembers_stable {sources : List TypeExpr} (reduced : IntersectionReduced types)
    (flat : intersectionPartsAll sources = types ∨ intersectionPartsAll sources = types ++ types) :
    intersectionMembers meet sources = types := by
  have asks (type : TypeExpr) (member : type ∈ types) : (type != unknown && type != emptyObject) = true :=
    asks_iff.mpr ⟨fun equal => reduced.known (equal ▸ member), fun equal => reduced.asking (equal ▸ member)⟩
  have once : types.filter (fun type => type != unknown && type != emptyObject) = types :=
    List.filter_eq_self.mpr asks
  have kept : keptOperands sources = types := by
    unfold keptOperands
    rcases flat with equal | equal
    · rw [equal, once, distinct_of_pairwise reduced.differ]
    · rw [equal, List.filter_append, once, distinct_twice reduced.differ]
  rw [intersectionMembers, kept, gatherProperties_stable reduced.single, distinct_of_pairwise reduced.differ]

theorem intersectionWith_stable (sawUnknown : Bool) (reduced : IntersectionReduced types) :
    intersectionWith meet [intersectionOfParts sawUnknown types] = intersectionOfParts sawUnknown types ∧
      intersectionWith meet [intersectionOfParts sawUnknown types, intersectionOfParts sawUnknown types]
        = intersectionOfParts sawUnknown types := by
  have again {sources : List TypeExpr} (some : types ≠ [])
      (flat : intersectionPartsAll sources = types ∨ intersectionPartsAll sources = types ++ types) :
      intersectionWith meet sources = intersectionOfParts sawUnknown types := by
    have possible : ¬ (intersectionPartsAll sources).contains never = true := by
      intro found
      have member := contains_never found
      rcases flat with equal | equal
      · exact reduced.possible (equal ▸ member)
      · rw [equal] at member
        exact reduced.possible (by simpa using member)
    rw [intersectionWith_eq, if_neg possible, intersectionMembers_stable reduced flat]
    match types with
    | [type] => rfl
    | first :: second :: rest => rfl
  match types with
  | [] => cases sawUnknown <;> exact ⟨rfl, rfl⟩
  | [type] =>
    have flat := reduced.flat type (List.mem_singleton_self _)
    refine ⟨again (List.cons_ne_nil _ _) (.inl (intersectionPartsAll_flat reduced.flat)),
      again (List.cons_ne_nil _ _) (.inr (intersectionPartsAll_flat ?_))⟩
    exact List.forall_mem_cons.mpr ⟨flat, List.forall_mem_singleton.mpr flat⟩
  | first :: second :: rest =>
    obtain ⟨once, twice⟩ := intersectionPartsAll_intersection reduced.flat
    exact ⟨again (List.cons_ne_nil _ _) (.inl once), again (List.cons_ne_nil _ _) (.inr twice)⟩

theorem intersectionAt_eq (level : Nat) : ∃ meet, intersectionAt level = intersectionWith meet := by
  cases level <;> exact ⟨_, rfl⟩

-- A canonical intersection stands for itself, alone or twice.
theorem intersectionOf_stable (types : List TypeExpr) :
    intersectionOf [intersectionOf types] = intersectionOf types ∧
      intersectionOf [intersectionOf types, intersectionOf types] = intersectionOf types := by
  have stable (type : TypeExpr) (again : ∀ meet, intersectionWith meet [type] = type ∧
      intersectionWith meet [type, type] = type) :
      intersectionOf [type] = type ∧ intersectionOf [type, type] = type := by
    obtain ⟨once, equal⟩ := intersectionAt_eq (nestingAll [type])
    obtain ⟨twice, same⟩ := intersectionAt_eq (nestingAll [type, type])
    rw [intersectionOf, intersectionOf, equal, same]
    exact ⟨(again once).1, (again twice).2⟩
  refine stable _ ?_
  obtain ⟨meet, equal⟩ := intersectionAt_eq (nestingAll types)
  rw [intersectionOf, equal, intersectionWith_eq]
  intro other
  split
  · exact ⟨rfl, rfl⟩
  · rename_i possible
    exact intersectionWith_stable _ (intersectionMembers_reduced meet possible)

end Intersections

end TypeExpr

end ApiContract
