import ApiContract.Proofs.Inhabitation

namespace ApiContract.TypeExpr

-- A value of some member is a value of the canonical union. The steps are followed one by one: none
-- of them loses the member, though a merge may put a wider one in its place.

variable {r : Reading} {v : Json}

-- Some type of the list holds of the value.
def Covers (r : Reading) (v : Json) (types : List TypeExpr) : Prop :=
  ∃ type ∈ types, Inhabits r [] type v

theorem contains_boolean {types : List TypeExpr} (found : types.contains boolean = true) :
    boolean ∈ types := by
  obtain ⟨type, member, equal⟩ := List.contains_iff_exists_mem_beq.mp found
  cases type with
  | primitive q =>
    cases eq_of_beq (show (Primitive.boolean == q) = true from equal)
    exact member
  | _ => cases equal

theorem covers_distinct {types : List TypeExpr} (covered : Covers r v types) :
    Covers r v (distinct types) :=
  exists_mem_distinct (fun _ _ equal holds => inhabits_same equal holds) covered

theorem unionPartsAll_eq (types : List TypeExpr) : unionPartsAll types = types.flatMap unionParts := by
  induction types with
  | nil => rfl
  | cons type rest ih => rw [unionPartsAll, ih, List.flatMap_cons]

-- Inside a union nothing stands beside a member, so its derivation is one for the part.
theorem covers_unionParts {outer : List String} {type : TypeExpr} (inhabited : Inhabits r outer type v)
    (alone : outer = []) : Covers r v (unionParts type) := by
  subst alone
  generalize start : ([] : List String) = outer at inhabited
  induction inhabited with
  | @union _ members _ _ inside _ ih =>
    obtain ⟨part, member, holds⟩ := ih rfl
    refine ⟨part, ?_, holds⟩
    rw [unionParts, unionPartsAll_eq]
    exact List.mem_flatMap.mpr ⟨_, inside, member⟩
  | primitive holds => exact ⟨_, List.mem_singleton_self _, .primitive holds⟩
  | literal holds => exact ⟨_, List.mem_singleton_self _, .literal holds⟩
  | declared found holds => exact ⟨_, List.mem_singleton_self _, .declared found holds⟩
  | reference holds => exact ⟨_, List.mem_singleton_self _, .reference holds⟩
  | intersection all => exact ⟨_, List.mem_singleton_self _, .intersection all⟩
  | record shaped required present others =>
    subst start
    exact ⟨_, List.mem_singleton_self _, .record shaped required present others⟩
  | array all => exact ⟨_, List.mem_singleton_self _, .array all⟩
  | tuple enough ends each => exact ⟨_, List.mem_singleton_self _, .tuple enough ends each⟩

theorem covers_unionPartsAll {types : List TypeExpr} (covered : Covers r v types) :
    Covers r v (unionPartsAll types) := by
  obtain ⟨type, member, inhabited⟩ := covered
  obtain ⟨part, inside, holds⟩ := covers_unionParts inhabited rfl
  rw [unionPartsAll_eq]
  exact ⟨part, List.mem_flatMap.mpr ⟨type, member, inside⟩, holds⟩

theorem covers_dropNever {types : List TypeExpr} (covered : Covers r v types) :
    Covers r v (dropNever types) := by
  obtain ⟨type, member, inhabited⟩ := covered
  unfold dropNever
  split
  · refine ⟨type, List.mem_filter.mpr ⟨member, ?_⟩, inhabited⟩
    rw [bne, Bool.not_eq_true', Bool.eq_false_iff]
    intro equal
    rw [same_primitive equal] at inhabited
    exact not_inhabits_never inhabited
  · exact ⟨type, member, inhabited⟩

theorem inhabits_boolean_of_isFlag {outer : List String} {type : TypeExpr} (isFlag : type.isFlag = true)
    (inhabited : Inhabits r outer type v) : Inhabits r [] boolean v := by
  unfold TypeExpr.isFlag at isFlag
  split at isFlag
  · cases inhabited with
    | literal holds =>
      cases v with
      | bool b => exact .primitive ⟨b, rfl⟩
      | _ => cases holds
  · cases isFlag

theorem covers_collapseFlags {types : List TypeExpr} (covered : Covers r v types) :
    Covers r v (collapseFlags types) := by
  obtain ⟨type, member, inhabited⟩ := covered
  unfold collapseFlags
  split
  · apply covers_distinct
    refine ⟨_, List.mem_map_of_mem member, ?_⟩
    split
    · rename_i isFlag
      exact inhabits_boolean_of_isFlag isFlag inhabited
    · exact inhabited
  · split
    · rename_i hasBoolean
      by_cases isFlag : type.isFlag = true
      · refine ⟨boolean, List.mem_filter.mpr ⟨contains_boolean hasBoolean, rfl⟩, ?_⟩
        exact inhabits_boolean_of_isFlag isFlag inhabited
      · exact ⟨type, List.mem_filter.mpr ⟨member, by simpa using isFlag⟩, inhabited⟩
    · exact ⟨type, member, inhabited⟩

theorem pairUp_pairs {right ps : List (Property TypeExpr)}
    {pairs : List (Property TypeExpr × Property TypeExpr)} (paired : pairUp right ps = some pairs)
    {pair : Property TypeExpr × Property TypeExpr} (member : pair ∈ pairs) :
    pair.1 ∈ ps ∧ pair.2 ∈ right ∧ pair.2.name = pair.1.name := by
  induction ps generalizing pairs with
  | nil => cases paired; cases member
  | cons p rest ih =>
    rw [pairUp] at paired
    split at paired
    · rename_i q others found later
      cases paired
      rcases List.mem_cons.mp member with rfl | member
      · have name : q.name = p.name := by simpa using List.find?_some found
        exact ⟨List.mem_cons_self, List.mem_of_find?_eq_some found, name⟩
      · obtain ⟨left, right⟩ := ih later member
        exact ⟨List.mem_cons_of_mem p left, right⟩
    · cases paired

section Merging

variable {join : TypeExpr → TypeExpr → TypeExpr}

-- Joining two types loses no value of either.
def Joins (r : Reading) (join : TypeExpr → TypeExpr → TypeExpr) : Prop :=
  ∀ a b w, Inhabits r [] a w ∨ Inhabits r [] b w → Inhabits r [] (join a b) w

theorem joinProperty_holds (joins : Joins r join) {p q : Property TypeExpr} (name : q.name = p.name)
    (either : PropertyHolds r p v ∨ PropertyHolds r q v) : PropertyHolds r (joinProperty join p q) v := by
  rcases either with holds | holds
  · refine ⟨holds.shaped, ?_, fun x found => joins _ _ _ (.inl (holds.present x found))⟩
    intro optional
    exact holds.required (Bool.or_eq_false_iff.mp optional).1
  · refine ⟨holds.shaped, ?_, fun x found => joins _ _ _ (.inr (holds.present x (name ▸ found)))⟩
    intro optional
    have present := holds.required (Bool.or_eq_false_iff.mp optional).2
    rwa [name] at present

-- A property that does not differ from its partner asks the same.
theorem property_of_partner {p q : Property TypeExpr} (name : q.name = p.name)
    (same : differs (p, q) = false) (holds : PropertyHolds r q v) : PropertyHolds r p v := by
  obtain ⟨type, optional⟩ := Bool.or_eq_false_iff.mp same
  have sameType : (p.type == q.type) = true := by simpa [bne] using type
  have sameOptional : p.optional = q.optional := by simpa using optional
  refine ⟨holds.shaped, ?_, ?_⟩
  · intro optional
    have present := holds.required (sameOptional.symm.trans optional)
    rwa [name] at present
  · intro x found
    exact inhabits_same sameType (holds.present x (name ▸ found))

theorem mergePair?_inhabits (joins : Joins r join) {left right merged : TypeExpr}
    (some : mergePair? join left right = some merged)
    (either : Inhabits r [] left v ∨ Inhabits r [] right v) : Inhabits r [] merged v := by
  unfold mergePair? at some
  split at some
  · rename_i ps qs leftProperties rightProperties
    split at some
    · cases some
    · split at some
      · cases some
      · rename_i pairs paired
        split at some
        · cases some
          rw [properties?_eq leftProperties, properties?_eq rightProperties] at either
          apply inhabits_object.mpr
          intro p member
          obtain ⟨pair, inside, rfl⟩ := List.mem_map.mp member
          obtain ⟨first, second, name⟩ := pairUp_pairs paired inside
          have holds : PropertyHolds r pair.1 v ∨ PropertyHolds r pair.2 v :=
            either.imp (inhabits_object.mp · _ first) (inhabits_object.mp · _ second)
          split
          · exact joinProperty_holds joins name holds
          · rename_i same
            rcases holds with holds | holds
            · exact holds
            · exact property_of_partner name (by simpa using same) holds
        · cases some
  · cases some

theorem mergeWith?_covers (joins : Joins r join) {type merged : TypeExpr} {types others : List TypeExpr}
    (some : mergeWith? join type types = some (merged, others)) (covered : Covers r v (type :: types)) :
    Covers r v (merged :: others) := by
  induction types generalizing others with
  | nil => cases some
  | cons other rest ih =>
    obtain ⟨found, member, inhabited⟩ := covered
    unfold mergeWith? at some
    split at some
    · rename_i result merges
      cases some
      rcases List.mem_cons.mp member with rfl | member
      · exact ⟨_, List.mem_cons_self, mergePair?_inhabits joins merges (.inl inhabited)⟩
      · rcases List.mem_cons.mp member with rfl | member
        · exact ⟨_, List.mem_cons_self, mergePair?_inhabits joins merges (.inr inhabited)⟩
        · exact ⟨found, List.mem_cons_of_mem _ member, inhabited⟩
    · obtain ⟨⟨result, left⟩, later, equal⟩ := Option.map_eq_some_iff.mp some
      cases equal
      have early (inside : found ∈ type :: rest) : Covers r v (result :: other :: left) := by
        obtain ⟨kept, member, holds⟩ := ih later ⟨found, inside, inhabited⟩
        rcases List.mem_cons.mp member with rfl | member
        · exact ⟨kept, List.mem_cons_self, holds⟩
        · exact ⟨kept, List.mem_cons_of_mem _ (List.mem_cons_of_mem _ member), holds⟩
      rcases List.mem_cons.mp member with rfl | member
      · exact early List.mem_cons_self
      · rcases List.mem_cons.mp member with rfl | member
        · exact ⟨found, List.mem_cons_of_mem _ List.mem_cons_self, inhabited⟩
        · exact early (List.mem_cons_of_mem _ member)

theorem mergeOnce?_covers (joins : Joins r join) {types merged : List TypeExpr}
    (some : mergeOnce? join types = some merged) (covered : Covers r v types) : Covers r v merged := by
  induction types generalizing merged with
  | nil => cases some
  | cons type rest ih =>
    unfold mergeOnce? at some
    split at some
    · rename_i result others merges
      cases some
      exact mergeWith?_covers joins merges covered
    · obtain ⟨left, later, equal⟩ := Option.map_eq_some_iff.mp some
      cases equal
      obtain ⟨found, member, inhabited⟩ := covered
      rcases List.mem_cons.mp member with rfl | member
      · exact ⟨found, List.mem_cons_self, inhabited⟩
      · obtain ⟨kept, inside, holds⟩ := ih later ⟨found, member, inhabited⟩
        exact ⟨kept, List.mem_cons_of_mem _ inside, holds⟩

theorem mergeUpTo_covers (joins : Joins r join) (steps : Nat) {types : List TypeExpr}
    (covered : Covers r v types) : Covers r v (mergeUpTo join steps types) := by
  induction steps generalizing types with
  | zero => exact covered
  | succ steps ih =>
    unfold mergeUpTo
    split
    · rename_i merged once
      exact ih (covers_distinct (mergeOnce?_covers joins once covered))
    · exact covered

theorem unionOfParts_inhabits {outer : List String} {types : List TypeExpr} (covered : Covers r v types) :
    Inhabits r outer (unionOfParts types) v := by
  obtain ⟨type, member, inhabited⟩ := covered
  unfold unionOfParts
  split
  · cases member
  · cases List.mem_singleton.mp member
    exact inhabits_anywhere inhabited
  · exact .union member inhabited

theorem unionWith_inhabits (joins : Joins r join) {outer : List String} {types : List TypeExpr}
    (covered : Covers r v types) : Inhabits r outer (unionWith join types) v := by
  have parts := covers_collapseFlags (covers_distinct (covers_dropNever (covers_unionPartsAll covered)))
  exact unionOfParts_inhabits (mergeUpTo_covers joins _ parts)

end Merging

theorem unionAt_inhabits (level : Nat) {outer : List String} {types : List TypeExpr}
    (covered : Covers r v types) : Inhabits r outer (unionAt level types) v := by
  induction level generalizing v outer types with
  | zero =>
    refine unionWith_inhabits ?_ covered
    intro a b w either
    rcases either with holds | holds
    · exact .union List.mem_cons_self holds
    · exact .union (List.mem_cons_of_mem a List.mem_cons_self) holds
  | succ level ih =>
    refine unionWith_inhabits ?_ covered
    intro a b w either
    rcases either with holds | holds
    · exact ih ⟨a, List.mem_cons_self, holds⟩
    · exact ih ⟨b, List.mem_cons_of_mem a List.mem_cons_self, holds⟩

theorem unionOf_inhabits {outer : List String} {types : List TypeExpr} (covered : Covers r v types) :
    Inhabits r outer (unionOf types) v :=
  unionAt_inhabits _ covered

end ApiContract.TypeExpr
