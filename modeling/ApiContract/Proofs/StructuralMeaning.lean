import ApiContract.Proofs.ExactUnions

namespace ApiContract.TypeExpr

-- Types as sets of values. Every kind of type is an operation on the sets of its parts, so that nothing
-- standing beside a type changes what it holds of. It is the reading of `Inhabits` in which no key is
-- exempt from an index signature, and the canonical union is read here as the union of sets.

-- What no JSON value settles.
structure Interpretation where
  reference : String → Json → Prop
  void : Json → Prop
  binary : Json → Prop

-- What a member of an object type asks of a value, the types in it being sets.
def Asks : Member (Json → Prop) → Json → Prop
  | .property p, v => (p.optional = false → (v.get? p.name).isSome = true) ∧
      ∀ x, v.get? p.name = some x → p.type x
  | .index s, v => ∀ entry ∈ v.entries, s.value entry.2

namespace Interpretation

variable (i : Interpretation)

-- Names stand for the given sets and no key is exempt.
def reading : Reading := ⟨fun _ => none, i.reference, i.void, i.binary, false⟩

-- Each kind of type as an operation on sets. The empty object type asks nothing, the others ask for an
-- object.
def sets : Algebra (Json → Prop) where
  primitive := i.reading.primitive
  literal := fun l v => Validator.literalHolds l v = true
  reference := i.reference
  union := fun members v => ∃ member ∈ members, member v
  intersection := fun members v => ∀ member ∈ members, member v
  record := fun members v => (members ≠ [] → v.isObject = true) ∧ ∀ member ∈ members, Asks member v
  array := fun element v => ∃ items, v = .array items ∧ ∀ item ∈ items, element item
  tuple := fun places rest v => ∃ items, v = .array items ∧ places.length ≤ items.length ∧
    (rest = none → items.length = places.length) ∧
    ∀ (n : Nat) place, (places[n]?).or rest = some place → ∀ item, items[n]? = some item → place item

-- The values that a type holds of.
def Holds : TypeExpr → Json → Prop := fold i.sets

section Equations

variable {i} {v : Json}

theorem holds_union {members : List TypeExpr} :
    i.Holds (union members) v ↔ ∃ member ∈ members, i.Holds member v := by
  unfold Holds
  rw [fold_eq]
  simp [sets]

theorem holds_intersection {members : List TypeExpr} :
    i.Holds (intersection members) v ↔ ∀ member ∈ members, i.Holds member v := by
  unfold Holds
  rw [fold_eq]
  simp [sets]

theorem holds_record {members : List (Member TypeExpr)} :
    i.Holds (record members) v ↔
      (members ≠ [] → v.isObject = true) ∧ ∀ member ∈ members, Asks (member.map i.Holds) v := by
  unfold Holds
  rw [fold_eq]
  simp [sets]

theorem holds_array {element : TypeExpr} :
    i.Holds (array element) v ↔ ∃ items, v = .array items ∧ ∀ item ∈ items, i.Holds element item := by
  unfold Holds
  rw [fold_eq]
  simp [sets]

theorem holds_tuple {places : List TypeExpr} {rest : Option TypeExpr} :
    i.Holds (tuple places rest) v ↔ ∃ items, v = .array items ∧ places.length ≤ items.length ∧
      (rest = none → items.length = places.length) ∧
      ∀ (n : Nat) type, (places[n]?).or rest = some type → ∀ item, items[n]? = some item → i.Holds type item := by
  unfold Holds
  rw [fold_eq]
  simp only [sets, List.length_map, Option.map_eq_none_iff, List.getElem?_map, ← Option.map_or,
    Option.map_eq_some_iff, forall_exists_index, and_imp, forall_apply_eq_imp_iff₂]

end Equations

section Readings

variable {i} {v : Json}

theorem exempt_nil (types : List TypeExpr) : i.reading.exempt types = [] := rfl

theorem holds_iff_record {members : List (Member TypeExpr)}
    (each : ∀ type ∈ members.flatMap Member.types, ∀ x, i.Holds type x ↔ Inhabits i.reading [] type x) :
    i.Holds (record members) v ↔ Inhabits i.reading [] (record members) v := by
  have property {p : Property TypeExpr} (member : .property p ∈ members) (x : Json) :
      i.Holds p.type x ↔ Inhabits i.reading [] p.type x :=
    each p.type (List.mem_flatMap.mpr ⟨_, member, List.mem_singleton_self _⟩) x
  have index {s : IndexSignature TypeExpr} (member : .index s ∈ members) (x : Json) :
      i.Holds s.value x ↔ Inhabits i.reading [] s.value x :=
    each s.value (List.mem_flatMap.mpr ⟨_, member, by simp [Member.types]⟩) x
  rw [holds_record]
  constructor
  · intro holds
    apply Inhabits.record holds.1
    · intro p member
      exact (holds.2 _ member).1
    · intro p x member found
      exact (property member x).mp ((holds.2 _ member).2 x found)
    · intro s key x member entry _ _
      exact (index member x).mp (holds.2 _ member (key, x) entry)
  · intro inhabited
    cases inhabited with
    | record shaped required present others =>
      refine ⟨shaped, fun member inside => ?_⟩
      cases member with
      | property p => exact ⟨required p inside, fun x found => (property inside x).mpr (present p x inside found)⟩
      | index s =>
        intro entry listed
        exact (index inside entry.2).mpr (others s entry.1 entry.2 inside listed (by simp) (by simp [exempt_nil]))

-- Along the parts of a type, one case for each kind.
theorem holds_iff_inhabits (type : TypeExpr) : i.Holds type v ↔ Inhabits i.reading [] type v := by
  induction type using parts_induction generalizing v with
  | step type ih =>
    cases type with
    | primitive p =>
      constructor
      · intro holds
        exact .primitive holds
      · intro inhabited
        cases inhabited with
        | primitive holds => exact holds
    | literal l =>
      constructor
      · intro holds
        exact .literal holds
      · intro inhabited
        cases inhabited with
        | literal holds => exact holds
    | reference name =>
      constructor
      · intro holds
        exact .reference holds
      · intro inhabited
        cases inhabited with
        | declared found holds => cases found
        | reference holds => exact holds
    | union members =>
      rw [holds_union]
      constructor
      · intro holds
        obtain ⟨member, inside, holds⟩ := holds
        exact .union inside ((ih member inside).mp holds)
      · intro inhabited
        cases inhabited with
        | union inside holds => exact ⟨_, inside, (ih _ inside).mpr holds⟩
    | intersection members =>
      rw [holds_intersection]
      constructor
      · intro holds
        exact .intersection fun member inside => (ih member inside).mp (holds member inside)
      · intro inhabited
        cases inhabited with
        | intersection all => exact fun member inside => (ih member inside).mpr (all member inside)
    | record members => exact holds_iff_record fun type inside x => ih type inside
    | array element =>
      have each {item : Json} := ih element (List.mem_singleton_self _) (v := item)
      rw [holds_array]
      constructor
      · intro holds
        obtain ⟨items, rfl, all⟩ := holds
        exact .array fun item inside => each.mp (all item inside)
      · intro inhabited
        cases inhabited with
        | array all => exact ⟨_, rfl, fun item inside => each.mpr (all item inside)⟩
    | tuple places rest =>
      have each {n : Nat} {type : TypeExpr} (placed : (places[n]?).or rest = some type) {item : Json} :
          i.Holds type item ↔ Inhabits i.reading [] type item := by
        apply ih type
        rcases Option.or_eq_some_iff.mp placed with found | ⟨_, last⟩
        · exact List.mem_append_left _ (List.mem_of_getElem? found)
        · exact List.mem_append_right _ (Option.mem_toList.mpr last)
      rw [holds_tuple]
      constructor
      · intro holds
        obtain ⟨items, rfl, enough, ends, all⟩ := holds
        apply Inhabits.tuple enough ends
        intro n item type found placed
        exact (each placed).mp (all n type placed item found)
      · intro inhabited
        cases inhabited with
        | tuple enough ends all =>
          refine ⟨_, rfl, enough, ends, ?_⟩
          intro n type placed item found
          exact (each placed).mpr (all n item type found placed)

end Readings

-- The canonical union is the union of the sets of its members.
theorem holds_unionOf {types : List TypeExpr} (distinct : ∀ type ∈ types, DistinctKeys type) (v : Json) :
    i.Holds (unionOf types) v ↔ ∃ type ∈ types, i.Holds type v := by
  rw [holds_iff_inhabits, inhabits_unionOf distinct]
  exact exists_congr fun type => and_congr_right fun _ => (holds_iff_inhabits type).symm

-- Two object types that differ in one property become one object type.
def figure (kind : String) : TypeExpr :=
  object [{ name := "kind", type := text kind }, { name := "size", type := number, optional := true }]

def nameless : Interpretation := ⟨fun _ _ => False, fun _ => False, fun _ => False⟩

theorem figure_distinctKeys (kind : String) : DistinctKeys (figure kind) := by
  apply distinctKeys_object.mpr
  simp [text, number, (canonical_literal _).distinctKeys, distinctKeys_primitive]

theorem holds_figure (kind found : String) : nameless.Holds (figure kind) (.object [("kind", .string found)]) ↔
    Validator.literalHolds (.string kind) (.string found) = true := by
  have literal : nameless.Holds (text kind) (.string found) ↔
      Validator.literalHolds (.string kind) (.string found) = true := Iff.rfl
  simp [figure, object, holds_record, Asks, Member.map, Json.get?, Json.isObject, List.lookup_cons, literal]

theorem figures_hold :
    (∀ type ∈ [figure "circle", figure "square"], DistinctKeys type) ∧
    unionOf [figure "circle", figure "square"] =
      object [{ name := "kind", type := union [text "circle", text "square"] },
        { name := "size", type := number, optional := true }] ∧
    nameless.Holds (unionOf [figure "circle", figure "square"]) (.object [("kind", .string "square")]) ∧
    ¬ nameless.Holds (unionOf [figure "circle", figure "square"]) (.object [("kind", .string "disc")]) := by
  have distinct : ∀ type ∈ [figure "circle", figure "square"], DistinctKeys type :=
    forall_pair (figure_distinctKeys _) (figure_distinctKeys _)
  refine ⟨distinct, rfl, ?_, ?_⟩
  · apply (holds_unionOf _ distinct _).mpr
    exact ⟨figure "square", by simp, (holds_figure _ _).mpr (by decide)⟩
  · intro holds
    obtain ⟨type, member, holds⟩ := (holds_unionOf _ distinct _).mp holds
    have either : type = figure "circle" ∨ type = figure "square" := by simpa using member
    rcases either with rfl | rfl
    · exact absurd ((holds_figure _ _).mp holds) (by decide)
    · exact absurd ((holds_figure _ _).mp holds) (by decide)

end Interpretation

end ApiContract.TypeExpr
