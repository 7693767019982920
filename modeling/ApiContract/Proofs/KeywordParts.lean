import ApiContract.Proofs.KeywordReadings

namespace ApiContract.Keywords

-- Keywords taken apart: one part for each thing that they ask for, under the types of the whole. A value
-- that passes every part passes the whole.

variable {k p : Keywords Schema} {known : String → Bool}

-- A tuple that ends with its places.
def isEnded (k : Keywords Schema) : Bool :=
  match k.places, k.items with
  | some _, some (.bool false) => true
  | _, _ => false

-- What is asked of the properties that are not declared, unless they may be anything.
def others (k : Keywords Schema) : List (Keywords Schema) :=
  match k.additional with
  | none => []
  | some (.bool true) => []
  | some schema => [{ properties := k.properties, additional := some schema }]

def pieces (k : Keywords Schema) : List (Keywords Schema) :=
  [ { limits := {} },
    { limits := { format := k.limits.format } },
    { limits := { minLength := k.limits.minLength } },
    { limits := { maxLength := k.limits.maxLength } },
    { limits := { pattern := k.limits.pattern } },
    { limits := { minimum := k.limits.minimum, exclusiveMinimum := k.limits.exclusiveMinimum } },
    { limits := { maximum := k.limits.maximum, exclusiveMaximum := k.limits.exclusiveMaximum } },
    { limits := { multipleOf := k.limits.multipleOf } },
    { items := k.items, places := k.places },
    { limits := { uniqueItems := k.limits.uniqueItems } },
    { limits := { minProperties := k.limits.minProperties } },
    { limits := { maxProperties := k.limits.maxProperties } } ]
  ++ (if k.isEnded then []
    else [{ limits := { minItems := k.limits.minItems } }, { limits := { maxItems := k.limits.maxItems } }])
  ++ (k.properties.getD []).map (fun property => { properties := some [property] })
  ++ ((k.properties.getD []).filter fun property => (k.required.getD []).contains property.1).map
    (fun property => { properties := some [property], required := some [property.1] })
  ++ k.others

-- The types, also where the other keywords only hint at one.
def writtenTypes (k : Keywords Schema) : Option TypeNames :=
  if !k.typeNames.isEmpty then k.types
  else if k.looksLikeObject then some (.single "object")
  else if k.looksLikeArray then some (.single "array")
  else none

def part (k piece : Keywords Schema) : Keywords Schema :=
  { types := k.writtenTypes
    nullable := k.nullable
    properties := piece.properties
    required := piece.required
    additional := piece.additional
    items := piece.items
    places := piece.places
    limits := piece.limits }

-- Listed values, and types that are not known, are not taken apart. Keywords that ask for nothing have
-- no part.
def parts (k : Keywords Schema) : List (Keywords Schema) :=
  if k.literals?.isSome then [k]
  else if k.kinds = [none] then []
  else if none ∈ k.kinds then [k]
  else k.pieces.map k.part

section Types

theorem part_plain (piece : Keywords Schema) : (k.part piece).Plain := ⟨rfl, rfl⟩

theorem part_typeNames {piece : Keywords Schema} (named : k.typeNames ≠ []) : (k.part piece).typeNames = k.typeNames := by
  have written : k.writtenTypes = k.types := if_pos (by simpa using named)
  unfold typeNames
  dsimp only [part]
  rw [written]

theorem part_nullable (piece : Keywords Schema) : (k.part piece).isNullable = k.isNullable := by
  by_cases named : k.typeNames = []
  · have hinted : (k.part piece).typeNames.contains "null" = false := by
      unfold typeNames
      dsimp only [part, writtenTypes]
      rw [named]
      cases k.looksLikeObject <;> cases k.looksLikeArray <;> rfl
    unfold isNullable
    rw [hinted, named]
    rfl
  · unfold isNullable concreteTypes
    rw [part_typeNames named]
    rfl

theorem kinds_single {name : String} (types : k.types = some (.single name)) (other : name ≠ "null") :
    k.kinds = [Kind.parse? name] := by
  unfold kinds
  rw [concreteTypes_single types other]
  rfl

theorem part_kinds (typed : k.kinds ≠ [none]) (piece : Keywords Schema) : (k.part piece).kinds = k.kinds := by
  by_cases named : k.typeNames = []
  · have hinted : k.kinds = if k.looksLikeObject then [some .object] else if k.looksLikeArray then [some .array]
        else [none] := by
      unfold kinds concreteTypes
      rw [named]
      rfl
    have written : k.writtenTypes = if k.looksLikeObject then some (.single "object")
        else if k.looksLikeArray then some (.single "array") else none := by
      unfold writtenTypes
      rw [named]
      rfl
    have types : (k.part piece).types = k.writtenTypes := rfl
    cases isObject : k.looksLikeObject with
    | true =>
      rw [isObject] at hinted written
      rw [hinted]
      exact kinds_single (types.trans written) (by decide)
    | false =>
      cases isArray : k.looksLikeArray with
      | true =>
        rw [isObject, isArray] at hinted written
        rw [hinted]
        exact kinds_single (types.trans written) (by decide)
      | false =>
        rw [isObject, isArray] at hinted
        exact absurd hinted typed
  · have present : (!k.typeNames.isEmpty) = true := by simpa using named
    unfold kinds concreteTypes
    rw [part_typeNames named, if_pos present, if_pos present]

theorem parts_plain (own : k.Plain) (supported : k.unsupported = []) (member : p ∈ k.parts) :
    p.Plain ∧ p.unsupported = [] ∧ p.isNullable = k.isNullable := by
  unfold parts at member
  split at member
  · cases List.mem_singleton.mp member
    exact ⟨own, supported, rfl⟩
  · split at member
    · cases member
    · split at member
      · cases List.mem_singleton.mp member
        exact ⟨own, supported, rfl⟩
      · obtain ⟨piece, _, rfl⟩ := List.mem_map.mp member
        exact ⟨part_plain piece, rfl, part_nullable piece⟩

end Types

section Passing

open Validator (evaluate)

variable {resolve : String → Validator.Check} {value : Json}

theorem string_whole [Pattern.Engine]
    (each : ∀ piece ∈ k.pieces, evaluate resolve (piece.typedValidator known (.scalar .string)) value = .ok []) :
    evaluate resolve (k.typedValidator known (.scalar .string)) value = .ok [] := by
  obtain ⟨text, s, rfl, _⟩ := typed_string_pass.mp (each { limits := { format := k.limits.format } } (by simp [pieces]))
  obtain ⟨_, _, ⟨⟩, low, _⟩ :=
    typed_string_pass.mp (each { limits := { minLength := k.limits.minLength } } (by simp [pieces]))
  obtain ⟨_, _, ⟨⟩, _, high, _⟩ :=
    typed_string_pass.mp (each { limits := { maxLength := k.limits.maxLength } } (by simp [pieces]))
  obtain ⟨_, _, ⟨⟩, _, _, matched⟩ :=
    typed_string_pass.mp (each { limits := { pattern := k.limits.pattern } } (by simp [pieces]))
  exact typed_string_pass.mpr ⟨text, s, rfl, low, high, matched⟩

theorem number_whole [Pattern.Engine] {type : ScalarType} (numeric : Kind.Numeric (.scalar type))
    (each : ∀ piece ∈ k.pieces, evaluate resolve (piece.typedValidator known (.scalar type)) value = .ok []) :
    evaluate resolve (k.typedValidator known (.scalar type)) value = .ok [] := by
  have low := each { limits := { minimum := k.limits.minimum, exclusiveMinimum := k.limits.exclusiveMinimum } }
    (by simp [pieces])
  have high := each { limits := { maximum := k.limits.maximum, exclusiveMaximum := k.limits.exclusiveMaximum } }
    (by simp [pieces])
  have step := each { limits := { multipleOf := k.limits.multipleOf } } (by simp [pieces])
  obtain ⟨n, rfl, least⟩ := (typed_number_pass numeric).mp low
  obtain ⟨_, ⟨⟩, most⟩ := (typed_number_pass numeric).mp high
  obtain ⟨_, ⟨⟩, multiple⟩ := (typed_number_pass numeric).mp step
  exact (typed_number_pass numeric).mpr ⟨n, rfl, least.integral, least.above, most.below, multiple.multiple⟩

-- The limits on a number are the same under both numeric types.
theorem number_retyped [Pattern.Engine] {type other : ScalarType} (mine : Kind.Numeric (.scalar type))
    (given : Kind.Numeric (.scalar other))
    (bare : evaluate resolve (typedValidator known { limits := {} } (.scalar type)) value = .ok [])
    (passed : evaluate resolve (p.typedValidator known (.scalar other)) value = .ok []) :
    evaluate resolve (p.typedValidator known (.scalar type)) value = .ok [] := by
  obtain ⟨n, rfl, holds⟩ := (typed_number_pass given).mp passed
  obtain ⟨_, ⟨⟩, own⟩ := (typed_number_pass mine).mp bare
  exact (typed_number_pass mine).mpr ⟨n, rfl, own.integral, holds.above, holds.below, holds.multiple⟩

-- Where a tuple ends with its places, its limits are no part of what it asks for.
theorem open_of_counted (counted : (k.items.getD (.bool true)).node.isFalse = true → k.places = none) :
    k.isEnded = false := by
  unfold isEnded
  split
  · rename_i places items
    rw [items] at counted
    cases places.symm.trans (counted isFalse_false)
  · rfl

theorem array_whole [Pattern.Engine]
    (each : ∀ piece ∈ k.pieces, evaluate resolve (piece.typedValidator known .array) value = .ok []) :
    evaluate resolve (k.typedValidator known .array) value = .ok [] := by
  obtain ⟨items, rfl, shape⟩ := typed_array_pass.mp (each { items := k.items, places := k.places } (by simp [pieces]))
  obtain ⟨_, ⟨⟩, unique⟩ :=
    typed_array_pass.mp (each { limits := { uniqueItems := k.limits.uniqueItems } } (by simp [pieces]))
  refine typed_array_pass.mpr ⟨items, rfl, shape.each, shape.filled, shape.ended, ?_, unique.unique⟩
  intro counted
  have opened : k.isEnded = false := open_of_counted fun closed => Option.map_eq_none_iff.mp (counted closed)
  obtain ⟨_, ⟨⟩, low⟩ :=
    typed_array_pass.mp (each { limits := { minItems := k.limits.minItems } } (by simp [pieces, opened]))
  obtain ⟨_, ⟨⟩, high⟩ :=
    typed_array_pass.mp (each { limits := { maxItems := k.limits.maxItems } } (by simp [pieces, opened]))
  exact ⟨(low.counted fun _ => rfl).1, (high.counted fun _ => rfl).2⟩

theorem others_cases (k : Keywords Schema) : k.additional.getD (.bool true) = .bool true ∨
    { properties := k.properties, additional := k.additional } ∈ k.pieces := by
  cases declared : k.additional with
  | none => exact .inl rfl
  | some schema =>
    by_cases free : schema = .bool true
    · exact .inl free
    · refine .inr (List.mem_append_right _ ?_)
      unfold others
      rw [declared]
      split
      · rename_i absent
        cases absent
      · rename_i anything
        cases anything
        exact absurd rfl free
      · rename_i found
        cases found
        exact List.mem_singleton_self _

theorem property_piece {property : String × Schema} (inside : property ∈ k.properties.getD []) :
    { properties := some [property] } ∈ k.pieces :=
  List.mem_append_left _ (List.mem_append_left _ (List.mem_append_right _ (List.mem_map.mpr ⟨property, inside, rfl⟩)))

theorem required_piece {property : String × Schema} (inside : property ∈ k.properties.getD [])
    (listed : property.1 ∈ k.required.getD []) :
    { properties := some [property], required := some [property.1] } ∈ k.pieces := by
  refine List.mem_append_left _ (List.mem_append_right _ (List.mem_map.mpr ⟨property, ?_, rfl⟩))
  exact List.mem_filter.mpr ⟨inside, List.contains_iff_mem.mpr listed⟩

theorem object_whole [Pattern.Engine]
    (each : ∀ piece ∈ k.pieces, evaluate resolve (piece.typedValidator known .object) value = .ok []) :
    evaluate resolve (k.typedValidator known .object) value = .ok [] := by
  obtain ⟨entries, rfl, _, least, _⟩ :=
    typed_object_pass.mp (each { limits := { minProperties := k.limits.minProperties } } (by simp [pieces]))
  obtain ⟨_, ⟨⟩, _, _, most⟩ :=
    typed_object_pass.mp (each { limits := { maxProperties := k.limits.maxProperties } } (by simp [pieces]))
  refine typed_object_pass.mpr ⟨entries, rfl, ⟨?_, ?_, ?_, ?_⟩, least, most⟩
  · intro field member needed
    obtain ⟨property, inside, rfl⟩ := mem_fields.mp member
    have listed : property.1 ∈ k.required.getD [] := by simpa using needed
    obtain ⟨_, ⟨⟩, passes, _⟩ := typed_object_pass.mp (each _ (required_piece inside listed))
    have found := passes.required _ (mem_fields.mpr ⟨property, List.mem_singleton_self _, rfl⟩)
    exact found (by simp)
  · intro field member x found
    obtain ⟨property, inside, rfl⟩ := mem_fields.mp member
    obtain ⟨_, ⟨⟩, passes, _⟩ := typed_object_pass.mp (each _ (property_piece inside))
    have checked := passes.present _ (mem_fields.mpr ⟨property, List.mem_singleton_self _, rfl⟩)
    exact checked x found
  · intro strict key x entry
    rcases others_cases k with free | piece
    · rw [free, isFalse_true] at strict
      cases strict
    · obtain ⟨_, ⟨⟩, passes, _⟩ := typed_object_pass.mp (each _ piece)
      have declared := passes.closed strict key x entry
      rwa [fieldNames] at declared ⊢
  · intro rest others key x entry undeclared
    rcases others_cases k with free | piece
    · rw [free, isFalse_true, validator_true] at others
      cases others
      rfl
    · obtain ⟨_, ⟨⟩, passes, _⟩ := typed_object_pass.mp (each _ piece)
      refine passes.others rest others key x entry ?_
      rwa [fieldNames] at undeclared ⊢

theorem kind_whole [Pattern.Engine] {kind : Kind}
    (each : ∀ piece ∈ k.pieces, evaluate resolve (piece.typedValidator known kind) value = .ok []) :
    evaluate resolve (k.typedValidator known kind) value = .ok [] := by
  cases kind with
  | object => exact object_whole each
  | array => exact array_whole each
  | scalar type =>
    cases type with
    | string => exact string_whole each
    | number => exact number_whole .number each
    | integer => exact number_whole .integer each
    | boolean => exact each { limits := {} } List.mem_cons_self
    | null => exact each { limits := {} } List.mem_cons_self

theorem part_typedValidator (piece : Keywords Schema) (kind : Kind) :
    (k.part piece).typedValidator known kind = piece.typedValidator known kind := by
  cases kind <;> rfl

theorem part_shapeAs (piece : Keywords Schema) (kind : Kind) :
    (k.part piece).shapeAs (some kind) = piece.shapeOf (some kind) := by
  rw [shapeAs_free rfl]
  cases kind with
  | object => rfl
  | array => rfl
  | scalar type => cases type <;> rfl

-- All pieces pass as one kind, that of the piece without limits.
theorem pieces_pass_as [Pattern.Engine] (typed : k.kinds ≠ [none]) (named : none ∉ k.kinds)
    (rejected : ¬ (value = .null ∧ k.isNullable = true))
    (each : ∀ piece ∈ k.pieces, (Schema.object (k.part piece)).Compiles known ∧
      evaluate resolve ((Schema.object (k.part piece)).validator known) value = .ok []) :
    ∃ kind, some kind ∈ k.kinds ∧
      ∀ piece ∈ k.pieces, evaluate resolve (piece.typedValidator known kind) value = .ok [] := by
  have as (piece : Keywords Schema) (inside : piece ∈ k.pieces) : ∃ kind, some kind ∈ k.kinds ∧
      evaluate resolve (piece.typedValidator known kind) value = .ok [] := by
    obtain ⟨compiles, passed⟩ := each piece inside
    rcases (plain_pass (part_plain piece) compiles).mp passed with null | alternatives
    · rw [part_nullable] at null
      exact absurd null rejected
    · have kinds := part_kinds typed piece
      obtain ⟨kind, listed, passes⟩ := alternative_of_pass rfl (kinds ▸ named) alternatives
      rw [part_typedValidator] at passes
      exact ⟨kind, kinds ▸ listed, passes⟩
  obtain ⟨kind, listed, bare⟩ := as { limits := {} } List.mem_cons_self
  refine ⟨kind, listed, fun piece inside => ?_⟩
  obtain ⟨other, _, passes⟩ := as piece inside
  rcases Kind.admits_apart (kind_admits passes) (kind_admits bare) with rfl | ⟨given, mine⟩
  · exact passes
  · cases given <;> cases mine <;> exact number_retyped (by constructor) (by constructor) bare passes

-- The children of the whole are those of its pieces.
theorem whole_compiles (named : none ∉ k.kinds) (unlisted : k.literals? = none) (own : k.Plain)
    (supported : k.unsupported = [])
    (each : ∀ piece ∈ k.pieces, ∀ kind, some kind ∈ k.kinds →
      ∀ child ∈ (piece.shapeOf (some kind)).children, child.Compiles known) :
    (Schema.object k).Compiles known := by
  refine (plain_compiles own).mpr ⟨supported, fun kind listed => ?_⟩
  rw [shapeAs_free unlisted]
  cases kind with
  | none => exact absurd listed named
  | some kind =>
    cases kind with
    | object =>
      refine List.forall_mem_append.mpr ⟨List.forall_mem_map.mpr fun property inside => ?_, List.forall_mem_singleton.mpr ?_⟩
      · exact each _ (property_piece inside) _ listed _ List.mem_cons_self
      · rcases others_cases k with free | piece
        · rw [free]
          exact compiles_true
        · exact each _ piece _ listed _ (List.mem_append_right _ (List.mem_singleton_self _))
    | array => exact each { items := k.items, places := k.places } (by simp [pieces]) _ listed
    | scalar type => cases type <;> exact List.forall_mem_nil _

theorem parts_pass [Pattern.Engine] (own : k.Plain) (supported : k.unsupported = [])
    (each : ∀ part ∈ k.parts, (Schema.object part).Compiles known ∧
      evaluate resolve ((Schema.object part).validator known) value = .ok []) :
    (Schema.object k).Compiles known ∧ evaluate resolve ((Schema.object k).validator known) value = .ok [] := by
  unfold parts at each
  split at each
  · exact each k (List.mem_singleton_self k)
  · rename_i listed
    have unlisted : k.literals? = none := by simpa using listed
    split at each
    · rename_i anything
      obtain ⟨compiles, passes⟩ := free_pass own supported unlisted anything
      exact ⟨compiles, passes resolve value⟩
    · rename_i typed
      split at each
      · exact each k (List.mem_singleton_self k)
      · rename_i named
        have parts := List.forall_mem_map.mp each
        have compiles : (Schema.object k).Compiles known := by
          refine whole_compiles named unlisted own supported fun piece inside kind listed => ?_
          obtain ⟨_, children⟩ := (plain_compiles (part_plain piece)).mp (parts piece inside).1
          have below := children (some kind) (part_kinds typed piece ▸ listed)
          rwa [part_shapeAs] at below
        refine ⟨compiles, (plain_pass own compiles).mpr ?_⟩
        by_cases null : value = .null ∧ k.isNullable = true
        · exact .inl null
        · obtain ⟨kind, listed, passes⟩ := pieces_pass_as typed named null parts
          exact .inr (alternatives_pass unlisted named listed (kind_whole passes))

end Passing

end ApiContract.Keywords
