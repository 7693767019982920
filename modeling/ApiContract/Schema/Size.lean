import ApiContract.Schema.Step

namespace ApiContract

-- Overlaying two keyword objects does not give more than the two together, so a branch that
-- inherits the keywords beside a composition is smaller than the object that holds both.

namespace Keywords

def size (k : Keywords Schema) : Nat :=
  1 + present k.ref + present k.title + present k.description + present k.deprecated
    + present k.nullable + (k.types.map TypeNames.size).getD 0 + present k.const
    + (k.enum.map fun vs => vs.length + 1).getD 0
    + Schema.sizeList? k.oneOf + Schema.sizeList? k.anyOf + Schema.sizeList? k.allOf
    + Schema.sizeEntries? k.properties + (k.required.map fun names => names.length + 1).getD 0
    + Schema.size? k.additional + Schema.size? k.items + Schema.sizeList? k.places + k.limits.size
    + k.unsupported.length

end Keywords

namespace Schema

theorem size_object (k : Keywords Schema) : (Schema.object k).size = k.size := by
  cases k
  rfl

theorem size_lt_sizeList {schema : Schema} {schemas : List Schema} (member : schema ∈ schemas) :
    schema.size < sizeList schemas := by
  induction schemas with
  | nil => simp at member
  | cons head rest ih =>
    rw [sizeList]
    cases member with
    | head => omega
    | tail _ later =>
      have := ih later
      omega

theorem size_lt_sizeEntries {entry : String × Schema} {entries : List (String × Schema)}
    (member : entry ∈ entries) : entry.2.size < sizeEntries entries := by
  induction entries with
  | nil => simp at member
  | cons head rest ih =>
    rw [sizeEntries]
    cases member with
    | head => omega
    | tail _ later =>
      have := ih later
      omega

theorem size?_or (a b : Option Schema) : size? (a.or b) ≤ size? a + size? b := by
  cases a <;> simp [size?]

theorem sizeList?_or (a b : Option (List Schema)) :
    sizeList? (a.or b) ≤ sizeList? a + sizeList? b := by
  cases a <;> simp [sizeList?]

theorem sizeEntries_insert (name : String) (schema : Schema) (entries : List (String × Schema)) :
    sizeEntries (Keyed.insert name schema entries) ≤ sizeEntries entries + (schema.size + 1) := by
  induction entries with
  | nil => simp [Keyed.insert, sizeEntries]
  | cons head rest ih =>
    rw [Keyed.insert]
    split
    · simp only [sizeEntries]
      omega
    · simp only [sizeEntries]
      omega

theorem sizeEntries_foldl_insert (top base : List (String × Schema)) :
    sizeEntries (top.foldl (fun map property => Keyed.insert property.1 property.2 map) base)
      ≤ sizeEntries base + sizeEntries top := by
  induction top generalizing base with
  | nil => simp [sizeEntries]
  | cons head rest ih =>
    have inserted := sizeEntries_insert head.1 head.2 base
    have others := ih (Keyed.insert head.1 head.2 base)
    simp only [List.foldl_cons, sizeEntries]
    omega

end Schema

theorem present_none {α : Type} : present (none : Option α) = 0 := rfl

theorem present_or {α : Type} (a b : Option α) : present (a.or b) ≤ present a + present b := by
  cases a <;> simp [present_none]

namespace Limits

theorem size_overlay (base top : Limits) : (base.overlay top).size ≤ base.size + top.size := by
  have a := present_or top.format base.format
  have b := present_or top.minLength base.minLength
  have c := present_or top.maxLength base.maxLength
  have d := present_or top.pattern base.pattern
  have e := present_or top.minimum base.minimum
  have f := present_or top.maximum base.maximum
  have g := present_or top.exclusiveMinimum base.exclusiveMinimum
  have h := present_or top.exclusiveMaximum base.exclusiveMaximum
  have i := present_or top.multipleOf base.multipleOf
  have j := present_or top.minItems base.minItems
  have k := present_or top.maxItems base.maxItems
  have l := present_or top.uniqueItems base.uniqueItems
  have m := present_or top.minProperties base.minProperties
  have n := present_or top.maxProperties base.maxProperties
  simp only [size, overlay]
  omega

end Limits

namespace Keywords

theorem size_mergeProperties (base top : Option (List (String × Schema))) :
    Schema.sizeEntries? (mergeProperties base top)
      ≤ Schema.sizeEntries? base + Schema.sizeEntries? top := by
  cases base with
  | none => cases top <;> simp [mergeProperties, Schema.sizeEntries?]
  | some base =>
    cases top with
    | none => simp [mergeProperties, Schema.sizeEntries?]
    | some top =>
      have := Schema.sizeEntries_foldl_insert top base
      simp only [mergeProperties, Schema.sizeEntries?]
      omega

theorem length_mergeNames (top base : List String) :
    (top.foldl (fun names name => if names.contains name then names else names ++ [name]) base).length
      ≤ base.length + top.length := by
  induction top generalizing base with
  | nil => simp
  | cons head rest ih =>
    rw [List.foldl_cons]
    split
    · have := ih base
      simp only [List.length_cons]
      omega
    · have := ih (base ++ [head])
      simp only [List.length_append, List.length_cons, List.length_nil] at this ⊢
      omega

theorem size_mergeRequired (base top : Option (List String)) :
    ((mergeRequired base top).map fun names => names.length + 1).getD 0
      ≤ (base.map fun names => names.length + 1).getD 0
        + (top.map fun names => names.length + 1).getD 0 := by
  cases base with
  | none => cases top <;> simp [mergeRequired]
  | some base =>
    cases top with
    | none => simp [mergeRequired]
    | some top =>
      have := length_mergeNames top base
      simp only [mergeRequired, Option.map_some, Option.getD_some]
      omega

theorem getD_map_or {α : Type} (f : α → Nat) (a b : Option α) :
    ((a.or b).map f).getD 0 ≤ (a.map f).getD 0 + (b.map f).getD 0 := by
  cases a <;> simp

theorem size_overlay (base top : Keywords Schema) :
    (base.overlay top).size + 1 ≤ base.size + top.size := by
  have a := getD_map_or TypeNames.size top.types base.types
  have b := present_or top.const base.const
  have c := getD_map_or (fun vs : List Json => vs.length + 1) top.enum base.enum
  have d := Schema.sizeList?_or top.oneOf base.oneOf
  have e := Schema.sizeList?_or top.anyOf base.anyOf
  have f := Schema.sizeList?_or top.allOf base.allOf
  have g := size_mergeProperties base.properties top.properties
  have h := size_mergeRequired base.required top.required
  have i := Schema.size?_or top.additional base.additional
  have j := Schema.size?_or top.items base.items
  have k := Schema.sizeList?_or top.places base.places
  have l := Limits.size_overlay base.limits top.limits
  simp only [size, overlay]
  omega

theorem size_siblings (k : Keywords Schema) : k.siblings.size ≤ k.size := by
  simp only [size, siblings, present_none, List.length_nil]
  omega

theorem size_without (k : Keywords Schema) (op : Composition) :
    (k.without op).size + Schema.sizeList? (k.branches? op) = k.size := by
  cases op <;> simp only [size, without, branches?, Schema.sizeList?] <;> omega

theorem size_siblings_without {k : Keywords Schema} {op : Composition} {branches : List Schema}
    (found : k.branches? op = some branches) :
    (k.siblings.without op).size + Schema.sizeList branches + 1 ≤ k.size := by
  have whole := size_without k.siblings op
  have held : k.siblings.branches? op = some branches := by
    cases op <;> simpa [branches?, siblings] using found
  have stripped := size_siblings k
  rw [held, Schema.sizeList?] at whole
  omega

section Branches

variable {k : Keywords Schema} {op : Composition} {branches : List Schema}

theorem size_siblings_lt (found : k.branches? op = some branches) : (k.siblings.without op).size < k.size := by
  have room := size_siblings_without found
  omega

theorem size_branch (found : k.branches? op = some branches) {branch : Schema} (member : branch ∈ branches) :
    branch.size < k.size := by
  have room := size_siblings_without found
  have small := Schema.size_lt_sizeList member
  omega

-- The list that is taken away pays for everything that the branch brings along.
theorem size_overlay_branch (found : k.branches? op = some branches) {top : Keywords Schema}
    (member : .object top ∈ branches) : ((k.siblings.without op).overlay top).size < k.size := by
  have room := size_siblings_without found
  have small := Schema.size_lt_sizeList member
  have merged := size_overlay (k.siblings.without op) top
  rw [Schema.size_object] at small
  omega

end Branches

theorem branches?_of_composition? {k : Keywords Schema} {op : Composition} {branches : List Schema}
    (found : k.composition? = some (op, branches)) : k.branches? op = some branches := by
  unfold composition? at found
  split at found <;> cases found <;> simpa [branches?]

theorem size_singleType {k : Keywords Schema} (several : 1 < k.concreteTypes.length)
    (name : String) :
    (Keywords.size { k.siblings with types := some (.single name) }) < k.size := by
  have names : 1 < k.typeNames.length :=
    Nat.lt_of_lt_of_le several (List.length_filter_le _ _)
  have counted : 2 < (k.types.map TypeNames.size).getD 0 := by
    unfold typeNames at names
    cases declared : k.types with
    | none => simp [declared] at names
    | some types =>
      rw [declared] at names
      cases types with
      | single name => simp [TypeNames.toList] at names
      | several list =>
        simp only [TypeNames.toList, Option.map_some, Option.getD_some, TypeNames.size] at names ⊢
        omega
  simp only [size, siblings, present_none, List.length_nil, Option.map_some,
    Option.getD_some, TypeNames.size]
  omega

section Held

variable (k : Keywords Schema)

theorem size_types : (k.types.map TypeNames.size).getD 0 < k.size := by
  simp only [size]
  omega

theorem size_properties : Schema.sizeEntries? k.properties < k.size := by
  simp only [size]
  omega

theorem size_required : (k.required.map fun names => names.length + 1).getD 0 < k.size := by
  simp only [size]
  omega

theorem size_additional : Schema.size? k.additional < k.size := by
  simp only [size]
  omega

theorem size_items : Schema.size? k.items < k.size := by
  simp only [size]
  omega

theorem size_places : Schema.sizeList? k.places < k.size := by
  simp only [size]
  omega

theorem size_limits : k.limits.size < k.size := by
  simp only [size]
  omega

end Held

-- So an object that is known for an object or an array has room for what a missing keyword allows.
section Room

variable {k : Keywords Schema}

theorem room_of_types (typed : k.concreteTypes ≠ []) : 1 < k.size := by
  obtain ⟨name, concrete⟩ := List.exists_mem_of_ne_nil _ typed
  have member : name ∈ k.typeNames := (List.mem_filter.mp concrete).1
  have held := size_types k
  unfold typeNames at member
  cases declared : k.types with
  | none => simp [declared] at member
  | some types =>
    have counted : 1 ≤ types.size := by
      cases types with
      | single name => exact Nat.le_refl 1
      | several names => exact Nat.le_add_left 1 _
    rw [declared, Option.map_some, Option.getD_some] at held
    exact Nat.lt_of_le_of_lt counted held

theorem room_of_limits (limited : 0 < k.limits.size) : 1 < k.size :=
  Nat.lt_of_le_of_lt limited (size_limits k)

theorem room_of_object (hinted : k.looksLikeObject = true) : 1 < k.size := by
  simp only [looksLikeObject, Bool.or_eq_true] at hinted
  rcases hinted with (((properties | additional) | required) | low) | high
  · obtain ⟨entries, given⟩ := Option.isSome_iff_exists.mp properties
    exact Nat.lt_of_le_of_lt (Nat.le_add_left 1 _) (given ▸ size_properties k)
  · obtain ⟨schema, given⟩ := Option.isSome_iff_exists.mp additional
    exact Nat.lt_of_le_of_lt (Nat.le_add_left 1 _) (given ▸ size_additional k)
  · obtain ⟨names, given⟩ := Option.isSome_iff_exists.mp required
    exact Nat.lt_of_le_of_lt (Nat.le_add_left 1 _) (given ▸ size_required k)
  · apply room_of_limits
    simp only [Limits.size, present, low, if_true]
    omega
  · apply room_of_limits
    simp only [Limits.size, present, high, if_true]
    omega

theorem room_of_array (hinted : k.looksLikeArray = true) : 1 < k.size := by
  simp only [looksLikeArray, Bool.or_eq_true] at hinted
  rcases hinted with (((items | places) | low) | high) | unique
  · obtain ⟨schema, given⟩ := Option.isSome_iff_exists.mp items
    exact Nat.lt_of_le_of_lt (Nat.le_add_left 1 _) (given ▸ size_items k)
  · obtain ⟨schemas, given⟩ := Option.isSome_iff_exists.mp places
    exact Nat.lt_of_le_of_lt (Nat.le_add_left 1 _) (given ▸ size_places k)
  · apply room_of_limits
    simp only [Limits.size, present, low, if_true]
    omega
  · apply room_of_limits
    simp only [Limits.size, present, high, if_true]
    omega
  · apply room_of_limits
    simp only [Limits.size, present, unique, if_true]
    omega

end Room

theorem size_of_property {k : Keywords Schema} {entry : String × Schema} (member : entry ∈ k.properties.getD []) :
    entry.2.size < k.size := by
  have held := size_properties k
  cases properties : k.properties with
  | none => simp [properties] at member
  | some entries =>
    rw [properties, Option.getD_some] at member
    rw [properties, Schema.sizeEntries?] at held
    have := Schema.size_lt_sizeEntries member
    omega

theorem size_of_place {k : Keywords Schema} {schema : Schema} (member : schema ∈ k.places.getD []) :
    schema.size < k.size := by
  have held := size_places k
  cases places : k.places with
  | none => simp [places] at member
  | some schemas =>
    rw [places, Option.getD_some] at member
    rw [places, Schema.sizeList?] at held
    have := Schema.size_lt_sizeList member
    omega

theorem size_of_additional {k : Keywords Schema} {schema : Schema} (given : k.additional = some schema) :
    schema.size < k.size := by
  have held := size_additional k
  rw [given, Schema.size?] at held
  omega

theorem size_of_items {k : Keywords Schema} {schema : Schema} (given : k.items = some schema) :
    schema.size < k.size := by
  have held := size_items k
  rw [given, Schema.size?] at held
  omega

inductive PassesOn (k : Keywords Schema) : Schema → Prop where
  | overlaid {op : Composition} {branches : List Schema} {top : Keywords Schema}
      (found : k.branches? op = some branches) (member : .object top ∈ branches) :
      PassesOn k (.object ((k.siblings.without op).overlay top))
  | siblings {op : Composition} {branches : List Schema} (found : k.branches? op = some branches)
      (member : .bool true ∈ branches) : PassesOn k (.object (k.siblings.without op))
  | branch {op : Composition} {branches : List Schema} {branch : Schema}
      (found : k.branches? op = some branches) (member : branch ∈ branches) : PassesOn k branch
  | oneType {name : String} (several : 1 < k.concreteTypes.length) (member : name ∈ k.concreteTypes) :
      PassesOn k (.object { k.siblings with types := some (.single name) })
  | property {entry : String × Schema} (member : entry ∈ k.properties.getD []) : PassesOn k entry.2
  | additional {schema : Schema} (given : k.additional = some schema) : PassesOn k schema
  | items {schema : Schema} (given : k.items = some schema) : PassesOn k schema
  | place {schema : Schema} (member : schema ∈ k.places.getD []) : PassesOn k schema
  -- What the keyword for further properties or items stands for where it is missing.
  | anything (known : k.concreteTypes ≠ [] ∨ k.looksLikeObject = true ∨ k.looksLikeArray = true) :
      PassesOn k (.bool true)

theorem size_of_passesOn {k : Keywords Schema} {child : Schema} (passed : PassesOn k child) :
    child.size < k.size := by
  cases passed with
  | overlaid found member =>
    rw [Schema.size_object]
    exact size_overlay_branch found member
  | siblings found member =>
    rw [Schema.size_object]
    exact size_siblings_lt found
  | branch found member => exact size_branch found member
  | oneType several member =>
    rw [Schema.size_object]
    exact size_singleType several _
  | property member => exact size_of_property member
  | additional given => exact size_of_additional given
  | items given => exact size_of_items given
  | place member => exact size_of_place member
  | anything known =>
    rcases known with typed | object | array
    · exact room_of_types typed
    · exact room_of_object object
    · exact room_of_array array

section Steps

variable {k : Keywords Schema} {child : Schema}

theorem passesOn_inherit {op : Composition} {branches : List Schema} (found : k.branches? op = some branches)
    {branch : Schema} (member : branch ∈ branches) :
    PassesOn k ((k.siblings.without op).inherit branch) := by
  cases branch with
  | bool value =>
    cases value with
    | true =>
      rw [inherit]
      split
      · exact .branch found member
      · exact .siblings found member
    | false => exact .branch found member
  | object top =>
    rw [inherit]
    split
    · exact .branch found member
    · exact .overlaid found member

theorem passesOn_objectShape (known : k.concreteTypes ≠ [] ∨ k.looksLikeObject = true ∨ k.looksLikeArray = true)
    (member : child ∈ k.objectShape.children) : PassesOn k child := by
  simp only [objectShape, Shape.children, List.mem_append, List.mem_map, List.mem_singleton] at member
  rcases member with ⟨entry, declared, rfl⟩ | rfl
  · exact .property declared
  · cases additional : k.additional with
    | none => exact .anything known
    | some schema => exact .additional additional

theorem passesOn_arrayShape (known : k.concreteTypes ≠ [] ∨ k.looksLikeObject = true ∨ k.looksLikeArray = true)
    (member : child ∈ k.arrayShape.children) : PassesOn k child := by
  simp only [arrayShape, Shape.children, List.mem_append, List.mem_singleton] at member
  rcases member with declared | rfl
  · exact .place declared
  · cases items : k.items with
    | none => exact .anything known
    | some schema => exact .items items

theorem passesOn_typedShape (member : child ∈ (k.typedShape k.concreteTypes.head?).children) :
    PassesOn k child := by
  unfold typedShape at member
  split at member
  · rename_i name first
    have typed : k.concreteTypes ≠ [] := List.ne_nil_of_mem (List.mem_of_mem_head? first)
    split at member
    · exact passesOn_objectShape (.inl typed) member
    · split at member
      · exact passesOn_arrayShape (.inl typed) member
      · split at member <;> simp [Shape.children] at member
  · split at member
    · simp [Shape.children] at member
    · split at member
      · rename_i object
        exact passesOn_objectShape (.inr (.inl object)) member
      · split at member
        · rename_i array
          exact passesOn_arrayShape (.inr (.inr array)) member
        · simp [Shape.children] at member

theorem passesOn_plainShape (member : child ∈ k.plainShape.children) : PassesOn k child := by
  unfold plainShape at member
  split at member
  · rename_i op branches found
    simp only [Shape.children, List.mem_map] at member
    obtain ⟨branch, held, rfl⟩ := member
    exact passesOn_inherit (branches?_of_composition? found) held
  · split at member
    · rename_i several
      simp only [Shape.children, List.mem_map] at member
      obtain ⟨name, listed, rfl⟩ := member
      exact .oneType several listed
    · split at member
      · simp [Shape.children] at member
      · simp [Shape.children] at member
      · exact passesOn_typedShape member

end Steps

end Keywords

namespace Schema

theorem passesOn_of_step {schema : Schema} {shape : Shape Schema} (stepped : schema.step = .ok shape)
    {child : Schema} (member : child ∈ shape.children) :
    ∃ k, schema = .object k ∧ k.PassesOn child := by
  cases schema with
  | bool value =>
    cases Except.ok.inj stepped
    simp [Shape.children] at member
  | object k =>
    refine ⟨k, rfl, ?_⟩
    simp only [step] at stepped
    split at stepped
    · rename_i reference _
      cases named : componentName reference with
      | error e => simp [named, Except.map] at stepped
      | ok name =>
        rw [named] at stepped
        cases Except.ok.inj stepped
        simp [Shape.children] at member
    · cases Except.ok.inj stepped
      exact Keywords.passesOn_plainShape member

theorem size_of_mem_step {schema : Schema} {shape : Shape Schema} (stepped : schema.step = .ok shape)
    {child : Schema} (member : child ∈ shape.children) : child.size < schema.size := by
  obtain ⟨k, rfl, passed⟩ := passesOn_of_step stepped member
  rw [size_object]
  exact Keywords.size_of_passesOn passed

end Schema

end ApiContract
