import ApiContract.Proofs.CompiledSchemas
import ApiContract.Proofs.PassingValues

namespace ApiContract

-- What keywords without a reference and a composition are read as, and the validator of each reading.

inductive Kind where
  | object
  | array
  | scalar (type : ScalarType)
deriving DecidableEq

namespace Kind

def parse? (name : String) : Option Kind :=
  if name = "object" then some object
  else if name = "array" then some array
  else (ScalarType.parse? name).map scalar

def admits : Kind → Json → Bool
  | object, .object _ => true
  | array, .array _ => true
  | scalar .string, .string _ => true
  | scalar .number, .number _ => true
  | scalar .integer, .number _ => true
  | scalar .boolean, .bool _ => true
  | scalar .null, .null => true
  | _, _ => false

inductive Narrows : Kind → Kind → Prop where
  | same (kind : Kind) : Narrows kind kind
  | integer : Narrows (scalar .integer) (scalar .number)

inductive Numeric : Kind → Prop where
  | number : Numeric (scalar .number)
  | integer : Numeric (scalar .integer)

-- Only the two numeric kinds share values.
theorem admits_apart {a b : Kind} {value : Json} (first : a.admits value = true) (second : b.admits value = true) :
    a = b ∨ Numeric a ∧ Numeric b := by
  unfold admits at first second
  split at first
  · split at second <;> simp_all
  · split at second <;> simp_all
  · split at second <;> simp_all
  · split at second <;> first | exact .inr ⟨.number, .number⟩ | exact .inr ⟨.number, .integer⟩ | simp_all
  · split at second <;> first | exact .inr ⟨.integer, .number⟩ | exact .inr ⟨.integer, .integer⟩ | simp_all
  · split at second <;> simp_all
  · split at second <;> simp_all
  · cases first

end Kind

namespace Keywords

variable {k m : Keywords Schema} {known : String → Bool}

structure Plain (k : Keywords Schema) : Prop where
  ref : k.ref = none
  composition : k.composition? = none

-- The values that are listed under `const` or `enum`.
def literals? (k : Keywords Schema) : Option (List Json) := (k.const.map fun value => [value]).or k.enum

-- What keywords without a reference, a composition and listed values are read as, one kind for each
-- type. A type that is not known stands for anything.
def kinds (k : Keywords Schema) : List (Option Kind) :=
  match k.concreteTypes with
  | [] =>
    if !k.typeNames.isEmpty then [some (.scalar .null)]
    else if k.looksLikeObject then [some .object]
    else if k.looksLikeArray then [some .array]
    else [none]
  | names => names.map Kind.parse?

def shapeOf (k : Keywords Schema) : Option Kind → Shape Schema
  | some .object => k.objectShape
  | some .array => k.arrayShape
  | some (.scalar .null) => .scalar { type := .null }
  | some (.scalar type) => .scalar (scalarOf k.limits type)
  | none => .bool true

def shapeAs (k : Keywords Schema) (kind : Option Kind) : Shape Schema :=
  match k.const, k.enum with
  | some value, _ => .const value
  | none, some values => .enum values
  | none, none => k.shapeOf kind

section Reading

theorem literals?_none : k.literals? = none ↔ k.const = none ∧ k.enum = none := by
  simp [literals?]

theorem shapeAs_free (free : k.literals? = none) (kind : Option Kind) : k.shapeAs kind = k.shapeOf kind := by
  obtain ⟨noConst, noEnum⟩ := literals?_none.mp free
  unfold shapeAs
  rw [noConst, noEnum]

theorem parse?_null {name : String} (found : ScalarType.parse? name = some .null) : name = "null" := by
  unfold ScalarType.parse? at found
  split at found <;> simp_all

theorem typedShape_some {name : String} (other : name ≠ "null") : k.typedShape (some name) = k.shapeOf (Kind.parse? name) := by
  unfold typedShape Kind.parse?
  dsimp only
  by_cases isObject : name = "object"
  · rw [if_pos isObject, if_pos isObject]
    rfl
  · rw [if_neg isObject, if_neg isObject]
    by_cases isArray : name = "array"
    · rw [if_pos isArray, if_pos isArray]
      rfl
    · rw [if_neg isArray, if_neg isArray]
      cases found : ScalarType.parse? name with
      | none => rfl
      | some type =>
        cases type with
        | null => exact absurd (parse?_null found) other
        | _ => rfl

theorem mem_concreteTypes {name : String} (member : name ∈ k.concreteTypes) : name ≠ "null" := by
  have kept := (List.mem_filter.mp member).2
  simpa using kept

-- The keywords with one of their types.
def only (k : Keywords Schema) (name : String) : Keywords Schema := { k.siblings with types := some (.single name) }

theorem only_plain (plain : k.Plain) (name : String) : (k.only name).Plain := ⟨rfl, plain.composition⟩

theorem concreteTypes_single {name : String} (types : k.types = some (.single name)) (other : name ≠ "null") :
    k.concreteTypes = [name] := by
  simp [concreteTypes, typeNames, types, TypeNames.toList, other]

theorem only_nullable {name : String} (other : name ≠ "null") : (k.only name).isNullable = false := by
  simp [isNullable, typeNames, only, siblings, TypeNames.toList, other.symm]

theorem only_shape (plain : k.Plain) {name : String} (other : name ≠ "null") :
    (k.only name).plainShape = k.shapeAs (Kind.parse? name) := by
  unfold plainShape
  rw [(only_plain plain name).composition, concreteTypes_single rfl other]
  unfold shapeAs
  rw [← typedShape_some other]
  rfl

-- Without a type other than `null` there is one reading.
theorem typedShape_none (untyped : k.concreteTypes = []) :
    ∃ kind, k.kinds = [kind] ∧ k.typedShape none = k.shapeOf kind := by
  unfold kinds typedShape
  rw [untyped]
  dsimp only
  split
  · exact ⟨_, rfl, rfl⟩
  · split
    · exact ⟨_, rfl, rfl⟩
    · split
      · exact ⟨_, rfl, rfl⟩
      · exact ⟨_, rfl, rfl⟩

-- Several types are alternatives, each with the same keywords.
theorem plainShape_cases (plain : k.Plain) :
    (∃ kind, k.kinds = [kind] ∧ k.plainShape = k.shapeAs kind) ∨
      (k.kinds = k.concreteTypes.map Kind.parse? ∧
        k.plainShape = .composition .anyOf (k.concreteTypes.map fun name => .object (k.only name))) := by
  have listed (kind : Option Kind) (typed : k.typedShape k.concreteTypes.head? = k.shapeOf kind)
      (one : ¬ 1 < k.concreteTypes.length) : k.plainShape = k.shapeAs kind := by
    unfold plainShape shapeAs
    rw [plain.composition, ← typed]
    exact if_neg one
  cases types : k.concreteTypes with
  | nil =>
    obtain ⟨kind, single, typed⟩ := typedShape_none types
    refine .inl ⟨kind, single, listed kind ?_ ?_⟩
    · rw [types]
      exact typed
    · rw [types]
      exact Nat.not_succ_le_zero 1
  | cons name rest =>
    have named : k.kinds = (name :: rest).map Kind.parse? := by
      unfold kinds
      rw [types]
    cases rest with
    | nil =>
      have other : name ≠ "null" := mem_concreteTypes (types ▸ List.mem_singleton_self name)
      refine .inl ⟨_, named, listed _ ?_ ?_⟩
      · rw [types]
        exact typedShape_some other
      · rw [types]
        exact Nat.lt_irrefl 1
    | cons second rest =>
      refine .inr ⟨named, ?_⟩
      unfold plainShape
      rw [plain.composition, types]
      exact if_pos (Nat.succ_lt_succ (Nat.zero_lt_succ _))

end Reading

section Alternatives

open Validator (evaluate)

def validatorAs (known : String → Bool) (k : Keywords Schema) (kind : Option Kind) : Validator :=
  Validator.assemble ((k.shapeAs kind).map (Schema.compiled known))

theorem step_plain (ref : k.ref = none) : (Schema.object k).step = .ok k.plainShape := by
  simp only [Schema.step, ref]

-- Without a reference, keywords are neither read as one nor as the schema that nothing passes.
theorem shapeAs_ne (kind : Option Kind) : (∀ name, k.shapeAs kind ≠ .ref name) ∧ k.shapeAs kind ≠ .bool false := by
  unfold shapeAs shapeOf
  split
  · simp
  · simp
  · split <;> simp [objectShape, arrayShape]

theorem only_step (plain : k.Plain) {name : String} (other : name ≠ "null") :
    (Schema.object (k.only name)).step = .ok (k.shapeAs (Kind.parse? name)) := by
  rw [step_plain rfl, only_shape plain other]

theorem only_compiles (plain : k.Plain) {name : String} (other : name ≠ "null") :
    ((Schema.object (k.only name)).Compiles known ↔
      ∀ child ∈ (k.shapeAs (Kind.parse? name)).children, child.Compiles known) := by
  rw [Schema.compiles_iff (only_step plain other) (shapeAs_ne _).1]
  exact and_iff_right rfl

theorem only_validator (plain : k.Plain) {name : String} (other : name ≠ "null")
    (compiles : (Schema.object (k.only name)).Compiles known) :
    (Schema.object (k.only name)).validator known = k.validatorAs known (Kind.parse? name) := by
  rw [Schema.validator_eq (only_step plain other) compiles]
  show Validator.orNullIf (k.only name).isNullable _ = _
  rw [only_nullable other]
  rfl

theorem plain_compiles (plain : k.Plain) : (Schema.object k).Compiles known ↔
    k.unsupported = [] ∧ ∀ kind ∈ k.kinds, ∀ child ∈ (k.shapeAs kind).children, child.Compiles known := by
  have stepped := step_plain plain.ref
  rcases plainShape_cases plain with ⟨kind, single, shape⟩ | ⟨named, shape⟩
  · rw [shape] at stepped
    rw [Schema.compiles_iff stepped (shapeAs_ne _).1, single, List.forall_mem_singleton]
    rfl
  · rw [shape] at stepped
    rw [Schema.compiles_iff stepped nofun, named, List.forall_mem_map]
    refine and_congr_right fun _ => List.forall_mem_map.trans ?_
    exact forall₂_congr fun name member => only_compiles plain (mem_concreteTypes member)

variable {resolve : String → Validator.Check} {value : Json}

theorem unionOf_single [Pattern.Engine] {v : Validator} :
    evaluate resolve (.unionOf [v]) value = .ok [] ↔ evaluate resolve v value = .ok [] := by
  constructor
  · intro passed
    obtain ⟨w, inside, holds⟩ := Validator.unionOf_pass passed
    exact List.mem_singleton.mp inside ▸ holds
  · intro passed
    exact Validator.unionOf_pass_of_mem (List.forall_mem_singleton.mpr ⟨[], passed⟩) (List.mem_singleton_self v) passed

-- A single reading is checked as it is, several are alternatives.
theorem plain_validator (plain : k.Plain) (compiles : (Schema.object k).Compiles known) :
    (∃ kind, k.kinds = [kind] ∧ (Schema.object k).validator known = .orNullIf k.isNullable (k.validatorAs known kind)) ∨
      (Schema.object k).validator known = .orNullIf k.isNullable (.unionOf (k.kinds.map (k.validatorAs known))) := by
  have stepped := step_plain plain.ref
  rw [Schema.validator_eq stepped compiles]
  rcases plainShape_cases plain with ⟨kind, single, shape⟩ | ⟨named, shape⟩
  · rw [shape]
    exact .inl ⟨kind, single, rfl⟩
  · rw [shape] at stepped ⊢
    obtain ⟨_, children, _⟩ := Schema.children_compile stepped compiles
    have same : ((k.concreteTypes.map fun name => Schema.object (k.only name)).map (Schema.compiled known)).map Prod.snd
        = k.kinds.map (k.validatorAs known) := by
      rw [named, List.map_map, List.map_map, List.map_map]
      refine List.map_congr_left fun name member => ?_
      exact only_validator plain (mem_concreteTypes member) (children _ (List.mem_map_of_mem member))
    rw [← same]
    exact .inr rfl

theorem plain_pass [Pattern.Engine] (plain : k.Plain) (compiles : (Schema.object k).Compiles known) :
    evaluate resolve ((Schema.object k).validator known) value = .ok [] ↔
      value = .null ∧ k.isNullable = true ∨
        evaluate resolve (.unionOf (k.kinds.map (k.validatorAs known))) value = .ok [] := by
  rcases plain_validator plain compiles with ⟨kind, single, one⟩ | several
  · rw [one, Validator.orNullIf_pass, single]
    exact or_congr Iff.rfl unionOf_single.symm
  · rw [several, Validator.orNullIf_pass]

theorem free_pass [Pattern.Engine] (own : k.Plain) (supported : k.unsupported = []) (unlisted : k.literals? = none)
    (anything : k.kinds = [none]) : (Schema.object k).Compiles known ∧
      ∀ resolve value, evaluate resolve ((Schema.object k).validator known) value = .ok [] := by
  have compiles : (Schema.object k).Compiles known := by
    refine (plain_compiles own).mpr ⟨supported, ?_⟩
    rw [anything]
    refine List.forall_mem_singleton.mpr ?_
    rw [shapeAs_free unlisted]
    exact List.forall_mem_nil _
  refine ⟨compiles, fun resolve value => (plain_pass own compiles).mpr (.inr ?_)⟩
  rw [anything]
  refine unionOf_single.mpr ?_
  rw [validatorAs, shapeAs_free unlisted]
  rfl

end Alternatives

section Containers

theorem step_true : (Schema.bool true).step = .ok (.bool true) := rfl

theorem compiles_true : (Schema.bool true).Compiles known :=
  (Schema.compiles_iff step_true nofun).mpr ⟨rfl, List.forall_mem_nil _⟩

theorem validator_true : (Schema.bool true).validator known = .unknown :=
  Schema.validator_eq step_true compiles_true

theorem isFalse_true : (Schema.bool true).node.isFalse = false := by
  rw [Schema.node_eq (Schema.lower_of_children step_true (List.forall_mem_nil _))]
  rfl

theorem isFalse_false : (Schema.bool false).node.isFalse = true := by
  have stepped : (Schema.bool false).step = .ok (.bool false) := rfl
  rw [Schema.node_eq (Schema.lower_of_children stepped (List.forall_mem_nil _))]
  rfl

-- Only the schema `false` ends a tuple or an object.
theorem eq_false_of_isFalse {schema : Schema} (compiles : schema.Compiles known) (closed : schema.node.isFalse = true) :
    schema = .bool false := by
  have stepped : schema.step = .ok (.bool false) := by
    have lowered := compiles.lowered
    rw [Schema.lower_eq] at lowered
    obtain ⟨shape, stepped, _⟩ := bind_ok lowered
    rw [Schema.node_eq (Schema.lower_of_children stepped (Schema.lower_children stepped compiles.lowered))] at closed
    unfold Node.isFalse at closed
    rw [Schema.annotate_shape] at closed
    rw [stepped]
    cases shape with
    | bool b =>
      cases b with
      | false => rfl
      | true => cases closed
    | _ => cases closed
  cases schema with
  | bool b =>
    cases stepped
    rfl
  | object k =>
    cases ref : k.ref with
    | some reference =>
      simp only [Schema.step, ref] at stepped
      obtain ⟨_, _, equal⟩ := map_ok stepped
      cases equal
    | none =>
      rw [step_plain ref, Except.ok.injEq] at stepped
      cases composed : k.composition? with
      | some found =>
        unfold plainShape at stepped
        rw [composed] at stepped
        cases stepped
      | none =>
        rcases plainShape_cases ⟨ref, composed⟩ with ⟨kind, _, shape⟩ | ⟨_, shape⟩
        · exact absurd (shape.symm.trans stepped) (shapeAs_ne kind).2
        · cases shape.symm.trans stepped

theorem not_free {schema : Schema} (closed : schema.node.isFalse = true) : schema ≠ .bool true := by
  rintro rfl
  rw [isFalse_true] at closed
  cases closed

end Containers

section Kinds

open Validator (evaluate)
open Validator.Outcome (Defined)

variable {resolve : String → Validator.Check} {value : Json} {kind : Kind}

-- What a value of each kind is checked against.
def arrayOf (known : String → Bool) (k : Keywords Schema) : ArrayShape Validator :=
  ⟨(k.items.getD (.bool true)).validator known, k.places.map fun places => places.map (Schema.validator known),
    k.limits.minItems, k.limits.maxItems, k.limits.uniqueItems.getD false⟩

def objectOf (known : String → Bool) (k : Keywords Schema) : ObjectShape Validator :=
  ⟨(k.properties.getD []).map fun property => (property.1, property.2.validator known), k.required.getD [],
    (k.additional.getD (.bool true)).validator known, k.limits.minProperties, k.limits.maxProperties⟩

def typedValidator (known : String → Bool) (k : Keywords Schema) : Kind → Validator
  | .object => .ofObject (k.additional.getD (.bool true)).node.isFalse (k.objectOf known)
  | .array => .ofArray (k.items.getD (.bool true)).node.isFalse (k.arrayOf known)
  | .scalar type => .ofScalar (scalarOf k.limits type)

theorem assemble_shapeOf (kind : Kind) :
    Validator.assemble ((k.shapeOf (some kind)).map (Schema.compiled known)) = k.typedValidator known kind := by
  cases kind with
  | object =>
    simp only [shapeOf, objectShape, Shape.map, Validator.assemble, List.map_map]
    rfl
  | array =>
    simp only [shapeOf, arrayShape, Shape.map, Validator.assemble, Option.map_map, typedValidator, arrayOf]
    congr 2
    cases k.places with
    | none => rfl
    | some places => simp [Schema.compiled]
  | scalar type => cases type <;> rfl

theorem validatorAs_free (free : k.literals? = none) (kind : Kind) :
    k.validatorAs known (some kind) = k.typedValidator known kind := by
  rw [validatorAs, shapeAs_free free, assemble_shapeOf]

theorem typed_string_pass [Pattern.Engine] :
    evaluate resolve (k.typedValidator known (.scalar .string)) value = .ok [] ↔
    k.limits.format ≠ some "binary" ∧ ∃ s, value = .string s ∧ k.limits.minLength.all (· ≤ s.length) = true ∧
      k.limits.maxLength.all (s.length ≤ ·) = true ∧ Validator.checkPattern s k.limits.pattern = .ok [] := by
  have text : k.typedValidator known (.scalar .string) = if k.limits.format == some "binary" then .binary
      else .string ⟨k.limits.format, k.limits.minLength, k.limits.maxLength, k.limits.pattern⟩ := rfl
  rw [text]
  by_cases binary : k.limits.format = some "binary"
  · rw [if_pos (beq_iff_eq.mpr binary)]
    exact ⟨nofun, fun ⟨other, _⟩ => absurd binary other⟩
  · rw [if_neg (fun equal => binary (beq_iff_eq.mp equal)), Validator.string_pass]
    exact (and_iff_right binary).symm

theorem typed_number_pass [Pattern.Engine] {type : ScalarType} (numeric : Kind.Numeric (.scalar type)) :
    evaluate resolve (k.typedValidator known (.scalar type)) value = .ok [] ↔ ∃ n, value = .number n ∧
      Validator.NumberHolds ⟨decide (type = .integer), Validator.lowerBound (scalarOf k.limits type),
        Validator.upperBound (scalarOf k.limits type), k.limits.multipleOf⟩ n.toDouble := by
  cases numeric with
  | number => exact Validator.ofNumber_pass
  | integer => exact Validator.ofNumber_pass

theorem typed_array_pass [Pattern.Engine] : evaluate resolve (k.typedValidator known .array) value = .ok [] ↔
    ∃ items, value = .array items ∧
      Validator.ArrayPasses resolve (k.items.getD (.bool true)).node.isFalse (k.arrayOf known) items :=
  Validator.ofArray_pass

theorem typed_object_pass [Pattern.Engine] : evaluate resolve (k.typedValidator known .object) value = .ok [] ↔
    ∃ entries, value = .object entries ∧
      Validator.ObjectPasses resolve (Validator.fieldsOf (k.objectOf known)) (if (k.additional.getD (.bool true)).node.isFalse
        then .strict else .catchall ((k.additional.getD (.bool true)).validator known)) entries ∧
      k.limits.minProperties.all (· ≤ entries.length) = true ∧ k.limits.maxProperties.all (entries.length ≤ ·) = true :=
  Validator.ofObject_pass

theorem mem_fields {field : Field Validator} : field ∈ Validator.fieldsOf (k.objectOf known) ↔
    ∃ property ∈ k.properties.getD [],
      (⟨property.1, property.2.validator known, !(k.required.getD []).contains property.1⟩ : Field Validator) = field := by
  simp [Validator.fieldsOf, objectOf, ObjectShape.isRequired]

theorem fieldNames (known : String → Bool) (k : Keywords Schema) :
    (Validator.fieldsOf (k.objectOf known)).map Field.name = Keyed.keys (k.properties.getD []) := by
  simp [Validator.fieldsOf, objectOf, Keyed.keys]

theorem kind_admits [Pattern.Engine] (passed : evaluate resolve (k.typedValidator known kind) value = .ok []) :
    kind.admits value = true := by
  cases kind with
  | object =>
    obtain ⟨entries, rfl, _⟩ := typed_object_pass.mp passed
    rfl
  | array =>
    obtain ⟨items, rfl, _⟩ := typed_array_pass.mp passed
    rfl
  | scalar type =>
    cases type with
    | string =>
      obtain ⟨_, s, rfl, _⟩ := typed_string_pass.mp passed
      rfl
    | number =>
      obtain ⟨n, rfl, _⟩ := (typed_number_pass .number).mp passed
      rfl
    | integer =>
      obtain ⟨n, rfl, _⟩ := (typed_number_pass .integer).mp passed
      rfl
    | boolean =>
      cases value with
      | bool b => rfl
      | _ => cases passed
    | null =>
      cases value with
      | null => rfl
      | _ => cases passed

-- A check raises an error only on a value of its own kind, and never on a number.
theorem kind_defined [Pattern.Engine] (other : kind.admits value = false ∨ Kind.Numeric kind) :
    Defined (evaluate resolve (k.typedValidator known kind) value) := by
  cases kind with
  | object =>
    rcases other with other | numeric
    · refine Validator.ofObject_defined fun entries equal => ?_
      rw [equal] at other
      cases other
    · cases numeric
  | array =>
    rcases other with other | numeric
    · refine Validator.ofArray_defined fun items equal => ?_
      rw [equal] at other
      cases other
    · cases numeric
  | scalar type =>
    cases type with
    | string =>
      rcases other with other | numeric
      · show Defined (evaluate resolve (if k.limits.format == some "binary" then .binary
          else .string ⟨k.limits.format, k.limits.minLength, k.limits.maxLength, k.limits.pattern⟩) value)
        split
        · exact ⟨_, rfl⟩
        · cases value with
          | string s => cases other
          | _ => exact ⟨_, rfl⟩
      · cases numeric
    | number => exact Validator.ofNumber_defined _ value
    | integer => exact Validator.ofNumber_defined _ value
    | boolean => cases value <;> exact ⟨_, rfl⟩
    | null => cases value <;> exact ⟨_, rfl⟩

-- Where one of the kinds passes, no other raises an error.
theorem alternatives_pass [Pattern.Engine] (free : k.literals? = none) (named : none ∉ k.kinds)
    (given : some kind ∈ k.kinds) (passed : evaluate resolve (k.typedValidator known kind) value = .ok []) :
    evaluate resolve (.unionOf (k.kinds.map (k.validatorAs known))) value = .ok [] := by
  rw [← validatorAs_free free] at passed
  refine Validator.unionOf_pass_of_mem (List.forall_mem_map.mpr ?_) (List.mem_map_of_mem given) passed
  intro other listed
  cases other with
  | none => exact absurd listed named
  | some other =>
    rw [validatorAs_free free] at passed ⊢
    by_cases admits : other.admits value = true
    · rcases Kind.admits_apart admits (kind_admits passed) with rfl | ⟨numeric, _⟩
      · exact ⟨[], passed⟩
      · exact kind_defined (.inr numeric)
    · exact kind_defined (.inl (Bool.eq_false_iff.mpr admits))

theorem alternative_of_pass [Pattern.Engine] (free : k.literals? = none) (named : none ∉ k.kinds)
    (passed : evaluate resolve (.unionOf (k.kinds.map (k.validatorAs known))) value = .ok []) :
    ∃ kind, some kind ∈ k.kinds ∧ evaluate resolve (k.typedValidator known kind) value = .ok [] := by
  obtain ⟨_, inside, holds⟩ := Validator.unionOf_pass passed
  obtain ⟨kind, given, rfl⟩ := List.mem_map.mp inside
  cases kind with
  | none => exact absurd given named
  | some kind =>
    rw [validatorAs_free free] at holds
    exact ⟨kind, given, holds⟩

theorem validatorAs_listed {values : List Json} (listed : k.literals? = some values) (kind : Option Kind) :
    k.validatorAs known kind = .ofLiterals values := by
  unfold literals? at listed
  unfold validatorAs shapeAs
  cases const : k.const with
  | some value =>
    rw [const] at listed
    cases listed
    rfl
  | none =>
    rw [const] at listed
    cases enum : k.enum with
    | some values =>
      rw [enum] at listed
      cases listed
      rfl
    | none =>
      rw [enum] at listed
      cases listed

theorem shapeAs_listed {values : List Json} (listed : k.literals? = some values) (kind : Option Kind) :
    (k.shapeAs kind).children = [] := by
  unfold literals? at listed
  unfold shapeAs
  cases const : k.const with
  | some value => rfl
  | none =>
    cases enum : k.enum with
    | some values => rfl
    | none =>
      rw [const, enum] at listed
      cases listed

theorem kinds_nonempty (k : Keywords Schema) : ∃ kind, kind ∈ k.kinds := by
  unfold kinds
  split
  · split
    · exact ⟨_, List.mem_singleton_self _⟩
    · split
      · exact ⟨_, List.mem_singleton_self _⟩
      · split <;> exact ⟨_, List.mem_singleton_self _⟩
  · rename_i names
    cases types : k.concreteTypes with
    | nil => exact absurd types names
    | cons name rest => exact ⟨_, List.mem_cons_self⟩

end Kinds

end Keywords

end ApiContract
