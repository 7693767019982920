import ApiContract.Pattern.Search
import ApiContract.Proofs.Acceptance
import ApiContract.Proofs.KeywordReadings

namespace ApiContract

-- What the validator of an object or array node asks of the value as a whole: which names are keys, how
-- many items there are, and whether two of them are equal. A field is required or not, so a name that is
-- required without being declared has no field to make required; and a tuple that ends with its places has
-- as many items as places, so its limits are not looked at.

namespace Json

theorem Number.beq_comm (m n : Number) : (m == n) = (n == m) := by
  cases m <;> cases n <;> simp [BEq.beq, eq_comm]

mutual
theorem same_comm : ∀ a b : Json, same a b = same b a
  | null, b => by cases b <;> rfl
  | bool a, b => by
    cases b with
    | bool b => exact Bool.beq_comm
    | _ => rfl
  | number m, b => by
    cases b with
    | number n => exact Number.beq_comm m n
    | _ => rfl
  | string s, b => by
    cases b with
    | string t => exact BEq.comm
    | _ => rfl
  | array items, b => by
    cases b with
    | array others => exact sameAll_comm items others
    | _ => rfl
  | object fields, b => by
    cases b with
    | object others => exact sameFields_comm fields others
    | _ => rfl
theorem sameAll_comm : ∀ as bs : List Json, sameAll as bs = sameAll bs as
  | [], [] => rfl
  | [], _ :: _ => rfl
  | _ :: _, [] => rfl
  | a :: as, b :: bs => by
    rw [sameAll, sameAll, same_comm a b, sameAll_comm as bs]
theorem sameFields_comm : ∀ as bs : List (String × Json), sameFields as bs = sameFields bs as
  | [], [] => rfl
  | [], _ :: _ => rfl
  | _ :: _, [] => rfl
  | (k, a) :: as, (l, b) :: bs => by
    have keys : (k == l) = (l == k) := BEq.comm
    rw [sameFields, sameFields, same_comm a b, sameFields_comm as bs, keys]
end

theorem beq_comm (a b : Json) : (a == b) = (b == a) := same_comm a b

end Json

namespace Validator

variable {known : String → Bool} {node : Node} {v : Validator} {table : List (String × Validator)}

section Objects

variable {o : ObjectShape Node}

def objectOf (known : String → Bool) (o : ObjectShape Node) : ObjectShape Validator :=
  ⟨o.properties.map fun property => (property.1, occurring known property.2), o.required,
    occurring known o.additional, o.minProperties, o.maxProperties⟩

theorem ofChildren_object :
    ofChildren known (.object o) = ofObject o.additional.isFalse (objectOf known o) := by
  simp only [ofChildren, Shape.map, assemble, objectOf, List.map_map]
  rfl

-- Of the required names only those of properties are looked at.
theorem ofObject_required {o : ObjectShape Validator} {required : List String}
    (same : ∀ property ∈ o.properties, required.contains property.1 = o.isRequired property.1) (closed : Bool) :
    ofObject closed { o with required := required } = ofObject closed o := by
  have fields : (o.properties.map fun property =>
        (⟨property.1, property.2, !required.contains property.1⟩ : Field Validator))
      = o.properties.map fun property => ⟨property.1, property.2, !o.isRequired property.1⟩ := by
    refine List.map_congr_left fun property inside => ?_
    rw [same property inside]
  simp only [ofObject, ObjectShape.isRequired] at fields ⊢
  rw [fields]

theorem required_property_present [Pattern.Engine] (shape : node.shape = .object o)
    (compiled : expanded known node = .ok v) {entries : List (String × Json)}
    (accepted : check table v (.object entries) = .ok []) {name : String}
    (required : name ∈ o.required) (declared : name ∈ o.properties.map Prod.fst) : name ∈ entries.map Prod.fst := by
  rw [expanded_pass compiled, shape, ofChildren_object, ofObject_pass] at accepted
  obtain ⟨_, equal, passes, _⟩ := accepted.resolve_left (by simp)
  cases equal
  obtain ⟨property, inside, rfl⟩ := List.mem_map.mp declared
  have field : (⟨property.1, occurring known property.2, !o.isRequired property.1⟩ : Field Validator)
      ∈ fieldsOf (objectOf known o) :=
    List.mem_map_of_mem (List.mem_map_of_mem inside)
  have asked : o.isRequired property.1 = true := List.contains_iff_mem.mpr required
  obtain ⟨x, found⟩ := Option.isSome_iff_exists.mp (passes.required _ field (by rw [asked]; rfl))
  exact List.mem_map_of_mem (lookup_mem found)

theorem undeclared_required_unused (shape : node.shape = .object o) (compiled : expanded known node = .ok v) :
    expanded known { node with shape := .object { o with
      required := o.required.filter fun name => (o.properties.map Prod.fst).contains name } } = .ok v := by
  obtain ⟨supported, children, _, rfl⟩ := expanded_ok.mp compiled
  refine expanded_ok.mpr ⟨supported, ?_, by simp, ?_⟩
  · rw [Node.children, shape] at children
    exact children
  · rw [shape, ofChildren_object, ofChildren_object]
    refine congrArg (orNullIf node.nullable) (ofObject_required ?_ _).symm
    intro property inside
    obtain ⟨own, declared, rfl⟩ := List.mem_map.mp inside
    have kept : (o.properties.map Prod.fst).contains own.1 = true :=
      List.contains_iff_mem.mpr (List.mem_map_of_mem declared)
    show (o.required.filter _).contains own.1 = o.required.contains own.1
    rw [Bool.eq_iff_iff, List.contains_iff_mem, List.contains_iff_mem, List.mem_filter]
    exact and_iff_left kept

-- A required name is a key if it is declared; the other required names play no part.
theorem required_keys_present [Pattern.Engine] (shape : node.shape = .object o)
    (compiled : expanded known node = .ok v) :
    (∀ (table : List (String × Validator)) entries, check table v (.object entries) = .ok [] →
      ∀ name ∈ o.required, name ∈ o.properties.map Prod.fst → name ∈ entries.map Prod.fst) ∧
    expanded known { node with shape := .object { o with
      required := o.required.filter fun name => (o.properties.map Prod.fst).contains name } } = .ok v := by
  constructor
  · intro table entries accepted name required declared
    exact required_property_present shape compiled accepted required declared
  · exact undeclared_required_unused shape compiled

-- A label is required and declared, a tag is required and not declared.
def plantShape : ObjectShape Node :=
  ⟨[("label", .string), ("parent", .reference "Plant")], ["tag", "label"], .scalar .integer, some 1, none⟩

def plant : Node := { name := some "Plant", nullable := true, shape := .object plantShape }

def plantValidator : Validator :=
  nullable (refined (object [⟨"label", string {}, false⟩, ⟨"parent", lazy "Plant", true⟩]
    (.catchall (number { integer := true }))) [.minProperties 1])

def seedling : List (String × Json) :=
  [("height", .number (.int 3)), ("label", .string "ash"), ("parent", .object [("label", .string "oak")])]

theorem seedling_has_label :
    expanded (· == "Plant") plant = .ok plantValidator ∧
    check [("Plant", plantValidator)] plantValidator (.object seedling) = .ok [] ∧
    "label" ∈ seedling.map Prod.fst ∧
    expanded (· == "Plant") { plant with shape := .object { plantShape with required := ["label"] } }
      = .ok plantValidator := by
  have compiled : expanded (· == "Plant") plant = .ok plantValidator := by rfl
  have accepted : check [("Plant", plantValidator)] plantValidator (.object seedling) = .ok [] := by rfl
  obtain ⟨present, unused⟩ := required_keys_present rfl compiled
  exact ⟨compiled, accepted, present _ _ accepted "label" (by decide) (by decide), unused⟩

theorem required_name_may_be_missing :
    ¬ ∀ (known : String → Bool) (node : Node) (o : ObjectShape Node) (v : Validator)
      (table : List (String × Validator)) (entries : List (String × Json)), node.shape = .object o →
        expanded known node = .ok v → check table v (.object entries) = .ok [] →
          ∀ name ∈ o.required, name ∈ entries.map Prod.fst := by
  intro law
  have tagged := law (· == "Plant") plant plantShape plantValidator [("Plant", plantValidator)] seedling rfl rfl (by rfl)
    "tag" (by decide)
  exact absurd tagged (by decide)

end Objects

section Arrays

variable {a : ArrayShape Node}

-- A tuple of as many items as places.
def EndsWithPlaces (a : ArrayShape Node) : Prop := a.places ≠ none ∧ a.items.isFalse = true

def arrayOf (known : String → Bool) (a : ArrayShape Node) : ArrayShape Validator :=
  ⟨occurring known a.items, a.places.map fun places => places.map (occurring known), a.minItems, a.maxItems,
    a.uniqueItems⟩

theorem ofChildren_array : ofChildren known (.array a) = ofArray a.items.isFalse (arrayOf known a) := by
  simp only [ofChildren, Shape.map, assemble, arrayOf, Option.map_map]
  congr 3
  funext places
  rw [Function.comp_apply, List.map_map]
  rfl

theorem length_places : ((arrayOf known a).places.getD []).length = (a.places.getD []).length := by
  unfold arrayOf
  cases a.places with
  | none => rfl
  | some places => exact List.length_map _

theorem places_none : (arrayOf known a).places = none ↔ a.places = none := Option.map_eq_none_iff

-- Two places of a list in which no item equals a later one.
theorem apart_of_allDifferent {items : List Json} (different : allDifferent items = true) {i j : Nat} {x y : Json}
    (apart : i ≠ j) (first : items[i]? = some x) (second : items[j]? = some y) : (x == y) = false := by
  have earlier {i j : Nat} {x y : Json} (before : i < j) (first : items[i]? = some x) (second : items[j]? = some y) :
      (x == y) = false := by
    obtain ⟨inside, rfl⟩ := List.getElem?_eq_some_iff.mp first
    obtain ⟨within, rfl⟩ := List.getElem?_eq_some_iff.mp second
    exact List.pairwise_iff_getElem.mp (allDifferent_iff.mp different) i j inside within before
  rcases Nat.lt_or_gt_of_ne apart with before | after
  · exact earlier before first second
  · rw [Json.beq_comm]
    exact earlier after second first

-- An array that passes keeps the declared limits, unless the tuple ends with its places.
theorem array_limits_kept [Pattern.Engine] (shape : node.shape = .array a) (compiled : expanded known node = .ok v)
    {items : List Json} (accepted : check table v (.array items) = .ok []) :
    (¬ EndsWithPlaces a → (∀ least, a.minItems = some least → least ≤ items.length) ∧
      ∀ most, a.maxItems = some most → items.length ≤ most) ∧
    (EndsWithPlaces a → items.length = (a.places.getD []).length) ∧
    (a.uniqueItems = true → ∀ (i j : Nat) x y, i ≠ j → items[i]? = some x → items[j]? = some y →
      (x == y) = false) := by
  rw [expanded_pass compiled, shape, ofChildren_array, ofArray_pass] at accepted
  obtain ⟨_, equal, passes⟩ := accepted.resolve_left (by simp)
  cases equal
  refine ⟨fun continues => ?_, fun ends => ?_, fun unique i j x y apart => ?_⟩
  · have counted := passes.counted fun closed => by
      rw [places_none]
      by_contra given
      exact continues ⟨given, closed⟩
    simpa only [arrayOf, Option.all_eq_true, decide_eq_true_eq] using counted
  · have filled := passes.filled
    have ended := passes.ended ends.2 fun none => ends.1 (places_none.mp none)
    rw [length_places] at filled ended
    exact Nat.le_antisymm ended filled
  · exact apart_of_allDifferent (passes.unique unique) apart

-- A pair of integers with limits on the number of items.
def pairOf (rest : Node) (least most : Option Nat) : ArrayShape Node :=
  ⟨rest, some [.scalar .integer, .scalar .integer], least, most, true⟩

def integers (items : List Int) : List Json := items.map fun n => .number (.int n)

def triple : Node := .ofShape (.array (pairOf .any (some 3) (some 4)))

def tripleValidator : Validator :=
  refined (tuple [number { integer := true }, number { integer := true }] (some unknown))
    [.minItems 3, .maxItems 4, .uniqueItems]

theorem triple_keeps_limits :
    ¬ EndsWithPlaces (pairOf .any (some 3) (some 4)) ∧
    expanded (fun _ => false) triple = .ok tripleValidator ∧
    check [] tripleValidator (.array (integers [2, 3, 5])) = .ok [] ∧
    3 ≤ (integers [2, 3, 5]).length ∧ (integers [2, 3, 5]).length ≤ 4 ∧
    (Json.number (.int 5) == Json.number (.int 2)) = false := by
  have continues : ¬ EndsWithPlaces (pairOf .any (some 3) (some 4)) := fun ends => Bool.noConfusion ends.2
  have compiled : expanded (fun _ => false) triple = .ok tripleValidator := by rfl
  have accepted : check [] tripleValidator (.array (integers [2, 3, 5])) = .ok [] := by rfl
  obtain ⟨limits, _, unique⟩ := array_limits_kept rfl compiled accepted
  obtain ⟨enough, few⟩ := limits continues
  exact ⟨continues, compiled, accepted, enough 3 rfl, few 4 rfl, unique rfl 2 0 _ _ (by decide) rfl rfl⟩

theorem ended_tuple_may_break_limits :
    (¬ ∀ (known : String → Bool) (node : Node) (a : ArrayShape Node) (v : Validator)
      (table : List (String × Validator)) (items : List Json), node.shape = .array a →
        expanded known node = .ok v → check table v (.array items) = .ok [] →
          ∀ least, a.minItems = some least → least ≤ items.length) ∧
    ¬ ∀ (known : String → Bool) (node : Node) (a : ArrayShape Node) (v : Validator)
      (table : List (String × Validator)) (items : List Json), node.shape = .array a →
        expanded known node = .ok v → check table v (.array items) = .ok [] →
          ∀ most, a.maxItems = some most → items.length ≤ most := by
  constructor
  · intro law
    have enough := law (fun _ => false) (.ofShape (.array (pairOf .never (some 3) none))) _ _ [] (integers [2, 3]) rfl rfl
      (by rfl) 3 rfl
    exact absurd enough (by decide)
  · intro law
    have few := law (fun _ => false) (.ofShape (.array (pairOf .never none (some 1)))) _ _ [] (integers [2, 3]) rfl rfl
      (by rfl) 1 rfl
    exact absurd few (by decide)

end Arrays

end Validator

end ApiContract
