import ApiContract.Proofs.Constructors
import ApiContract.Validator.OfSchema

namespace ApiContract.Validator

-- What a value has to be like to pass the validator of each kind of schema, and where a validator raises
-- no error. An error matters where a later alternative would have passed.

namespace Outcome

def Defined (outcome : Outcome) : Prop := ∃ issues, outcome = .ok issues

theorem defined_of_verdict {a b : Outcome} (same : verdict a = verdict b) (defined : Defined a) : Defined b := by
  obtain ⟨issues, rfl⟩ := defined
  cases b with
  | error e => cases same
  | ok others => exact ⟨others, rfl⟩

section Combined

variable {α : Type}

theorem require_defined (holds : Bool) (message : String) : Defined (require holds message) := by
  cases holds with
  | true => exact ⟨_, rfl⟩
  | false => exact ⟨_, rfl⟩

theorem expected_ne_pass {kind : String} {value : Json} : expected kind value ≠ .ok [] := by
  simp [expected, fail]

theorem both_defined {a b : Outcome} : Defined (both a b) ↔ Defined a ∧ Defined b := by
  constructor
  · rintro ⟨issues, ran⟩
    obtain ⟨first, made, next⟩ := bind_ok ran
    obtain ⟨second, found, _⟩ := map_ok next
    exact ⟨⟨first, made⟩, ⟨second, found⟩⟩
  · rintro ⟨⟨first, rfl⟩, ⟨second, rfl⟩⟩
    exact ⟨first ++ second, rfl⟩

theorem anyOf_of_mem {check : α → Outcome} {xs : List α} (each : ∀ x ∈ xs, Defined (check x)) {x : α}
    (inside : x ∈ xs) (passed : check x = .ok []) : anyOf check xs = .ok [] := by
  induction xs with
  | nil => cases inside
  | cons y rest ih =>
    obtain ⟨⟨issues, first⟩, later⟩ := List.forall_mem_cons.mp each
    show (check y).bind _ = _
    rw [first]
    cases issues with
    | nil => rfl
    | cons issue issues =>
      rcases List.mem_cons.mp inside with rfl | member
      · rw [passed] at first
        cases first
      · exact ih later member

-- Items are numbered by where they stand.
theorem indexed_pass (check : Nat → Json → Outcome) {items : List Json} :
    allOf (fun entry => within (.index entry.2) (check entry.2 entry.1)) items.zipIdx = .ok [] ↔
      ∀ (n : Nat) item, items[n]? = some item → check n item = .ok [] := by
  rw [allOf_pass]
  constructor
  · intro each n item found
    exact within_pass.mp (each (item, n) (List.mk_mem_zipIdx_iff_getElem?.mpr found))
  · rintro each ⟨item, n⟩ member
    exact within_pass.mpr (each n item (List.mk_mem_zipIdx_iff_getElem?.mp member))

end Combined

end Outcome

open Outcome (Defined)

variable {resolve : String → Check}

section Refinements

variable {refinements others : List Refinement} {v w : Validator} {value : Json}

theorem checkRefinements_pass :
    checkRefinements refinements value = .ok [] ↔ ∀ r ∈ refinements, refinementHolds value r = true := by
  unfold checkRefinements
  rw [Outcome.allOf_pass]
  exact forall₂_congr fun r _ => Outcome.require_pass

-- Limits that are checked only where they are declared.
theorem limits_hold {low high : Option Nat} {least most : Nat → Refinement} :
    (∀ r ∈ (low.map least).toList ++ (high.map most).toList, refinementHolds value r = true) ↔
      low.all (fun n => refinementHolds value (least n)) = true ∧
        high.all (fun n => refinementHolds value (most n)) = true := by
  cases low <;> cases high <;> simp

variable [Pattern.Engine]

theorem refined_pass : evaluate resolve (refined v refinements) value = .ok [] ↔
    evaluate resolve v value = .ok [] ∧ ∀ r ∈ refinements, refinementHolds value r = true := by
  rw [evaluate_refined, ← checkRefinements_pass]
  constructor
  · intro ran
    obtain ⟨issues, checked, next⟩ := bind_ok ran
    cases issues with
    | nil => exact ⟨checked, next⟩
    | cons issue issues => cases next
  · rintro ⟨checked, next⟩
    rw [checked]
    exact next

theorem refine_pass : evaluate resolve (refine refinements v) value = .ok [] ↔
    evaluate resolve v value = .ok [] ∧ ∀ r ∈ refinements, refinementHolds value r = true := by
  rw [← refined_pass, ← Outcome.verdict_pass, ← Outcome.verdict_pass, verdict_refine]

theorem refine_defined :
    Defined (evaluate resolve (refine refinements v) value) ↔ Defined (evaluate resolve v value) := by
  have plain : Defined (evaluate resolve (refined v refinements) value) ↔ Defined (evaluate resolve v value) := by
    rw [evaluate_refined]
    constructor
    · rintro ⟨issues, ran⟩
      obtain ⟨found, checked, _⟩ := bind_ok ran
      exact ⟨found, checked⟩
    · rintro ⟨issues, checked⟩
      rw [checked]
      cases issues with
      | nil => exact checkRefinements_ok value refinements
      | cons issue issues => exact ⟨_, rfl⟩
  have same := verdict_refine resolve value refinements v
  rw [← plain]
  exact ⟨Outcome.defined_of_verdict same, Outcome.defined_of_verdict same.symm⟩

end Refinements

section Alternatives

variable [Pattern.Engine] {vs : List Validator} {value : Json}

theorem intersectionOf_pass : evaluate resolve (intersectionOf vs) value = .ok [] ↔
    ∀ v ∈ vs, evaluate resolve v value = .ok [] := by
  rw [← Outcome.verdict_pass, verdict_intersectionOf, Outcome.verdict_pass, evaluate_intersection, Outcome.allOf_pass]

theorem unionOf_pass (passed : evaluate resolve (unionOf vs) value = .ok []) :
    ∃ v ∈ vs, evaluate resolve v value = .ok [] := by
  rw [← Outcome.verdict_pass, verdict_unionOf, Outcome.verdict_pass, evaluate_union] at passed
  exact Outcome.anyOf_pass passed

theorem unionOf_pass_of_mem (each : ∀ v ∈ vs, Defined (evaluate resolve v value)) {v : Validator} (inside : v ∈ vs)
    (passed : evaluate resolve v value = .ok []) : evaluate resolve (unionOf vs) value = .ok [] := by
  rw [← Outcome.verdict_pass, verdict_unionOf, Outcome.verdict_pass, evaluate_union]
  exact Outcome.anyOf_of_mem each inside passed

-- The check of a listed value raises no error.
theorem literal_defined (value listed : Json) :
    Defined (evaluate resolve (((Literal.ofJson? listed).map literal).getD unknown) value) := by
  cases Literal.ofJson? listed with
  | none => exact ⟨[], rfl⟩
  | some l => exact Outcome.require_defined _ _

theorem ofLiterals_pass {values : List Json} :
    evaluate resolve (ofLiterals values) value = .ok [] ↔
      ∃ listed ∈ values, evaluate resolve (((Literal.ofJson? listed).map literal).getD unknown) value = .ok [] := by
  constructor
  · intro passed
    obtain ⟨_, inside, holds⟩ := unionOf_pass passed
    obtain ⟨listed, given, rfl⟩ := List.mem_map.mp inside
    exact ⟨listed, given, holds⟩
  · rintro ⟨listed, given, holds⟩
    refine unionOf_pass_of_mem ?_ (List.mem_map_of_mem given) holds
    exact List.forall_mem_map.mpr fun other _ => literal_defined value other

end Alternatives

section Scalars

variable {value : Json}

theorem string_pass [Pattern.Engine] {rules : StringRules} : evaluate resolve (string rules) value = .ok [] ↔
    ∃ s, value = .string s ∧ rules.minLength.all (· ≤ s.length) = true ∧
      rules.maxLength.all (s.length ≤ ·) = true ∧ checkPattern s rules.pattern = .ok [] := by
  show checkString rules value = .ok [] ↔ _
  cases value with
  | string s =>
    constructor
    · intro passed
      obtain ⟨low, next⟩ := Outcome.both_pass.mp passed
      obtain ⟨high, matched⟩ := Outcome.both_pass.mp next
      exact ⟨s, rfl, Outcome.require_pass.mp low, Outcome.require_pass.mp high, matched⟩
    · rintro ⟨_, equal, low, high, matched⟩
      cases equal
      exact Outcome.both_pass.mpr ⟨Outcome.require_pass.mpr low,
        Outcome.both_pass.mpr ⟨Outcome.require_pass.mpr high, matched⟩⟩
  | _ => exact iff_of_false Outcome.expected_ne_pass (by simp)

theorem number_defined [Pattern.Engine] (rules : NumberRules) (value : Json) :
    Defined (evaluate resolve (number rules) value) := by
  show Defined (checkNumber rules value)
  cases value with
  | number n =>
    simp only [checkNumber]
    split
    · exact ⟨_, rfl⟩
    · refine Outcome.both_defined.mpr ⟨?_, ?_⟩
      · unfold checkBounds
        split
        · exact ⟨_, rfl⟩
        · exact ⟨_, rfl⟩
      · unfold checkMultiple
        split
        · exact Outcome.require_defined _ _
        · exact ⟨_, rfl⟩
  | _ => exact ⟨_, rfl⟩

structure NumberHolds (rules : NumberRules) (x : Double) : Prop where
  integral : rules.integer = true → x.isIntegral = true
  above : aboveBound x rules.min = none
  below : belowBound x rules.max = none
  multiple : ∀ step, rules.multipleOf = some step → x.isMultipleOf step = true

theorem violation_none {x : Double} {low high : Option Bound} :
    violation x low high = none ↔ aboveBound x low = none ∧ belowBound x high = none := by
  unfold violation
  rw [Option.or_eq_none_iff]

theorem number_pass [Pattern.Engine] {rules : NumberRules} : evaluate resolve (number rules) value = .ok [] ↔
    ∃ n, value = .number n ∧ NumberHolds rules n.toDouble := by
  show checkNumber rules value = .ok [] ↔ _
  cases value with
  | number n =>
    have bounds : checkBounds rules n.toDouble = .ok [] ↔ violation n.toDouble rules.min rules.max = none := by
      unfold checkBounds
      split <;> simp_all [Outcome.fail, Outcome.pass]
    have multiples : checkMultiple rules n.toDouble = .ok [] ↔
        ∀ step, rules.multipleOf = some step → n.toDouble.isMultipleOf step = true := by
      unfold checkMultiple
      split <;> simp_all [Outcome.require_pass, Outcome.pass]
    constructor
    · intro passed
      refine ⟨n, rfl, ?_⟩
      simp only [checkNumber] at passed
      split at passed
      · cases passed
      · rename_i integral
        obtain ⟨first, second⟩ := Outcome.both_pass.mp passed
        obtain ⟨above, below⟩ := violation_none.mp (bounds.mp first)
        refine ⟨fun asked => ?_, above, below, multiples.mp second⟩
        simpa [asked] using integral
    · rintro ⟨_, equal, holds⟩
      cases equal
      simp only [checkNumber]
      rw [if_neg]
      · refine Outcome.both_pass.mpr ⟨bounds.mpr (violation_none.mpr ⟨holds.above, holds.below⟩), ?_⟩
        exact multiples.mpr holds.multiple
      · intro broken
        obtain ⟨asked, fractional⟩ := Bool.and_eq_true_iff.mp broken
        rw [holds.integral asked] at fractional
        cases fractional
  | _ => exact iff_of_false Outcome.expected_ne_pass (by simp)

-- The bounds beside a divisor are checked apart from it, which makes no difference.
theorem ofNumber_pass [Pattern.Engine] {s : Scalar} : evaluate resolve (ofNumber s) value = .ok [] ↔
    ∃ n, value = .number n ∧
      NumberHolds ⟨decide (s.type = .integer), lowerBound s, upperBound s, s.multipleOf⟩ n.toDouble := by
  unfold ofNumber
  dsimp only
  split
  · rw [refine_pass, number_pass]
    constructor
    · rintro ⟨⟨n, rfl, holds⟩, range⟩
      have free : violation n.toDouble (lowerBound s) (upperBound s) = none := by
        simpa [refinementHolds] using range _ (List.mem_singleton_self _)
      obtain ⟨above, below⟩ := violation_none.mp free
      exact ⟨n, rfl, holds.integral, above, below, holds.multiple⟩
    · rintro ⟨n, rfl, holds⟩
      refine ⟨⟨n, rfl, holds.integral, rfl, rfl, holds.multiple⟩, List.forall_mem_singleton.mpr ?_⟩
      simpa [refinementHolds] using violation_none.mpr ⟨holds.above, holds.below⟩
  · exact number_pass

theorem ofNumber_defined [Pattern.Engine] (s : Scalar) (value : Json) :
    Defined (evaluate resolve (ofNumber s) value) := by
  unfold ofNumber
  dsimp only
  split
  · exact refine_defined.mpr (number_defined _ value)
  · exact number_defined _ value

theorem aboveBound_none {x : Double} {s : Scalar} : aboveBound x (lowerBound s) = none ↔
    (∀ low, s.minimum = some low → low.value ≤ x.value) ∧
      ∀ low, s.exclusiveMinimum = some low → low.value < x.value := by
  unfold lowerBound
  cases s.minimum <;> cases s.exclusiveMinimum <;>
    simp only [tighter, aboveBound, Bound.inclusive, Bound.strict] <;> grind

theorem belowBound_none {x : Double} {s : Scalar} : belowBound x (upperBound s) = none ↔
    (∀ high, s.maximum = some high → x.value ≤ high.value) ∧
      ∀ high, s.exclusiveMaximum = some high → x.value < high.value := by
  unfold upperBound
  cases s.maximum <;> cases s.exclusiveMaximum <;>
    simp only [tighter, belowBound, Bound.inclusive, Bound.strict] <;> grind

end Scalars

section Arrays

variable {value : Json}

theorem itemCount_pass {count : Nat} {low high : Option Nat} : itemCount count low high = .ok [] ↔
    low.all (· ≤ count) = true ∧ high.all (count ≤ ·) = true := by
  unfold itemCount
  rw [Outcome.both_pass, Outcome.require_pass, Outcome.require_pass]

theorem unique_holds {unique : Bool} {items : List Json} :
    (∀ r ∈ (if unique then [Refinement.uniqueItems] else []), refinementHolds (.array items) r = true) ↔
      (unique = true → allDifferent items = true) := by
  cases unique <;> simp [refinementHolds]

variable [Pattern.Engine]

theorem array_pass {v : Validator} {low high : Option Nat} :
    evaluate resolve (array v low high) value = .ok [] ↔ ∃ items, value = .array items ∧
      (low.all (· ≤ items.length) = true ∧ high.all (items.length ≤ ·) = true) ∧
      ∀ (n : Nat) item, items[n]? = some item → evaluate resolve v item = .ok [] := by
  rw [evaluate_array]
  cases value with
  | array items =>
    show Outcome.both _ _ = _ ↔ _
    rw [Outcome.both_pass, itemCount_pass, Outcome.indexed_pass fun _ => evaluate resolve v]
    constructor
    · intro passes
      exact ⟨items, rfl, passes⟩
    · rintro ⟨_, equal, passes⟩
      cases equal
      exact passes
  | _ => exact iff_of_false Outcome.expected_ne_pass (by simp)

theorem placeCheck_pass {places : List Validator} {rest : Option Validator} {n : Nat} :
    placeCheck (places.map (evaluate resolve)) (rest.map (evaluate resolve)) n value = .ok [] ↔
      ∀ v, (places[n]?).or rest = some v → evaluate resolve v value = .ok [] := by
  unfold placeCheck
  rw [List.getElem?_map, ← Option.map_or]
  cases (places[n]?).or rest with
  | none => exact ⟨nofun, fun _ => rfl⟩
  | some v => exact ⟨fun passed w equal => Option.some.inj equal ▸ passed, fun each => each v rfl⟩

theorem tuple_pass {places : List Validator} {rest : Option Validator} :
    evaluate resolve (tuple places rest) value = .ok [] ↔ ∃ items, value = .array items ∧
      (places.length ≤ items.length ∧ (rest = none → items.length ≤ places.length)) ∧
      ∀ (n : Nat) item, items[n]? = some item →
        ∀ v, (places[n]?).or rest = some v → evaluate resolve v item = .ok [] := by
  rw [evaluate_tuple]
  cases value with
  | array items =>
    have counted : itemCount items.length (some (places.map (evaluate resolve)).length)
        (if (rest.map (evaluate resolve)).isNone then some (places.map (evaluate resolve)).length else none) = .ok [] ↔
          places.length ≤ items.length ∧ (rest = none → items.length ≤ places.length) := by
      rw [itemCount_pass]
      cases rest <;> simp
    show Outcome.both _ _ = _ ↔ _
    rw [Outcome.both_pass, counted, Outcome.indexed_pass (placeCheck _ _)]
    simp only [placeCheck_pass]
    constructor
    · intro passes
      exact ⟨items, rfl, passes⟩
    · rintro ⟨_, equal, passes⟩
      cases equal
      exact passes
  | _ => exact iff_of_false Outcome.expected_ne_pass (by simp)

-- What is asked of the item in one place.
def placeAt (a : ArrayShape Validator) (n : Nat) : Validator := ((a.places.getD [])[n]?).getD a.items

structure ArrayPasses (resolve : String → Check) (closed : Bool) (a : ArrayShape Validator)
    (items : List Json) : Prop where
  each : ∀ (n : Nat) item, items[n]? = some item → evaluate resolve (placeAt a n) item = .ok []
  filled : (a.places.getD []).length ≤ items.length
  ended : closed = true → a.places ≠ none → items.length ≤ (a.places.getD []).length
  -- A tuple that ends with its places has no other limits.
  counted : (closed = true → a.places = none) →
    a.minItems.all (· ≤ items.length) = true ∧ a.maxItems.all (items.length ≤ ·) = true
  unique : a.uniqueItems = true → allDifferent items = true

theorem ofArray_pass {closed : Bool} {a : ArrayShape Validator} :
    evaluate resolve (ofArray closed a) value = .ok [] ↔
      ∃ items, value = .array items ∧ ArrayPasses resolve closed a items := by
  obtain ⟨rest, places, low, high, unique⟩ := a
  cases places with
  | none =>
    show evaluate resolve (refine _ (array _ _ _)) value = _ ↔ _
    rw [refine_pass, array_pass]
    constructor
    · rintro ⟨⟨items, rfl, counted, each⟩, holds⟩
      exact ⟨items, rfl, each, Nat.zero_le _, fun _ given => absurd rfl given, fun _ => counted, unique_holds.mp holds⟩
    · rintro ⟨items, rfl, passes⟩
      exact ⟨⟨items, rfl, passes.counted fun _ => rfl, passes.each⟩, unique_holds.mpr passes.unique⟩
  | some places =>
    have inPlace {n : Nat} (inside : n < places.length) : (places[n]?).getD rest = places[n] := by
      rw [List.getElem?_eq_getElem inside, Option.getD_some]
    cases closed with
    | true =>
      show evaluate resolve (refine _ (tuple places none)) value = _ ↔ _
      rw [refine_pass, tuple_pass]
      constructor
      · rintro ⟨⟨items, rfl, ⟨filled, ended⟩, each⟩, holds⟩
        refine ⟨items, rfl, ?_, filled, fun _ _ => ended rfl, fun free => (nomatch free rfl), unique_holds.mp holds⟩
        intro n item found
        have inside : n < places.length :=
          Nat.lt_of_lt_of_le (List.getElem?_eq_some_iff.mp found).1 (ended rfl)
        refine each n item found (placeAt _ n) ?_
        rw [placeAt, Option.getD_some, inPlace inside, List.getElem?_eq_getElem inside, Option.or_none]
      · rintro ⟨items, rfl, passes⟩
        refine ⟨⟨items, rfl, ⟨passes.filled, fun _ => passes.ended rfl nofun⟩, ?_⟩, unique_holds.mpr passes.unique⟩
        intro n item found v placed
        rw [Option.or_none] at placed
        have checked := passes.each n item found
        rwa [placeAt, Option.getD_some, placed, Option.getD_some] at checked
    | false =>
      show evaluate resolve (refine _ (tuple places (some rest))) value = _ ↔ _
      rw [refine_pass, tuple_pass]
      have last (n : Nat) : (places[n]?).or (some rest) = some (placeAt ⟨rest, some places, low, high, unique⟩ n) := by
        rw [placeAt, Option.getD_some]
        cases places[n]? <;> rfl
      constructor
      · rintro ⟨⟨items, rfl, ⟨filled, _⟩, each⟩, holds⟩
        obtain ⟨limits, apart⟩ := List.forall_mem_append.mp holds
        refine ⟨items, rfl, ?_, filled, nofun, fun _ => limits_hold.mp limits, unique_holds.mp apart⟩
        exact fun n item found => each n item found _ (last n)
      · rintro ⟨items, rfl, passes⟩
        refine ⟨⟨items, rfl, ⟨passes.filled, nofun⟩, ?_⟩, List.forall_mem_append.mpr
          ⟨limits_hold.mpr (passes.counted nofun), unique_holds.mpr passes.unique⟩⟩
        intro n item found v placed
        rw [last, Option.some.injEq] at placed
        exact placed ▸ passes.each n item found

theorem ofArray_defined {closed : Bool} {a : ArrayShape Validator}
    (other : ∀ items, value ≠ .array items) : Defined (evaluate resolve (ofArray closed a) value) := by
  have array (v : Validator) (low high : Option Nat) : Defined (evaluate resolve (array v low high) value) := by
    rw [evaluate_array]
    cases value with
    | array items => exact absurd rfl (other items)
    | _ => exact ⟨_, rfl⟩
  have tuple (places : List Validator) (rest : Option Validator) :
      Defined (evaluate resolve (tuple places rest) value) := by
    rw [evaluate_tuple]
    cases value with
    | array items => exact absurd rfl (other items)
    | _ => exact ⟨_, rfl⟩
  unfold ofArray
  dsimp only
  split
  · exact refine_defined.mpr (array _ _ _)
  · split
    · exact refine_defined.mpr (tuple _ _)
    · exact refine_defined.mpr (tuple _ _)

end Arrays

section Objects

variable [Pattern.Engine] {value : Json}

structure ObjectPasses (resolve : String → Check) (fields : List (Field Validator))
    (unknownKeys : UnknownKeys Validator) (entries : List (String × Json)) : Prop where
  required : ∀ field ∈ fields, field.optional = false → (entries.lookup field.name).isSome = true
  present : ∀ field ∈ fields, ∀ x, entries.lookup field.name = some x →
    evaluate resolve field.validator x = .ok []
  closed : unknownKeys = .strict → ∀ key x, (key, x) ∈ entries → key ∈ fields.map Field.name
  others : ∀ rest, unknownKeys = .catchall rest → ∀ key x, (key, x) ∈ entries →
    key ∉ fields.map Field.name → evaluate resolve rest x = .ok []

theorem checkField_pass {field : Field Validator} {entries : List (String × Json)} :
    checkField entries (field.map (evaluate resolve)) = .ok [] ↔
      (field.optional = false → (entries.lookup field.name).isSome = true) ∧
        ∀ x, entries.lookup field.name = some x → evaluate resolve field.validator x = .ok [] := by
  obtain ⟨name, validator, optional⟩ := field
  unfold checkField
  dsimp only [Field.map]
  cases found : entries.lookup name with
  | none =>
    cases optional with
    | false => exact ⟨nofun, fun ⟨needed, _⟩ => nomatch needed rfl⟩
    | true => exact ⟨fun _ => ⟨nofun, nofun⟩, fun _ => rfl⟩
  | some x =>
    show Outcome.within _ _ = _ ↔ _
    rw [Outcome.within_pass]
    exact ⟨fun passed => ⟨fun _ => rfl, fun y equal => Option.some.inj equal ▸ passed⟩, fun ⟨_, each⟩ => each x rfl⟩

-- The entries that no field declares.
theorem mem_extra {fields : List (Field Validator)} {entries : List (String × Json)} {entry : String × Json} :
    (entry ∈ entries.filter fun entry =>
      !((fields.map (Field.map (evaluate resolve))).any fun field => field.name == entry.1)) ↔
      entry ∈ entries ∧ entry.1 ∉ fields.map Field.name := by
  rw [List.mem_filter]
  refine and_congr_right fun _ => ?_
  rw [List.any_map, Bool.not_eq_true', List.any_eq_false, List.mem_map]
  simp only [Function.comp_apply, beq_iff_eq, Field.map, not_exists, not_and]

theorem object_pass {fields : List (Field Validator)} {unknownKeys : UnknownKeys Validator} :
    evaluate resolve (object fields unknownKeys) value = .ok [] ↔
      ∃ entries, value = .object entries ∧ ObjectPasses resolve fields unknownKeys entries := by
  rw [evaluate_object]
  cases value with
  | object entries =>
    show Outcome.both _ _ = _ ↔ _
    rw [Outcome.both_pass, Outcome.allOf_map, Outcome.allOf_pass]
    constructor
    · rintro ⟨declared, extra⟩
      refine ⟨entries, rfl, fun field member => (checkField_pass.mp (declared field member)).1,
        fun field member => (checkField_pass.mp (declared field member)).2, ?_, ?_⟩
      · rintro rfl key x entry
        by_contra free
        have none := List.isEmpty_iff.mp (Outcome.require_pass.mp extra)
        cases none ▸ mem_extra.mpr ⟨entry, free⟩
      · rintro rest rfl key x entry free
        exact Outcome.within_pass.mp (Outcome.allOf_pass.mp extra (key, x) (mem_extra.mpr ⟨entry, free⟩))
    · rintro ⟨_, equal, passes⟩
      cases equal
      refine ⟨fun field member => checkField_pass.mpr ⟨passes.required field member, passes.present field member⟩, ?_⟩
      cases unknownKeys with
      | strict =>
        refine Outcome.require_pass.mpr (List.isEmpty_iff.mpr (List.eq_nil_iff_forall_not_mem.mpr ?_))
        rintro ⟨key, x⟩ member
        obtain ⟨entry, free⟩ := mem_extra.mp member
        exact free (passes.closed rfl key x entry)
      | catchall rest =>
        refine Outcome.allOf_pass.mpr ?_
        rintro ⟨key, x⟩ member
        obtain ⟨entry, free⟩ := mem_extra.mp member
        exact Outcome.within_pass.mpr (passes.others rest rfl key x entry free)
  | _ => exact iff_of_false Outcome.expected_ne_pass (by simp)

def fieldsOf (o : ObjectShape Validator) : List (Field Validator) :=
  o.properties.map fun property => ⟨property.1, property.2, !o.isRequired property.1⟩

theorem ofObject_pass {closed : Bool} {o : ObjectShape Validator} :
    evaluate resolve (ofObject closed o) value = .ok [] ↔ ∃ entries, value = .object entries ∧
      ObjectPasses resolve (fieldsOf o) (if closed then .strict else .catchall o.additional) entries ∧
      o.minProperties.all (· ≤ entries.length) = true ∧ o.maxProperties.all (entries.length ≤ ·) = true := by
  unfold ofObject
  dsimp only
  rw [refine_pass, object_pass]
  constructor
  · rintro ⟨⟨entries, rfl, passes⟩, holds⟩
    exact ⟨entries, rfl, passes, limits_hold.mp holds⟩
  · rintro ⟨entries, rfl, passes, holds⟩
    exact ⟨⟨entries, rfl, passes⟩, limits_hold.mpr holds⟩

theorem ofObject_defined {closed : Bool} {o : ObjectShape Validator} (other : ∀ entries, value ≠ .object entries) :
    Defined (evaluate resolve (ofObject closed o) value) := by
  refine refine_defined.mpr ?_
  rw [evaluate_object]
  cases value with
  | object entries => exact absurd rfl (other entries)
  | _ => exact ⟨_, rfl⟩

end Objects

end ApiContract.Validator
