import ApiContract.Proofs.KeywordReadings

namespace ApiContract.Keywords

-- Keywords that ask for at least as much as others do: every value that passes them passes the others.

variable {k m : Keywords Schema} {known : String → Bool}

section Tightening

variable {α : Type}

-- Where the base sets a limit, the top sets one that is at least as strict.
def Tightens (stricter : α → α → Prop) (base top : Option α) : Prop :=
  ∀ a, base = some a → ∃ b, top = some b ∧ stricter a b

theorem tightens_none {stricter : α → α → Prop} {top : Option α} : Tightens stricter none top := by
  intro a equal
  cases equal

theorem tightens_all {stricter : α → α → Prop} {holds : α → Bool} {base top : Option α}
    (tightens : Tightens stricter base top) (weaker : ∀ a b, stricter a b → holds b = true → holds a = true)
    (passed : top.all holds = true) : base.all holds = true := by
  cases base with
  | none => rfl
  | some a =>
    obtain ⟨b, rfl, order⟩ := tightens a rfl
    exact weaker a b order passed

theorem tightens_least {base top : Option Nat} {n : Nat} (tightens : Tightens (· ≤ ·) base top)
    (passed : top.all (· ≤ n) = true) : base.all (· ≤ n) = true := by
  refine tightens_all tightens (fun a b order within => ?_) passed
  exact decide_eq_true (Nat.le_trans order (of_decide_eq_true within))

theorem tightens_most {base top : Option Nat} {n : Nat} (tightens : Tightens (· ≥ ·) base top)
    (passed : top.all (n ≤ ·) = true) : base.all (n ≤ ·) = true := by
  refine tightens_all tightens (fun a b order within => ?_) passed
  exact decide_eq_true (Nat.le_trans (of_decide_eq_true within) order)

-- A flag that makes the bound exclusive is still there; an exclusive bound of its own is as strict.
def MarkTightens (stricter : Double → Double → Prop) : Option ExclusiveBound → Option ExclusiveBound → Prop
  | some (.value a), top => ∃ b, top = some (.value b) ∧ stricter a b
  | some (.flag true), top => top = some (.flag true)
  | _, _ => True

structure StringTightens (base top : Limits) : Prop where
  binary : base.format = some "binary" → top.format = some "binary"
  minLength : Tightens (· ≤ ·) base.minLength top.minLength
  maxLength : Tightens (· ≥ ·) base.maxLength top.maxLength
  pattern : Tightens (· = ·) base.pattern top.pattern

structure NumberTightens (base top : Limits) : Prop where
  minimum : Tightens (·.value ≤ ·.value) base.minimum top.minimum
  maximum : Tightens (·.value ≥ ·.value) base.maximum top.maximum
  exclusiveMinimum : MarkTightens (·.value ≤ ·.value) base.exclusiveMinimum top.exclusiveMinimum
  exclusiveMaximum : MarkTightens (·.value ≥ ·.value) base.exclusiveMaximum top.exclusiveMaximum
  multipleOf : Tightens (· = ·) base.multipleOf top.multipleOf

structure ArrayTightens (base top : Keywords Schema) : Prop where
  items : base.items.getD (.bool true) = .bool true ∨ top.items = base.items
  places : top.places = base.places ∨ base.places = none ∧ base.items.getD (.bool true) = .bool true
  -- A tuple that ends with its places is not counted.
  counted : top.places ≠ none → top.items = some (.bool false) →
    base.items = some (.bool false) ∨ base.limits.minItems = none ∧ base.limits.maxItems = none
  minItems : Tightens (· ≤ ·) base.limits.minItems top.limits.minItems
  maxItems : Tightens (· ≥ ·) base.limits.maxItems top.limits.maxItems
  unique : base.limits.uniqueItems = some true → top.limits.uniqueItems = some true

structure ObjectTightens (base top : Keywords Schema) : Prop where
  properties : base.properties.getD [] ⊆ top.properties.getD []
  required : base.required.getD [] ⊆ top.required.getD []
  -- A property that the top declares is no longer one of the others.
  others : base.additional.getD (.bool true) = .bool true ∨ top.additional = base.additional ∧
    Keyed.keys (top.properties.getD []) ⊆ Keyed.keys (base.properties.getD [])
  minProperties : Tightens (· ≤ ·) base.limits.minProperties top.limits.minProperties
  maxProperties : Tightens (· ≥ ·) base.limits.maxProperties top.limits.maxProperties

def KindTightens (base top : Keywords Schema) : Kind → Prop
  | .object => ObjectTightens base top
  | .array => ArrayTightens base top
  | .scalar .string => StringTightens base.limits top.limits
  | .scalar .number => NumberTightens base.limits top.limits
  | .scalar .integer => NumberTightens base.limits top.limits
  | .scalar .boolean => True
  | .scalar .null => True

end Tightening

section Scalars

open Validator (evaluate)

variable {resolve : String → Validator.Check} {value : Json}

theorem exclusive_tightens {stricter : Double → Double → Prop} {inclusive strict : Double → Prop}
    (weaker : ∀ a, strict a → inclusive a) (below : ∀ a b, stricter a b → inclusive b → inclusive a)
    (under : ∀ a b, stricter a b → strict b → strict a) {base top : Option Double}
    {mark topMark : Option ExclusiveBound} (bound : Tightens stricter base top)
    (marked : MarkTightens stricter mark topMark)
    (holds : (∀ a, (exclusive top topMark).1 = some a → inclusive a) ∧
      ∀ a, (exclusive top topMark).2 = some a → strict a) :
    (∀ a, (exclusive base mark).1 = some a → inclusive a) ∧ ∀ a, (exclusive base mark).2 = some a → strict a := by
  obtain ⟨first, second⟩ := holds
  -- Whatever the top does with its bound, the bound holds at least as it is.
  have kept (a : Double) (found : base = some a) : inclusive a := by
    obtain ⟨b, rfl, order⟩ := bound a found
    refine below a b order ?_
    match topMark with
    | none => exact first b rfl
    | some (.flag false) => exact first b rfl
    | some (.flag true) => exact weaker b (second b rfl)
    | some (.value e) => exact first b rfl
  match mark with
  | none => exact ⟨kept, nofun⟩
  | some (.flag false) => exact ⟨kept, nofun⟩
  | some (.flag true) =>
    cases (marked : topMark = some (.flag true))
    refine ⟨nofun, fun a found => ?_⟩
    obtain ⟨b, rfl, order⟩ := bound a found
    exact under a b order (second b rfl)
  | some (.value e) =>
    obtain ⟨e', rfl, order⟩ := (marked : ∃ b, topMark = some (.value b) ∧ stricter e b)
    refine ⟨kept, fun a found => ?_⟩
    cases found
    exact under e e' order (second e' rfl)

variable [Pattern.Engine]

theorem number_tightens (tightens : NumberTightens k.limits m.limits) {own other : ScalarType}
    (mine : Kind.Numeric (.scalar own)) (given : Kind.Numeric (.scalar other)) (integral : own = .integer → other = .integer)
    (passed : evaluate resolve (m.typedValidator known (.scalar other)) value = .ok []) :
    evaluate resolve (k.typedValidator known (.scalar own)) value = .ok [] := by
  obtain ⟨n, rfl, holds⟩ := (typed_number_pass given).mp passed
  refine (typed_number_pass mine).mpr ⟨n, rfl, ?_, ?_, ?_, ?_⟩
  · intro asked
    exact holds.integral (decide_eq_true (integral (of_decide_eq_true asked)))
  · refine Validator.aboveBound_none.mpr (exclusive_tightens ?_ ?_ ?_ tightens.minimum tightens.exclusiveMinimum
      (Validator.aboveBound_none.mp holds.above))
    · grind
    · grind
    · grind
  · refine Validator.belowBound_none.mpr (exclusive_tightens ?_ ?_ ?_ tightens.maximum tightens.exclusiveMaximum
      (Validator.belowBound_none.mp holds.below))
    · grind
    · grind
    · grind
  · intro step declared
    obtain ⟨_, same, rfl⟩ := tightens.multipleOf step declared
    exact holds.multiple step same

theorem string_tightens (tightens : StringTightens k.limits m.limits)
    (passed : evaluate resolve (m.typedValidator known (.scalar .string)) value = .ok []) :
    evaluate resolve (k.typedValidator known (.scalar .string)) value = .ok [] := by
  obtain ⟨text, s, rfl, low, high, matched⟩ := typed_string_pass.mp passed
  refine typed_string_pass.mpr ⟨fun binary => text (tightens.binary binary), s, rfl,
    tightens_least tightens.minLength low, tightens_most tightens.maxLength high, ?_⟩
  cases declared : k.limits.pattern with
  | none => rfl
  | some pattern =>
    obtain ⟨_, same, rfl⟩ := tightens.pattern pattern declared
    rwa [same] at matched

end Scalars

section Containers

open Validator (evaluate)

variable {resolve : String → Validator.Check} {value : Json}

section Arrays

theorem array_compiles (tightens : ArrayTightens k m) (compile : ∀ child ∈ m.arrayShape.children, child.Compiles known) :
    ∀ child ∈ k.arrayShape.children, child.Compiles known := by
  obtain ⟨inPlaces, inItems⟩ := List.forall_mem_append.mp compile
  refine List.forall_mem_append.mpr ⟨?_, List.forall_mem_singleton.mpr ?_⟩
  · rcases tightens.places with same | ⟨absent, _⟩
    · exact same ▸ inPlaces
    · rw [absent]
      exact List.forall_mem_nil _
  · rcases tightens.items with free | same
    · rw [free]
      exact compiles_true
    · rw [← same]
      exact inItems _ (List.mem_singleton_self _)

theorem place_tightens [Pattern.Engine] (tightens : ArrayTightens k m) (n : Nat)
    (passed : evaluate resolve (Validator.placeAt (m.arrayOf known) n) value = .ok []) :
    evaluate resolve (Validator.placeAt (k.arrayOf known) n) value = .ok [] := by
  unfold Validator.placeAt arrayOf at passed ⊢
  dsimp only at passed ⊢
  rcases tightens.places with same | ⟨absent, free⟩
  · rw [same] at passed
    cases placed : ((k.places.map fun places => places.map (Schema.validator known)).getD [])[n]? with
    | some v =>
      rw [placed] at passed
      exact passed
    | none =>
      rcases tightens.items with free | sameItems
      · rw [free, validator_true]
        rfl
      · rw [placed, sameItems] at passed
        exact passed
  · rw [absent, free, validator_true]
    rfl

-- Where the base ends with its places, the top ends there as well.
theorem closed_tightens (tightens : ArrayTightens k m) (closed : (k.items.getD (.bool true)).node.isFalse = true) :
    m.items = k.items ∧ m.places = k.places := by
  rcases tightens.items with free | sameItems
  · exact absurd free (not_free closed)
  · rcases tightens.places with same | ⟨_, free⟩
    · exact ⟨sameItems, same⟩
    · exact absurd free (not_free closed)

theorem count_tightens [Pattern.Engine] (tightens : ArrayTightens k m)
    (compile : (m.items.getD (.bool true)).Compiles known) {items : List Json}
    (passes : Validator.ArrayPasses resolve (m.items.getD (.bool true)).node.isFalse (m.arrayOf known) items)
    (counted : (k.items.getD (.bool true)).node.isFalse = true → k.places = none) :
    k.limits.minItems.all (· ≤ items.length) = true ∧ k.limits.maxItems.all (items.length ≤ ·) = true := by
  by_cases counts : (m.items.getD (.bool true)).node.isFalse = true → m.places = none
  · obtain ⟨low, high⟩ := passes.counted fun closed => congrArg (Option.map _) (counts closed)
    exact ⟨tightens_least tightens.minItems low, tightens_most tightens.maxItems high⟩
  · -- The top ends with its places and so goes without its limits.
    obtain ⟨closed, placed⟩ := Classical.not_imp.mp counts
    have ended : m.items = some (.bool false) := by
      have equal := eq_false_of_isFalse compile closed
      cases found : m.items with
      | none => rw [found] at equal; cases equal
      | some schema => rw [found] at equal; exact congrArg some equal
    rcases tightens.counted placed ended with alike | ⟨noLow, noHigh⟩
    · rw [ended, ← alike] at closed
      obtain ⟨_, same⟩ := closed_tightens tightens closed
      exact absurd (same.trans (counted closed)) placed
    · rw [noLow, noHigh]
      exact ⟨rfl, rfl⟩

theorem array_tightens [Pattern.Engine] (tightens : ArrayTightens k m)
    (compile : ∀ child ∈ m.arrayShape.children, child.Compiles known)
    (passed : evaluate resolve (m.typedValidator known .array) value = .ok []) :
    evaluate resolve (k.typedValidator known .array) value = .ok [] := by
  obtain ⟨items, rfl, passes⟩ := typed_array_pass.mp passed
  have last : (m.items.getD (.bool true)).Compiles known :=
    compile _ (List.mem_append_right _ (List.mem_singleton_self _))
  refine typed_array_pass.mpr ⟨items, rfl, ?_, ?_, ?_, ?_, ?_⟩
  · exact fun n item found => place_tightens tightens n (passes.each n item found)
  · rcases tightens.places with same | ⟨absent, _⟩
    · have filled := passes.filled
      unfold arrayOf at filled ⊢
      rwa [same] at filled
    · unfold arrayOf
      rw [absent]
      exact Nat.zero_le _
  · intro closed placed
    obtain ⟨sameItems, same⟩ := closed_tightens tightens closed
    have ended := passes.ended (sameItems ▸ closed)
    unfold arrayOf at ended placed ⊢
    rw [same] at ended
    exact ended placed
  · intro counted
    exact count_tightens tightens last passes fun closed => Option.map_eq_none_iff.mp (counted closed)
  · intro unique
    have declared : k.limits.uniqueItems = some true := by simpa [arrayOf, Option.getD_eq_iff] using unique
    refine passes.unique ?_
    simp [arrayOf, tightens.unique declared]

end Arrays

section Objects

theorem object_compiles (tightens : ObjectTightens k m)
    (compile : ∀ child ∈ m.objectShape.children, child.Compiles known) :
    ∀ child ∈ k.objectShape.children, child.Compiles known := by
  obtain ⟨declared, others⟩ := List.forall_mem_append.mp compile
  refine List.forall_mem_append.mpr ⟨List.forall_mem_map.mpr ?_, List.forall_mem_singleton.mpr ?_⟩
  · intro property inside
    exact declared _ (List.mem_map_of_mem (tightens.properties inside))
  · rcases tightens.others with free | ⟨same, _⟩
    · rw [free]
      exact compiles_true
    · rw [← same]
      exact others _ (List.mem_singleton_self _)

variable [Pattern.Engine]

theorem fields_tighten (tightens : ObjectTightens k m) {entries : List (String × Json)}
    (passes : Validator.ObjectPasses resolve (Validator.fieldsOf (m.objectOf known))
      (if (m.additional.getD (.bool true)).node.isFalse then .strict
        else .catchall ((m.additional.getD (.bool true)).validator known)) entries) :
    Validator.ObjectPasses resolve (Validator.fieldsOf (k.objectOf known))
      (if (k.additional.getD (.bool true)).node.isFalse then .strict
        else .catchall ((k.additional.getD (.bool true)).validator known)) entries := by
  have declared (property : String × Schema) (inside : property ∈ k.properties.getD []) :
      ⟨property.1, property.2.validator known, !(m.required.getD []).contains property.1⟩ ∈
        Validator.fieldsOf (m.objectOf known) := mem_fields.mpr ⟨property, tightens.properties inside, rfl⟩
  refine ⟨?_, ?_, ?_, ?_⟩
  · intro field member needed
    obtain ⟨property, inside, rfl⟩ := mem_fields.mp member
    have found := passes.required _ (declared property inside)
    have listed : property.1 ∈ k.required.getD [] := by simpa using needed
    exact found (by simpa using tightens.required listed)
  · intro field member x found
    obtain ⟨property, inside, rfl⟩ := mem_fields.mp member
    have checked := passes.present _ (declared property inside)
    exact checked x found
  · intro strict key x entry
    have closed : (k.additional.getD (.bool true)).node.isFalse = true := by
      by_contra opened
      rw [if_neg opened] at strict
      cases strict
    rcases tightens.others with free | ⟨same, names⟩
    · exact absurd free (not_free closed)
    · rw [if_pos (same ▸ closed)] at passes
      have declared := passes.closed rfl key x entry
      rw [fieldNames] at declared ⊢
      exact names declared
  · intro rest others key x entry undeclared
    have opened : ¬ (k.additional.getD (.bool true)).node.isFalse = true := by
      intro closed
      rw [if_pos closed] at others
      cases others
    rw [if_neg opened, UnknownKeys.catchall.injEq] at others
    rcases tightens.others with free | ⟨same, names⟩
    · rw [← others, free, validator_true]
      rfl
    · rw [if_neg (same ▸ opened)] at passes
      refine passes.others rest ?_ key x entry fun declared => undeclared ?_
      · rw [← others, same]
      · rw [fieldNames] at declared ⊢
        exact names declared

theorem object_tightens (tightens : ObjectTightens k m)
    (passed : evaluate resolve (m.typedValidator known .object) value = .ok []) :
    evaluate resolve (k.typedValidator known .object) value = .ok [] := by
  obtain ⟨entries, rfl, passes, low, high⟩ := typed_object_pass.mp passed
  exact typed_object_pass.mpr ⟨entries, rfl, fields_tighten tightens passes,
    tightens_least tightens.minProperties low, tightens_most tightens.maxProperties high⟩

end Objects

end Containers

section Keeping

open Validator (evaluate)

variable {resolve : String → Validator.Check} {value : Json}

theorem kind_tightens [Pattern.Engine] {kind wider : Kind} (narrows : Kind.Narrows kind wider)
    (tightens : KindTightens k m kind)
    (compile : ∀ child ∈ (m.shapeOf (some kind)).children, child.Compiles known)
    (passed : evaluate resolve (m.typedValidator known kind) value = .ok []) :
    evaluate resolve (k.typedValidator known wider) value = .ok [] := by
  cases narrows with
  | integer => exact number_tightens tightens .number .integer nofun passed
  | same =>
    cases kind with
    | object => exact object_tightens tightens passed
    | array => exact array_tightens tightens compile passed
    | scalar type =>
      cases type with
      | string => exact string_tightens tightens passed
      | number => exact number_tightens tightens .number .number id passed
      | integer => exact number_tightens tightens .integer .integer id passed
      | boolean => exact passed
      | null => exact passed

-- The top, which has no composition, asks at least for what the base asks for: it is read in the same way,
-- or lists some of the same values, or has some of the same types with limits that are as strict.
inductive Keeps (base top : Keywords Schema) : Prop where
  | alike (kinds : top.kinds = base.kinds) (shapes : ∀ kind ∈ base.kinds, top.shapeAs kind = base.shapeAs kind)
  | listed {values others : List Json} (own : base.literals? = some others) (listed : top.literals? = some values)
      (among : values ⊆ others)
  | typed (own : base.literals? = none) (unlisted : top.literals? = none) (named : none ∉ base.kinds)
      (narrowed : ∀ kind ∈ top.kinds, ∃ a b, kind = some a ∧ some b ∈ base.kinds ∧ Kind.Narrows a b)
      (inner : ∀ kind ∈ [Kind.object, .array], some kind ∈ base.kinds → some kind ∈ top.kinds)
      (tightens : ∀ kind, some kind ∈ top.kinds → KindTightens base top kind)

theorem keeps_compiles (keeps : Keeps k m) (own : k.Plain) (top : m.Plain) (supported : k.unsupported = [])
    (compiles : (Schema.object m).Compiles known) : (Schema.object k).Compiles known := by
  refine (plain_compiles own).mpr ⟨supported, fun kind given => ?_⟩
  obtain ⟨_, compile⟩ := (plain_compiles top).mp compiles
  cases keeps with
  | alike kinds shapes =>
    rw [← shapes kind given]
    exact compile kind (kinds ▸ given)
  | listed listed _ _ =>
    rw [shapeAs_listed listed]
    exact List.forall_mem_nil _
  | typed own unlisted named _ inner tightens =>
    rw [shapeAs_free own]
    cases kind with
    | none => exact absurd given named
    | some kind =>
      have inside (nested : kind ∈ [Kind.object, .array]) : some kind ∈ m.kinds := inner kind nested given
      cases kind with
      | object =>
        have children := compile _ (inside List.mem_cons_self)
        rw [shapeAs_free unlisted] at children
        exact object_compiles (tightens _ (inside List.mem_cons_self)) children
      | array =>
        have children := compile _ (inside (List.mem_cons_of_mem _ List.mem_cons_self))
        rw [shapeAs_free unlisted] at children
        exact array_compiles (tightens _ (inside (List.mem_cons_of_mem _ List.mem_cons_self))) children
      | scalar type => cases type <;> exact List.forall_mem_nil _

theorem keeps_pass [Pattern.Engine] (keeps : Keeps k m) (own : k.Plain) (top : m.Plain)
    (nullable : m.isNullable = true → k.isNullable = true) (compiles : (Schema.object k).Compiles known)
    (given : (Schema.object m).Compiles known)
    (passed : evaluate resolve ((Schema.object m).validator known) value = .ok []) :
    evaluate resolve ((Schema.object k).validator known) value = .ok [] := by
  rcases (plain_pass top given).mp passed with ⟨rfl, null⟩ | alternatives
  · exact (plain_pass own compiles).mpr (.inl ⟨rfl, nullable null⟩)
  refine (plain_pass own compiles).mpr (.inr ?_)
  cases keeps with
  | alike kinds shapes =>
    have same : m.kinds.map (m.validatorAs known) = k.kinds.map (k.validatorAs known) := by
      rw [kinds]
      refine List.map_congr_left fun kind given => ?_
      rw [validatorAs, shapes kind given, validatorAs]
    rwa [same] at alternatives
  | listed mine listed among =>
    obtain ⟨_, inside, passed⟩ := Validator.unionOf_pass alternatives
    obtain ⟨kind, _, rfl⟩ := List.mem_map.mp inside
    have passes (kind : Option Kind) : evaluate resolve (k.validatorAs known kind) value = .ok [] := by
      rw [validatorAs_listed listed] at passed
      rw [validatorAs_listed mine]
      obtain ⟨found, inside, holds⟩ := Validator.ofLiterals_pass.mp passed
      exact Validator.ofLiterals_pass.mpr ⟨found, among inside, holds⟩
    obtain ⟨any, given⟩ := kinds_nonempty k
    refine Validator.unionOf_pass_of_mem ?_ (List.mem_map_of_mem given) (passes any)
    exact List.forall_mem_map.mpr fun kind _ => ⟨[], passes kind⟩
  | typed mine unlisted named narrowed _ tightens =>
    have known : none ∉ m.kinds := by
      intro inside
      obtain ⟨_, _, absent, _⟩ := narrowed none inside
      cases absent
    obtain ⟨kind, inside, passes⟩ := alternative_of_pass unlisted known alternatives
    obtain ⟨_, wider, equal, listed, narrows⟩ := narrowed _ inside
    cases equal
    have children := ((plain_compiles top).mp given).2 _ inside
    rw [shapeAs_free unlisted] at children
    exact alternatives_pass mine named listed (kind_tightens narrows (tightens kind inside) children passes)

end Keeping

end ApiContract.Keywords
