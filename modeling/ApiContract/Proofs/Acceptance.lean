import ApiContract.Pattern.Search
import ApiContract.Proofs.PassingValues
import ApiContract.Proofs.ResponseLookup

namespace ApiContract

-- Which values a validator accepts, by rules that know neither issues nor places nor the order in which
-- things are tried. A check that has an answer has no issues exactly if the value is accepted. Nothing is
-- said of where a check has an answer.

def Bound.IsBelow (bound : Bound) (x : Double) : Prop :=
  if bound.exclusive then bound.value.value < x.value else bound.value.value ≤ x.value

def Bound.IsAbove (bound : Bound) (x : Double) : Prop :=
  if bound.exclusive then x.value < bound.value.value else x.value ≤ bound.value.value

structure InRange (low high : Option Bound) (x : Double) : Prop where
  above : ∀ bound, low = some bound → bound.IsBelow x
  below : ∀ bound, high = some bound → bound.IsAbove x

-- Numbers are compared by value, however they are written.
def Literal.Denotes (value : Json) : Literal → Prop
  | string s => .string s = value
  | int n => ∃ m, .number m = value ∧ m.toDouble.value = (Double.ofInt n).value
  | number x => ∃ m, .number m = value ∧ m.toDouble.value = x.value
  | bool b => .bool b = value
  | null => .null = value

-- A refinement is about one kind of value and holds of all others.
def Refinement.Holds (value : Json) : Refinement → Prop
  | minItems limit => ∀ items, value = .array items → limit ≤ items.length
  | maxItems limit => ∀ items, value = .array items → items.length ≤ limit
  | uniqueItems => ∀ items, value = .array items → items.Pairwise fun a b => (a == b) = false
  | minProperties limit => ∀ fields, value = .object fields → limit ≤ fields.length
  | maxProperties limit => ∀ fields, value = .object fields → fields.length ≤ limit
  | range low high => ∀ n, value = .number n → InRange low high n.toDouble

namespace Validator

structure FitsString [Pattern.Engine] (rules : StringRules) (s : String) : Prop where
  long : ∀ least, rules.minLength = some least → least ≤ s.length
  short : ∀ most, rules.maxLength = some most → s.length ≤ most
  shaped : ∀ text, rules.pattern = some text →
    ∃ occursIn, Pattern.Engine.test? text = some occursIn ∧ occursIn s = true

structure FitsNumber (rules : NumberRules) (x : Double) : Prop where
  integral : rules.integer = true → x.isIntegral = true
  range : InRange rules.min rules.max x
  multiple : ∀ step, rules.multipleOf = some step → x.isMultipleOf step = true

section Selection

variable {V : Type}

def Takes (branch : Branch V) (status : Option Nat) : Prop :=
  ∃ code, status = some code ∧ branch.status.holds code = true

-- Of several branches that take the status the first one counts.
inductive Selects (branches : List (Branch V)) (fallback : Arm V) (status : Option Nat) : Arm V → Prop where
  | branch {before after : List (Branch V)} {branch : Branch V} (listed : branches = before ++ branch :: after)
      (earlier : ∀ other ∈ before, ¬ Takes other status) (takes : Takes branch status) :
      Selects branches fallback status branch.arm
  | fallback (none : ∀ branch ∈ branches, ¬ Takes branch status) : Selects branches fallback status fallback

-- The validator that an arm has for the body. An arm that rejects has none.
inductive LeadsTo (mediaType : Option String) : Arm V → V → Prop where
  | body {v : V} : LeadsTo mediaType (.body v) v
  | listed {cases : List (String × V)} {fallback : Arm V} {received : String} {v : V}
      (given : mediaType = some received) (found : cases.lookup received = some v) :
      LeadsTo mediaType (.media cases fallback) v
  | other {cases : List (String × V)} {fallback : Arm V} {v : V}
      (absent : ∀ received, mediaType = some received → cases.lookup received = none)
      (leads : LeadsTo mediaType fallback v) : LeadsTo mediaType (.media cases fallback) v

end Selection

-- No rule is about `never` and `binary`. References are followed as often as it takes.
inductive Accepts [Pattern.Engine] (lookup : Lookup) : Validator → Json → Prop where
  | unknown {value : Json} : Accepts lookup .unknown value
  | string {rules : StringRules} {s : String} (fits : FitsString rules s) :
      Accepts lookup (.string rules) (.string s)
  | number {rules : NumberRules} {n : Json.Number} (fits : FitsNumber rules n.toDouble) :
      Accepts lookup (.number rules) (.number n)
  | boolean {b : Bool} : Accepts lookup .boolean (.bool b)
  | null : Accepts lookup .null .null
  | literal {l : Literal} {value : Json} (denoted : l.Denotes value) : Accepts lookup (.literal l) value
  | union {members : List Validator} {member : Validator} {value : Json} (inside : member ∈ members)
      (accepted : Accepts lookup member value) : Accepts lookup (.union members) value
  | intersection {members : List Validator} {value : Json}
      (each : ∀ member ∈ members, Accepts lookup member value) : Accepts lookup (.intersection members) value
  | array {items : Validator} {low high : Option Nat} {elements : List Json}
      (enough : ∀ least, low = some least → least ≤ elements.length)
      (few : ∀ most, high = some most → elements.length ≤ most)
      (each : ∀ element ∈ elements, Accepts lookup items element) :
      Accepts lookup (.array items low high) (.array elements)
  | tuple {places : List Validator} {rest : Option Validator} {elements : List Json}
      (filled : places.length ≤ elements.length) (ended : rest = none → elements.length = places.length)
      (each : ∀ (n : Nat) element v, elements[n]? = some element → (places[n]?).or rest = some v →
        Accepts lookup v element) :
      Accepts lookup (.tuple places rest) (.array elements)
  -- Where fields repeat a name, the value under it has to be accepted by all of them.
  | object {fields : List (Field Validator)} {unknownKeys : UnknownKeys Validator} {entries : List (String × Json)}
      (required : ∀ field ∈ fields, field.optional = false → ∃ x, entries.lookup field.name = some x)
      (present : ∀ field ∈ fields, ∀ x, entries.lookup field.name = some x → Accepts lookup field.validator x)
      (closed : unknownKeys = .strict → ∀ key x, (key, x) ∈ entries → key ∈ fields.map Field.name)
      (others : ∀ rest, unknownKeys = .catchall rest → ∀ key x, (key, x) ∈ entries →
        key ∉ fields.map Field.name → Accepts lookup rest x) :
      Accepts lookup (.object fields unknownKeys) (.object entries)
  | lazy {name : String} {target : Validator} {value : Json} (found : lookup name = some target)
      (accepted : Accepts lookup target value) : Accepts lookup (.lazy name) value
  | absent {inner : Validator} : Accepts lookup (.nullable inner) .null
  | nullable {inner : Validator} {value : Json} (accepted : Accepts lookup inner value) :
      Accepts lookup (.nullable inner) value
  | refined {inner : Validator} {refinements : List Refinement} {value : Json}
      (accepted : Accepts lookup inner value) (holds : ∀ r ∈ refinements, r.Holds value) :
      Accepts lookup (.refined inner refinements) value
  | dispatch {branches : List (Branch Validator)} {fallback arm : Arm Validator} {body : Validator}
      {entries : List (String × Json)}
      (selected : Selects branches fallback (receivedStatus (.object entries)) arm)
      (leads : LeadsTo (receivedMediaType (.object entries)) arm body)
      (accepted : Accepts lookup body (receivedBody (.object entries))) :
      Accepts lookup (.dispatch branches fallback) (.object entries)

namespace Outcome

-- Where the outcome is an answer, it has no issues exactly if the statement holds.
def Decides (outcome : Outcome) (P : Prop) : Prop := ∀ issues, outcome = .ok issues → (issues = [] ↔ P)

variable {α : Type} {P Q : Prop} {a b : Outcome}

theorem Decides.congr (decides : Decides a P) (same : P ↔ Q) : Decides a Q :=
  fun issues answered => (decides issues answered).trans same

theorem decides_of_pass (passes : a = .ok [] ↔ P) : Decides a P := by
  rintro issues rfl
  simpa using passes

theorem decides_require (holds : Bool) (message : String) : Decides (require holds message) (holds = true) :=
  decides_of_pass require_pass

theorem decides_fail {message : String} : Decides (fail message) False :=
  decides_of_pass (iff_of_false (by simp [fail]) id)

theorem decides_expected (kind : String) (value : Json) : Decides (expected kind value) False := decides_fail

theorem decides_both (first : Decides a P) (second : Decides b Q) : Decides (both a b) (P ∧ Q) := by
  intro issues answered
  obtain ⟨found, early, next⟩ := bind_ok answered
  obtain ⟨others, late, rfl⟩ := map_ok next
  rw [List.append_eq_nil_iff, first found early, second others late]

theorem decides_within (segment : Segment) (decides : Decides a P) : Decides (within segment a) P := by
  intro issues answered
  obtain ⟨found, inner, rfl⟩ := map_ok answered
  rw [List.map_eq_nil_iff, decides found inner]

theorem decides_allOf {check : α → Outcome} {holds : α → Prop} {xs : List α}
    (each : ∀ x ∈ xs, Decides (check x) (holds x)) : Decides (allOf check xs) (∀ x ∈ xs, holds x) := by
  induction xs with
  | nil => exact decides_of_pass (iff_of_true rfl (List.forall_mem_nil _))
  | cons x rest ih =>
    obtain ⟨first, later⟩ := List.forall_mem_cons.mp each
    exact (decides_both first (ih later)).congr List.forall_mem_cons.symm

-- A member is looked at only after those before it have failed, so an answer of the whole is an answer of
-- every member up to the first that passes.
theorem decides_anyOf {check : α → Outcome} {holds : α → Prop} {xs : List α}
    (each : ∀ x ∈ xs, Decides (check x) (holds x)) : Decides (anyOf check xs) (∃ x ∈ xs, holds x) := by
  induction xs with
  | nil => exact decides_fail.congr (by simp)
  | cons x rest ih =>
    obtain ⟨first, later⟩ := List.forall_mem_cons.mp each
    intro issues answered
    obtain ⟨found, early, next⟩ := bind_ok answered
    have decided := first found early
    rw [List.exists_mem_cons_iff]
    cases found with
    | nil =>
      cases next
      exact iff_of_true rfl (.inl (decided.mp rfl))
    | cons issue found =>
      have fails : ¬ holds x := fun holds => List.cons_ne_nil _ _ (decided.mpr holds)
      rw [ih later issues next, or_iff_right fails]

-- A second check that is made only where the first one passes.
theorem decides_guarded (first : Decides a P) (second : Decides b Q) :
    Decides (a.bind fun issues => if issues.isEmpty then b else .ok issues) (P ∧ Q) := by
  intro issues answered
  obtain ⟨found, early, next⟩ := bind_ok answered
  have decided := first found early
  cases found with
  | nil => rw [second issues next, and_iff_right (decided.mp rfl)]
  | cons issue found =>
    cases next
    exact iff_of_false (List.cons_ne_nil _ _) fun both => List.cons_ne_nil _ _ (decided.mpr both.1)

theorem decides_indexed {check : Nat → Json → Outcome} {holds : Nat → Json → Prop} {items : List Json}
    (each : ∀ (n : Nat) item, items[n]? = some item → Decides (check n item) (holds n item)) :
    Decides (allOf (fun entry => within (.index entry.2) (check entry.2 entry.1)) items.zipIdx)
      (∀ (n : Nat) item, items[n]? = some item → holds n item) := by
  have placed : Decides (allOf (fun entry => within (.index entry.2) (check entry.2 entry.1)) items.zipIdx)
      (∀ entry ∈ items.zipIdx, holds entry.2 entry.1) :=
    decides_allOf fun entry member =>
      decides_within _ (each entry.2 entry.1 (List.mk_mem_zipIdx_iff_getElem?.mp member))
  refine placed.congr ⟨fun all n item found => ?_, fun all entry member => ?_⟩
  · exact all (item, n) (List.mk_mem_zipIdx_iff_getElem?.mpr found)
  · exact all entry.2 entry.1 (List.mk_mem_zipIdx_iff_getElem?.mp member)

end Outcome

open Outcome (Decides decides_of_pass decides_require decides_fail decides_expected decides_both decides_within
  decides_allOf decides_anyOf decides_guarded decides_indexed)

section Inversion

variable [Pattern.Engine] {lookup : Lookup} {value : Json}

theorem not_accepts_never : ¬ Accepts lookup never value := by
  rintro ⟨⟩

theorem not_accepts_binary : ¬ Accepts lookup binary value := by
  rintro ⟨⟩

theorem accepts_string {rules : StringRules} :
    Accepts lookup (string rules) value ↔ ∃ s, value = .string s ∧ FitsString rules s := by
  constructor
  · rintro (_ | fits)
    exact ⟨_, rfl, fits⟩
  · rintro ⟨s, rfl, fits⟩
    exact .string fits

theorem accepts_number {rules : NumberRules} :
    Accepts lookup (number rules) value ↔ ∃ n, value = .number n ∧ FitsNumber rules n.toDouble := by
  constructor
  · rintro (_ | _ | fits)
    exact ⟨_, rfl, fits⟩
  · rintro ⟨n, rfl, fits⟩
    exact .number fits

theorem accepts_literal {l : Literal} : Accepts lookup (literal l) value ↔ l.Denotes value := by
  constructor
  · intro accepted
    cases accepted with
    | literal denoted => exact denoted
  · exact .literal

theorem accepts_union {members : List Validator} :
    Accepts lookup (union members) value ↔ ∃ member ∈ members, Accepts lookup member value := by
  constructor
  · intro accepted
    cases accepted with
    | union inside accepted => exact ⟨_, inside, accepted⟩
  · rintro ⟨member, inside, accepted⟩
    exact .union inside accepted

theorem accepts_intersection {members : List Validator} :
    Accepts lookup (intersection members) value ↔ ∀ member ∈ members, Accepts lookup member value := by
  constructor
  · intro accepted
    cases accepted with
    | intersection each => exact each
  · exact .intersection

theorem accepts_lazy {name : String} :
    Accepts lookup (lazy name) value ↔ ∃ target, lookup name = some target ∧ Accepts lookup target value := by
  constructor
  · intro accepted
    cases accepted with
    | lazy found accepted => exact ⟨_, found, accepted⟩
  · rintro ⟨target, found, accepted⟩
    exact .lazy found accepted

theorem accepts_nullable {inner : Validator} :
    Accepts lookup (nullable inner) value ↔ value = .null ∨ Accepts lookup inner value := by
  constructor
  · intro accepted
    cases accepted with
    | absent => exact .inl rfl
    | nullable accepted => exact .inr accepted
  · rintro (rfl | accepted)
    · exact .absent
    · exact .nullable accepted

theorem accepts_refined {inner : Validator} {refinements : List Refinement} :
    Accepts lookup (refined inner refinements) value ↔
      Accepts lookup inner value ∧ ∀ r ∈ refinements, r.Holds value := by
  constructor
  · intro accepted
    cases accepted with
    | refined accepted holds => exact ⟨accepted, holds⟩
  · rintro ⟨accepted, holds⟩
    exact .refined accepted holds

theorem accepts_array {items : Validator} {low high : Option Nat} :
    Accepts lookup (array items low high) value ↔ ∃ elements, value = .array elements ∧
      ((∀ least, low = some least → least ≤ elements.length) ∧
        ∀ most, high = some most → elements.length ≤ most) ∧
      ∀ element ∈ elements, Accepts lookup items element := by
  constructor
  · intro accepted
    cases accepted with
    | array enough few each => exact ⟨_, rfl, ⟨enough, few⟩, each⟩
  · rintro ⟨elements, rfl, ⟨enough, few⟩, each⟩
    exact .array enough few each

theorem accepts_tuple {places : List Validator} {rest : Option Validator} :
    Accepts lookup (tuple places rest) value ↔ ∃ elements, value = .array elements ∧
      (places.length ≤ elements.length ∧ (rest = none → elements.length ≤ places.length)) ∧
      ∀ (n : Nat) element, elements[n]? = some element → ∀ v, (places[n]?).or rest = some v →
        Accepts lookup v element := by
  constructor
  · intro accepted
    cases accepted with
    | tuple filled ended each =>
      exact ⟨_, rfl, ⟨filled, fun none => Nat.le_of_eq (ended none)⟩, fun n element found v => each n element v found⟩
  · rintro ⟨elements, rfl, ⟨filled, ended⟩, each⟩
    exact .tuple filled (fun none => Nat.le_antisymm (ended none) filled)
      fun n element v found => each n element found v

theorem accepts_object {fields : List (Field Validator)} {unknownKeys : UnknownKeys Validator} :
    Accepts lookup (object fields unknownKeys) value ↔ ∃ entries, value = .object entries ∧
      (∀ field ∈ fields, (field.optional = false → ∃ x, entries.lookup field.name = some x) ∧
        ∀ x, entries.lookup field.name = some x → Accepts lookup field.validator x) ∧
      (unknownKeys = .strict → ∀ key x, (key, x) ∈ entries → key ∈ fields.map Field.name) ∧
        ∀ rest, unknownKeys = .catchall rest → ∀ key x, (key, x) ∈ entries →
          key ∉ fields.map Field.name → Accepts lookup rest x := by
  constructor
  · intro accepted
    cases accepted with
    | object required present closed others =>
      exact ⟨_, rfl, fun field member => ⟨required field member, present field member⟩, closed, others⟩
  · rintro ⟨entries, rfl, declared, closed, others⟩
    exact .object (fun field member => (declared field member).1) (fun field member => (declared field member).2)
      closed others

theorem accepts_dispatch {branches : List (Branch Validator)} {fallback : Arm Validator} :
    Accepts lookup (dispatch branches fallback) value ↔ ∃ entries, value = .object entries ∧
      ∃ arm, Selects branches fallback (receivedStatus value) arm ∧
        ∃ body, LeadsTo (receivedMediaType value) arm body ∧ Accepts lookup body (receivedBody value) := by
  constructor
  · intro accepted
    cases accepted with
    | dispatch selected leads accepted => exact ⟨_, rfl, _, selected, _, leads, accepted⟩
  · rintro ⟨entries, rfl, arm, selected, body, leads, accepted⟩
    exact .dispatch selected leads accepted

end Inversion

section Scalars

variable {value : Json} {x : Double} {low high : Option Bound}

theorem aboveBound_eq_none : aboveBound x low = none ↔ ∀ bound, low = some bound → bound.IsBelow x := by
  cases low with
  | none => simp [aboveBound]
  | some bound =>
    simp only [aboveBound, Option.some.injEq, forall_eq', Bound.IsBelow]
    grind

theorem belowBound_eq_none : belowBound x high = none ↔ ∀ bound, high = some bound → bound.IsAbove x := by
  cases high with
  | none => simp [belowBound]
  | some bound =>
    simp only [belowBound, Option.some.injEq, forall_eq', Bound.IsAbove]
    grind

theorem inRange_iff : InRange low high x ↔ violation x low high = none := by
  rw [violation_none, aboveBound_eq_none, belowBound_eq_none]
  exact ⟨fun range => ⟨range.above, range.below⟩, fun ⟨above, below⟩ => ⟨above, below⟩⟩

theorem fitsNumber_iff {rules : NumberRules} : FitsNumber rules x ↔ NumberHolds rules x := by
  constructor
  · rintro ⟨integral, range, multiple⟩
    exact ⟨integral, aboveBound_eq_none.mpr range.above, belowBound_eq_none.mpr range.below, multiple⟩
  · rintro ⟨integral, above, below, multiple⟩
    exact ⟨integral, ⟨aboveBound_eq_none.mp above, belowBound_eq_none.mp below⟩, multiple⟩

theorem checkPattern_decides [Pattern.Engine] (s : String) (pattern : Option String) :
    Decides (checkPattern s pattern) (∀ text, pattern = some text →
      ∃ occursIn, Pattern.Engine.test? text = some occursIn ∧ occursIn s = true) := by
  unfold checkPattern
  split
  · exact decides_of_pass (iff_of_true rfl (by simp))
  · rename_i text
    split
    · intro issues answered
      cases answered
    · rename_i read parsed
      exact (decides_require _ _).congr (by simp [parsed])

theorem string_decides [Pattern.Engine] {resolve : String → Check} {lookup : Lookup} (rules : StringRules) :
    Decides (evaluate resolve (string rules) value) (Accepts lookup (string rules) value) := by
  show Decides (checkString rules value) _
  rw [accepts_string]
  cases value with
  | string s =>
    refine (decides_both (decides_require _ _)
      (decides_both (decides_require _ _) (checkPattern_decides s rules.pattern))).congr ?_
    simp only [Option.all_eq_true, decide_eq_true_eq, Json.string.injEq, exists_eq_left']
    exact ⟨fun ⟨long, short, shaped⟩ => ⟨long, short, shaped⟩, fun fits => ⟨fits.long, fits.short, fits.shaped⟩⟩
  | _ => exact (decides_expected _ _).congr (by simp)

theorem literalHolds_iff {l : Literal} : literalHolds l value = true ↔ l.Denotes value := by
  cases l <;> cases value <;> simp [literalHolds, Literal.Denotes, Literal.toJson, BEq.beq, Json.same]

theorem allDifferent_iff {items : List Json} :
    allDifferent items = true ↔ items.Pairwise fun a b => (a == b) = false := by
  induction items with
  | nil => simp [allDifferent]
  | cons item rest ih => simp [allDifferent, ih]

theorem refinementHolds_iff {r : Refinement} : refinementHolds value r = true ↔ r.Holds value := by
  cases r <;> cases value <;>
    simp [refinementHolds, Refinement.Holds, allDifferent_iff, inRange_iff]

end Scalars

section Containers

variable [Pattern.Engine] {resolve : String → Check} {lookup : Lookup} {value : Json}

theorem array_decides {items : Validator} {low high : Option Nat}
    (each : ∀ x, Decides (evaluate resolve items x) (Accepts lookup items x)) :
    Decides (evaluate resolve (array items low high) value) (Accepts lookup (array items low high) value) := by
  rw [evaluate_array, accepts_array]
  cases value with
  | array elements =>
    have counted : Decides (itemCount elements.length low high)
        ((∀ least, low = some least → least ≤ elements.length) ∧
          ∀ most, high = some most → elements.length ≤ most) := by
      refine decides_of_pass (itemCount_pass.trans ?_)
      simp only [Option.all_eq_true, decide_eq_true_eq]
    refine (decides_both counted (decides_indexed fun _ item _ => each item)).congr ?_
    simp only [Json.array.injEq, exists_eq_left', List.mem_iff_getElem?, forall_exists_index]
    exact and_congr_right fun _ => forall_comm
  | _ => exact (decides_expected _ _).congr (by simp)

theorem placeCheck_decides {places : List Validator} {rest : Option Validator} {x : Json} (n : Nat)
    (each : ∀ v, (places[n]?).or rest = some v → Decides (evaluate resolve v x) (Accepts lookup v x)) :
    Decides (placeCheck (places.map (evaluate resolve)) (rest.map (evaluate resolve)) n x)
      (∀ v, (places[n]?).or rest = some v → Accepts lookup v x) := by
  unfold placeCheck
  rw [List.getElem?_map, ← Option.map_or]
  cases placed : (places[n]?).or rest with
  | none => exact decides_of_pass (iff_of_true rfl (by simp))
  | some v => exact (each v placed).congr (by simp)

theorem tuple_decides {places : List Validator} {rest : Option Validator}
    (each : ∀ v ∈ (tuple places rest).parts, ∀ x, Decides (evaluate resolve v x) (Accepts lookup v x)) :
    Decides (evaluate resolve (tuple places rest) value) (Accepts lookup (tuple places rest) value) := by
  rw [evaluate_tuple, accepts_tuple]
  cases value with
  | array elements =>
    have counted : Decides (itemCount elements.length (some (places.map (evaluate resolve)).length)
        (if (rest.map (evaluate resolve)).isNone then some (places.map (evaluate resolve)).length else none))
        (places.length ≤ elements.length ∧ (rest = none → elements.length ≤ places.length)) := by
      refine decides_of_pass (itemCount_pass.trans ?_)
      cases rest <;> simp
    have inside (n : Nat) (v : Validator) (placed : (places[n]?).or rest = some v) : v ∈ (tuple places rest).parts := by
      rcases Option.or_eq_some_iff.mp placed with inPlace | ⟨_, last⟩
      · exact List.mem_append_left _ (List.mem_of_getElem? inPlace)
      · exact List.mem_append_right _ (Option.mem_toList.mpr last)
    have placed (n : Nat) (element : Json) (_ : elements[n]? = some element) :
        Decides (placeCheck (places.map (evaluate resolve)) (rest.map (evaluate resolve)) n element)
          (∀ v, (places[n]?).or rest = some v → Accepts lookup v element) :=
      placeCheck_decides n fun v asked => each v (inside n v asked) element
    refine (decides_both counted (decides_indexed placed)).congr ?_
    simp only [Json.array.injEq, exists_eq_left']
  | _ => exact (decides_expected _ _).congr (by simp)

theorem checkField_decides {field : Field Validator} (entries : List (String × Json))
    (inner : ∀ x, Decides (evaluate resolve field.validator x) (Accepts lookup field.validator x)) :
    Decides (checkField entries (field.map (evaluate resolve)))
      ((field.optional = false → ∃ x, entries.lookup field.name = some x) ∧
        ∀ x, entries.lookup field.name = some x → Accepts lookup field.validator x) := by
  obtain ⟨name, validator, optional⟩ := field
  unfold checkField
  dsimp only [Field.map]
  cases entries.lookup name with
  | some x => exact (decides_within _ (inner x)).congr (by simp)
  | none =>
    cases optional with
    | true => exact decides_of_pass (iff_of_true rfl (by simp))
    | false => exact (decides_within _ decides_fail).congr (by simp)

theorem checkExtra_decides {fields : List (Field Validator)} {unknownKeys : UnknownKeys Validator}
    (others : ∀ rest, unknownKeys = .catchall rest → ∀ x, Decides (evaluate resolve rest x) (Accepts lookup rest x))
    (entries : List (String × Json)) :
    Decides (checkExtra (entries.filter fun entry =>
        !((fields.map (Field.map (evaluate resolve))).any fun field => field.name == entry.1))
      (unknownKeys.map (evaluate resolve)))
      ((unknownKeys = .strict → ∀ key x, (key, x) ∈ entries → key ∈ fields.map Field.name) ∧
        ∀ rest, unknownKeys = .catchall rest → ∀ key x, (key, x) ∈ entries →
          key ∉ fields.map Field.name → Accepts lookup rest x) := by
  cases unknownKeys with
  | strict =>
    refine (decides_require _ _).congr ?_
    rw [List.isEmpty_iff, List.eq_nil_iff_forall_not_mem]
    simp only [mem_extra, Prod.forall, not_and, not_not, forall_const, reduceCtorEq, false_implies, implies_true,
      and_true]
  | catchall rest =>
    refine (decides_allOf fun entry _ => decides_within _ (others rest rfl entry.2)).congr ?_
    simp only [mem_extra, Prod.forall, and_imp, reduceCtorEq, false_implies, true_and, UnknownKeys.catchall.injEq,
      forall_eq']

theorem object_decides {fields : List (Field Validator)} {unknownKeys : UnknownKeys Validator}
    (declared : ∀ field ∈ fields, ∀ x, Decides (evaluate resolve field.validator x) (Accepts lookup field.validator x))
    (others : ∀ rest, unknownKeys = .catchall rest → ∀ x, Decides (evaluate resolve rest x) (Accepts lookup rest x)) :
    Decides (evaluate resolve (object fields unknownKeys) value)
      (Accepts lookup (object fields unknownKeys) value) := by
  rw [evaluate_object, accepts_object]
  cases value with
  | object entries =>
    have each : Decides (Outcome.allOf (checkField entries) (fields.map (Field.map (evaluate resolve))))
        (∀ field ∈ fields, (field.optional = false → ∃ x, entries.lookup field.name = some x) ∧
          ∀ x, entries.lookup field.name = some x → Accepts lookup field.validator x) := by
      rw [Outcome.allOf_map]
      exact decides_allOf fun field member => checkField_decides entries (declared field member)
    refine (decides_both each (checkExtra_decides others entries)).congr ?_
    simp only [Json.object.injEq, exists_eq_left']
  | _ => exact (decides_expected _ _).congr (by simp)

end Containers

section Dispatch

variable {V : Type} {resolve : String → Check} {lookup : Lookup}

theorem selects_iff {branches : List (Branch V)} {fallback arm : Arm V} {status : Option Nat} :
    Selects branches fallback status arm ↔ selectArm branches fallback status = arm := by
  cases status with
  | none =>
    have free (branch : Branch V) : ¬ Takes branch none := fun ⟨_, given, _⟩ => by cases given
    constructor
    · rintro (⟨_, _, takes⟩ | _)
      · exact absurd takes (free _)
      · rfl
    · rintro rfl
      exact .fallback fun branch _ => free branch
  | some code =>
    have takes (branch : Branch V) : Takes branch (some code) ↔ branch.status.holds code = true := by
      simp [Takes]
    rw [selectArm_some]
    constructor
    · rintro (@⟨before, after, branch, listed, earlier, first⟩ | none)
      · have found : branches.find? (fun branch => branch.status.holds code) = some branch := by
          refine List.find?_eq_some_iff_append.mpr ⟨(takes branch).mp first, before, after, listed, ?_⟩
          exact fun other member => by simpa [takes] using earlier other member
        rw [found]
        rfl
      · rw [List.find?_eq_none.mpr fun branch member => by simpa [takes] using none branch member]
        rfl
    · cases found : branches.find? (fun branch => branch.status.holds code) with
      | none =>
        rintro rfl
        exact .fallback fun branch member => by simpa [takes] using List.find?_eq_none.mp found branch member
      | some branch =>
        rintro rfl
        obtain ⟨first, before, after, listed, earlier⟩ := List.find?_eq_some_iff_append.mp found
        refine .branch listed (fun other member => ?_) ((takes branch).mpr first)
        simpa [takes] using earlier other member

theorem leadsTo_media {mediaType : Option String} {cases : List (String × V)} {fallback : Arm V} {v : V} :
    LeadsTo mediaType (.media cases fallback) v ↔
      LeadsTo mediaType (((mediaType.bind fun received => cases.lookup received).map .body).getD fallback) v := by
  cases found : mediaType.bind fun received => cases.lookup received with
  | none =>
    have absent := Option.bind_eq_none_iff.mp found
    constructor
    · rintro (_ | ⟨given, listed⟩ | ⟨_, leads⟩)
      · rw [absent _ given] at listed
        cases listed
      · exact leads
    · exact fun leads => .other absent leads
  | some w =>
    obtain ⟨received, given, listed⟩ := Option.bind_eq_some_iff.mp found
    constructor
    · rintro (_ | ⟨again, other⟩ | ⟨absent, _⟩)
      · rw [given, Option.some.injEq] at again
        rw [← again, listed] at other
        cases other
        exact .body
      · rw [absent _ given] at listed
        cases listed
    · rintro ⟨⟩
      exact .listed given listed

theorem checkArm_body_decides [Pattern.Engine] {v : Validator} (response : Json)
    (inner : ∀ x, Decides (evaluate resolve v x) (Accepts lookup v x)) :
    Decides (checkArm response (.body (evaluate resolve v)))
      (∃ w, LeadsTo (receivedMediaType response) (.body v) w ∧ Accepts lookup w (receivedBody response)) := by
  refine (decides_within _ (inner _)).congr ⟨fun accepted => ⟨v, .body, accepted⟩, ?_⟩
  rintro ⟨_, ⟨⟩, accepted⟩
  exact accepted

theorem checkArm_decides [Pattern.Engine] {arm : Arm Validator} (response : Json)
    (each : ∀ v ∈ arm.validators, ∀ x, Decides (evaluate resolve v x) (Accepts lookup v x)) :
    Decides (checkArm response (arm.map (evaluate resolve)))
      (∃ v, LeadsTo (receivedMediaType response) arm v ∧ Accepts lookup v (receivedBody response)) := by
  induction arm with
  | body v => exact checkArm_body_decides response (each v (List.mem_singleton_self _))
  | media cases fallback ih =>
    obtain ⟨inCases, inFallback⟩ := List.forall_mem_append.mp each
    simp only [leadsTo_media]
    rw [Arm.map, checkArm_media]
    have mapped : ((receivedMediaType response).bind fun received => (cases.lookup received).map (evaluate resolve))
        = ((receivedMediaType response).bind fun received => cases.lookup received).map (evaluate resolve) :=
      Option.map_bind.symm
    simp only [lookup_map, mapped]
    cases found : (receivedMediaType response).bind fun received => cases.lookup received with
    | none => exact ih inFallback
    | some v =>
      obtain ⟨_, _, listed⟩ := Option.bind_eq_some_iff.mp found
      refine checkArm_body_decides response (inCases v ?_)
      exact List.mem_map_of_mem (f := Prod.snd) (lookup_mem listed)
  | reject field =>
    refine (decides_within _ decides_fail).congr (iff_of_false id ?_)
    rintro ⟨_, ⟨⟩, _⟩

theorem selects_parts {branches : List (Branch Validator)} {fallback arm : Arm Validator} {status : Option Nat}
    (selected : Selects branches fallback status arm) {v : Validator} (inside : v ∈ arm.validators) :
    v ∈ (dispatch branches fallback).parts := by
  cases selected with
  | branch listed =>
    subst listed
    exact List.mem_append_left _ (List.mem_flatMap.mpr ⟨_, List.mem_append_right _ List.mem_cons_self, inside⟩)
  | fallback none => exact List.mem_append_right _ inside

theorem dispatch_decides [Pattern.Engine] {branches : List (Branch Validator)} {fallback : Arm Validator} {value : Json}
    (each : ∀ v ∈ (dispatch branches fallback).parts, ∀ x, Decides (evaluate resolve v x) (Accepts lookup v x)) :
    Decides (evaluate resolve (dispatch branches fallback) value)
      (Accepts lookup (dispatch branches fallback) value) := by
  rw [evaluate_dispatch, accepts_dispatch]
  cases value with
  | object entries =>
    rw [checkDispatch, selectArm_map, ← receivedStatus_eq]
    refine (checkArm_decides _ fun v inside => each v (selects_parts (selects_iff.mpr rfl) inside)).congr ?_
    simp only [selects_iff, exists_eq_left', Json.object.injEq]
  | _ => exact (decides_expected _ _).congr (by simp)

end Dispatch

section References

variable {lookup : Lookup} {resolve : String → Check}

-- One case for each kind of validator; only a reference asks what names mean.
theorem evaluate_decides [Pattern.Engine]
    (follows : ∀ name value, Decides (resolve name value) (Accepts lookup (lazy name) value))
    (v : Validator) (value : Json) : Decides (evaluate resolve v value) (Accepts lookup v value) := by
  induction v using parts_induction generalizing value with
  | step v ih =>
    cases v with
    | unknown => exact decides_of_pass (iff_of_true rfl .unknown)
    | never => exact decides_fail.congr (iff_of_false id not_accepts_never)
    | string rules => exact string_decides rules
    | number rules => exact (decides_of_pass number_pass).congr (by simp only [accepts_number, fitsNumber_iff])
    | boolean =>
      cases value with
      | bool b => exact decides_of_pass (iff_of_true rfl .boolean)
      | _ => exact decides_fail.congr (iff_of_false id (by rintro ⟨⟩))
    | null =>
      cases value with
      | null => exact decides_of_pass (iff_of_true rfl .null)
      | _ => exact decides_fail.congr (iff_of_false id (by rintro ⟨⟩))
    | binary => exact decides_fail.congr (iff_of_false id not_accepts_binary)
    | literal l => exact (decides_require _ _).congr (literalHolds_iff.trans accepts_literal.symm)
    | union members =>
      rw [evaluate_union]
      exact (decides_anyOf fun member inside => ih member inside value).congr accepts_union.symm
    | intersection members =>
      rw [evaluate_intersection]
      exact (decides_allOf fun member inside => ih member inside value).congr accepts_intersection.symm
    | array items low high => exact array_decides (ih items (List.mem_singleton_self _))
    | tuple places rest => exact tuple_decides ih
    | object fields unknownKeys =>
      refine object_decides (fun field member => ih field.validator (field_part member)) ?_
      rintro rest rfl
      exact ih rest List.mem_cons_self
    | lazy name => exact follows name value
    | nullable inner =>
      rw [evaluate_nullable]
      cases value with
      | null => exact decides_of_pass (iff_of_true rfl .absent)
      | _ =>
        refine (ih inner (List.mem_singleton_self _) _).congr ?_
        simp [accepts_nullable]
    | refined inner refinements =>
      rw [evaluate_refined]
      refine (decides_guarded (ih inner (List.mem_singleton_self _) value)
        (decides_of_pass checkRefinements_pass)).congr ?_
      simp only [accepts_refined, refinementHolds_iff]
    | dispatch branches fallback => exact dispatch_decides ih

-- By induction on how far references are followed.
theorem resolveWithin_decides [Pattern.Engine] (lookup : Lookup) (limit : Nat) (name : String) (value : Json) :
    Decides (resolveWithin lookup limit name value) (Accepts lookup (lazy name) value) := by
  induction limit generalizing name value with
  | zero =>
    intro issues answered
    cases answered
  | succ limit ih =>
    rw [resolveWithin]
    split
    · intro issues answered
      cases answered
    · rename_i target found
      refine (evaluate_decides ih target value).congr ?_
      simp [accepts_lazy, found]

-- A check that has an answer decides acceptance, whatever the names in the table stand for.
theorem issues_empty_iff_accepts [Pattern.Engine] {table : List (String × Validator)} {v : Validator} {value : Json}
    {issues : List Issue} (answered : check table v value = .ok issues) :
    issues = [] ↔ Accepts (fun name => table.lookup name) v value :=
  evaluate_decides (resolveWithin_decides _ _) v value issues answered

-- A tree has a label and different trees below it.
def trees : List (String × Validator) :=
  [("Tree", .object [⟨"label", .string { minLength := some 1 }, false⟩,
    ⟨"below", .refined (.array (.lazy "Tree") none none) [.uniqueItems], true⟩] .strict)]

def treeAnswer : Validator := .dispatch [⟨.exact 200, .body (.union [.null, .lazy "Tree"])⟩] (.reject .status)

def answeredTree (first second : String) : Json :=
  .object [("body", .object [
      ("below", .array [.object [("label", .string first)], .object [("label", .string second)]]),
      ("label", .string "oak")]),
    ("status", .number (.int 200))]

-- What fails deep inside a member of a union is only that the union fails.
theorem different_trees_accepted :
    check trees treeAnswer (answeredTree "ash" "elm") = .ok [] ∧
    Accepts (fun name => trees.lookup name) treeAnswer (answeredTree "ash" "elm") ∧
    check trees treeAnswer (answeredTree "ash" "ash") = .ok [⟨[.key "body"], "Invalid input"⟩] ∧
    ¬ Accepts (fun name => trees.lookup name) treeAnswer (answeredTree "ash" "ash") := by
  have passed : check trees treeAnswer (answeredTree "ash" "elm") = .ok [] := by rfl
  have failed : check trees treeAnswer (answeredTree "ash" "ash") = .ok [⟨[.key "body"], "Invalid input"⟩] := by rfl
  refine ⟨passed, (issues_empty_iff_accepts passed).mp rfl, failed, fun accepted => ?_⟩
  cases (issues_empty_iff_accepts failed).mpr accepted

end References

end Validator

end ApiContract
