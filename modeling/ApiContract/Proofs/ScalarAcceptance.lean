import ApiContract.Pattern.Search
import ApiContract.Proofs.Acceptance
import ApiContract.Proofs.CompiledSchemas
import ApiContract.Proofs.RoundedIntegers
import ApiContract.Schema.Reader

namespace ApiContract

-- Which values pass the validator of a node that asks for a number or lists its values.

section Numbers

-- What the keywords of a number ask of it. An integer beyond 53 bits is rounded before anything is asked;
-- from there on numbers are exact.
structure Scalar.Admits (s : Scalar) (x : Double) : Prop where
  atLeast : ∀ low, s.minimum = some low → low.value ≤ x.value
  above : ∀ low, s.exclusiveMinimum = some low → low.value < x.value
  atMost : ∀ high, s.maximum = some high → x.value ≤ high.value
  below : ∀ high, s.exclusiveMaximum = some high → x.value < high.value
  integral : s.type = .integer → ∃ k : Int, x.value = .ofInt k
  multiple : ∀ step, s.multipleOf = some step → x.isMultipleOf step = true

namespace Validator

variable {s : Scalar}

theorem admits_iff {x : Double} :
    NumberHolds ⟨decide (s.type = .integer), lowerBound s, upperBound s, s.multipleOf⟩ x ↔ s.Admits x := by
  constructor
  · rintro ⟨integral, low, high, multiple⟩
    obtain ⟨atLeast, above⟩ := aboveBound_none.mp low
    obtain ⟨atMost, below⟩ := belowBound_none.mp high
    exact ⟨atLeast, above, atMost, below, fun asked => Double.isIntegral_iff.mp (integral (decide_eq_true asked)),
      multiple⟩
  · intro admits
    refine ⟨fun asked => Double.isIntegral_iff.mpr (admits.integral (of_decide_eq_true asked)), ?_, ?_, admits.multiple⟩
    · exact aboveBound_none.mpr ⟨admits.atLeast, admits.above⟩
    · exact belowBound_none.mpr ⟨admits.atMost, admits.below⟩

theorem ofScalar_numeric (numeric : s.type = .number ∨ s.type = .integer) : ofScalar s = ofNumber s := by
  unfold ofScalar
  rcases numeric with type | type
  · rw [type]
  · rw [type]

-- No keyword is lost, whether the bounds stand in the validator of the number or beside it.
theorem number_passes_iff_admitted [Pattern.Engine] (known : String → Bool) {node : Node}
    (shape : node.shape = .scalar s) (numeric : s.type = .number ∨ s.type = .integer)
    (supported : node.unsupported = []) :
    ∃ v, expanded known node = .ok v ∧ ∀ (table : List (String × Validator)) (n : Json.Number),
      check table v (.number n) = .ok [] ↔ s.Admits n.toDouble := by
  have compiled := expanded_leaf known supported (by rw [shape]; rfl) (by simp [shape])
  refine ⟨_, compiled, fun table n => ?_⟩
  have checked : check table (orNullIf node.nullable (ofChildren known node.shape)) (.number n) = .ok [] ↔
      evaluate (following table (.number n)) (ofNumber s) (.number n) = .ok [] := by
    rw [expanded_pass compiled, or_iff_right (by simp), shape, ← ofScalar_numeric numeric]
    rfl
  rw [checked, ofNumber_pass, ← admits_iff]
  constructor
  · rintro ⟨m, equal, holds⟩
    cases equal
    exact holds
  · intro holds
    exact ⟨n, rfl, holds⟩

-- A lower bound that is given twice and a step, so that the bounds are checked apart.
def fives : Scalar :=
  { type := .integer, minimum := some (.ofInt 0), exclusiveMinimum := some (.ofInt 0)
    exclusiveMaximum := some (.ofInt 100), multipleOf := some (.ofInt 5) }

def fivesValidator : Validator :=
  refined (number { integer := true, multipleOf := some (.ofInt 5) })
    [.range (some (.strict (.ofInt 0))) (some (.strict (.ofInt 100)))]

theorem fives_admitted :
    fives.type = .integer ∧ expanded (fun _ => false) (.ofShape (.scalar fives)) = .ok fivesValidator ∧
    check [] fivesValidator (.number (.int 95)) = .ok [] ∧ fives.Admits (.ofInt 95) ∧ ¬ fives.Admits (.ofInt 0) := by
  have compiled : expanded (fun _ => false) (.ofShape (.scalar fives)) = .ok fivesValidator := by rfl
  have accepted : check [] fivesValidator (.number (.int 95)) = .ok [] := toOption_some (by decide +kernel)
  have rejected : (check [] fivesValidator (.number (.int 0))).toOption ≠ some [] := by decide +kernel
  have shape : (Node.ofShape (.scalar fives)).shape = .scalar fives := rfl
  obtain ⟨v, made, passes⟩ := number_passes_iff_admitted (fun _ => false) shape (.inr rfl) rfl
  cases made.symm.trans compiled
  refine ⟨rfl, compiled, accepted, (passes [] (.int 95)).mp accepted, fun admitted => ?_⟩
  exact rejected (congrArg Except.toOption ((passes [] (.int 0)).mpr admitted))

end Validator

end Numbers

-- A listed scalar is passed by the values that equal it, numbers being compared as doubles. A listed array
-- or object has no literal, and then everything passes.

namespace Json

-- Equality of values, given what equal numbers are.
inductive EqualUpTo (numbers : Number → Number → Prop) : Json → Json → Prop where
  | null : EqualUpTo numbers .null .null
  | bool (b : Bool) : EqualUpTo numbers (.bool b) (.bool b)
  | number {m n : Number} (equal : numbers m n) : EqualUpTo numbers (.number m) (.number n)
  | string (s : String) : EqualUpTo numbers (.string s) (.string s)
  | array {xs ys : List Json} (items : List.Forall₂ (EqualUpTo numbers) xs ys) :
      EqualUpTo numbers (.array xs) (.array ys)
  | object {xs ys : List (String × Json)} (keys : xs.map Prod.fst = ys.map Prod.fst)
      (values : List.Forall₂ (EqualUpTo numbers) (xs.map Prod.snd) (ys.map Prod.snd)) :
      EqualUpTo numbers (.object xs) (.object ys)

inductive IsContainer : Json → Prop where
  | array (items : List Json) : IsContainer (.array items)
  | object (fields : List (String × Json)) : IsContainer (.object fields)

namespace Number

def exact : Number → Rat
  | int n => n
  | float x => x.value.toRat

def SameValue (m n : Number) : Prop := m.exact = n.exact

def SameDouble (m n : Number) : Prop := m.toDouble.value = n.toDouble.value

instance (m n : Number) : Decidable (SameValue m n) := inferInstanceAs (Decidable (m.exact = n.exact))

instance (m n : Number) : Decidable (SameDouble m n) :=
  inferInstanceAs (Decidable (m.toDouble.value = n.toDouble.value))

end Number

end Json

open Json (EqualUpTo IsContainer)
open Json.Number (SameDouble SameValue)

namespace Validator

variable {resolve : String → Check} {listed value : Json}

theorem literal_pass [Pattern.Engine] {l : Literal} :
    evaluate resolve (literal l) value = .ok [] ↔ l.Denotes value := by
  show Outcome.require _ _ = _ ↔ _
  rw [Outcome.require_pass, literalHolds_iff]

theorem ofJson?_none : Literal.ofJson? listed = none ↔ IsContainer listed := by
  cases listed with
  | array items => exact iff_of_true rfl (.array items)
  | object fields => exact iff_of_true rfl (.object fields)
  | number n => cases n <;> exact iff_of_false (by simp [Literal.ofJson?]) (by rintro ⟨⟩)
  | _ => exact iff_of_false (by simp [Literal.ofJson?]) (by rintro ⟨⟩)

-- A number and its literal are the same double.
theorem denotes_number {n : Json.Number} {l : Literal} (made : Literal.ofJson? (.number n) = some l) :
    l.Denotes value ↔ ∃ m, Json.number m = value ∧ m.toDouble.value = n.toDouble.value := by
  cases n with
  | int n =>
    rw [Literal.ofJson?] at made
    cases made
    split
    · exact Iff.rfl
    · exact Iff.rfl
  | float x =>
    cases made
    exact Iff.rfl

theorem denotes_iff {l : Literal} (made : Literal.ofJson? listed = some l) :
    l.Denotes value ↔ EqualUpTo SameDouble listed value := by
  cases listed with
  | number n =>
    rw [denotes_number made]
    constructor
    · rintro ⟨m, rfl, equal⟩
      exact .number equal.symm
    · rintro (_ | _ | equal)
      exact ⟨_, rfl, Eq.symm equal⟩
  | null | bool | string =>
    cases made
    constructor
    · rintro rfl
      constructor
    · rintro ⟨⟩
      rfl
  | array | object => cases made

theorem listed_pass [Pattern.Engine] :
    evaluate resolve (((Literal.ofJson? listed).map literal).getD unknown) value = .ok [] ↔
    IsContainer listed ∨ EqualUpTo SameDouble listed value := by
  cases made : Literal.ofJson? listed with
  | none => exact iff_of_true rfl (.inl (ofJson?_none.mp made))
  | some l =>
    have scalar : ¬ IsContainer listed := by
      intro container
      cases made.symm.trans (ofJson?_none.mpr container)
    rw [or_iff_right scalar, ← denotes_iff made]
    exact literal_pass

-- Under `enum`, and under `const` as a list of one.
theorem ofLiterals_accepts [Pattern.Engine] {values : List Json} : evaluate resolve (ofLiterals values) value = .ok [] ↔
    ∃ listed ∈ values, IsContainer listed ∨ EqualUpTo SameDouble listed value := by
  rw [ofLiterals_pass]
  exact exists_congr fun listed => and_congr_right fun _ => listed_pass

end Validator

namespace Schema

open Json (Source Fields)

-- How the schema of a constant is read. A keyword whose value is null counts as absent, also here.

variable {source : Source} {constant : Json} {levels : Nat}

theorem optional?_const (read : source.toJson? levels = some constant) (given : constant ≠ .null) :
    Fields.optional? [("const", source)] "const" (Json.Decoder.value levels) = some (some constant) := by
  unfold Fields.optional?
  rw [List.lookup_cons, beq_self_eq_true]
  cases source with
  | null => exact absurd (Option.some.inj read).symm given
  | _ => exact congrArg (Option.map some) read

theorem limits?_const : limits? levels [("const", source)] = some {} := by
  unfold limits?
  simp (disch := decide) only [optional?_other]
  rfl

theorem keywords?_const {schema : Json.Decoder Schema} (read : source.toJson? levels = some constant)
    (given : constant ≠ .null) : keywords? schema levels [("const", source)] = some { const := some constant } := by
  unfold keywords?
  simp (disch := decide) only [optional?_other, optional?_const read given, limits?_const]
  rfl

theorem decoder_const (read : source.toJson? levels = some constant) (given : constant ≠ .null) :
    decoder (levels + 1) (.object [(some "const", source)]) = some (.object { const := some constant }) :=
  decoder_single (by decide) read (keywords?_const read given)

theorem lower_const : (Schema.object { const := some constant }).lower = .ok (.ofShape (.const constant)) := by
  rw [lower_eq]
  rfl

end Schema

namespace Validator

-- Listed values are exact where all of them are scalars.
theorem listed_values_accepted [Pattern.Engine] (known : String → Bool) :
    (∀ (node : Node) values, node.shape = .enum values → node.unsupported = [] →
      ∃ v, expanded known node = .ok v ∧ ∀ (table : List (String × Validator)) value,
        check table v value = .ok [] ↔ value = .null ∧ node.nullable = true ∨
          ∃ listed ∈ values, IsContainer listed ∨ EqualUpTo SameDouble listed value) ∧
    ∀ levels (source : Json.Source) constant, source.toJson? levels = some constant → constant ≠ .null →
      ∃ schema node v, Schema.decoder (levels + 1) (.object [(some "const", source)]) = some schema ∧
        schema.lower = .ok node ∧ expanded known node = .ok v ∧ ∀ (table : List (String × Validator)) value,
          check table v value = .ok [] ↔ IsContainer constant ∨ EqualUpTo SameDouble constant value := by
  constructor
  · intro node values shape supported
    have compiled := expanded_leaf known supported (by rw [shape]; rfl) (by simp [shape])
    refine ⟨_, compiled, fun table value => ?_⟩
    rw [expanded_pass compiled, shape]
    exact or_congr_right ofLiterals_accepts
  · intro levels source constant read given
    have compiled : expanded known (.ofShape (.const constant)) = .ok (ofLiterals [constant]) := rfl
    refine ⟨_, _, _, Schema.decoder_const read given, Schema.lower_const, compiled, fun table value => ?_⟩
    show evaluate _ _ _ = _ ↔ _
    rw [ofLiterals_accepts]
    simp

def whole (n : Int) : Json := .number (.int n)

-- The same number written with a point.
def pointed (n : Int) : Json := .number (.float (.exact (.ofInt n)))

def ratings : Node := { title := some "Rating", nullable := true, shape := .enum [whole 1, .string "none", pointed 5] }

def three : Json.Source := .number ⟨false, ['3'], none, none⟩

theorem ratings_are_exact :
    (∃ v, expanded (fun _ => false) ratings = .ok v ∧ check [] v .null = .ok [] ∧ check [] v (pointed 1) = .ok [] ∧
      check [] v (whole 5) = .ok [] ∧ check [] v (.bool true) ≠ .ok []) ∧
    three.toJson? 126 = some (whole 3) ∧ whole 3 ≠ .null ∧
    ∃ schema node v, Schema.decoder Json.nestingLimit (.object [(some "const", three)]) = some schema ∧
      schema.lower = .ok node ∧ expanded (fun _ => false) node = .ok v ∧ check [] v (pointed 3) = .ok [] ∧
      check [] v (.string "3") ≠ .ok [] := by
  obtain ⟨enums, constants⟩ := listed_values_accepted fun _ => false
  have read : three.toJson? 126 = some (whole 3) := by rfl
  have given : whole 3 ≠ .null := by simp [whole]
  refine ⟨?_, read, given, ?_⟩
  · obtain ⟨v, compiled, accepts⟩ := enums ratings _ rfl rfl
    refine ⟨v, compiled, (accepts [] _).mpr (.inl ⟨rfl, rfl⟩), (accepts [] _).mpr (.inr ?_),
      (accepts [] _).mpr (.inr ?_), fun passed => ?_⟩
    · exact ⟨whole 1, by simp, .inr (.number (by decide +kernel))⟩
    · exact ⟨pointed 5, by simp, .inr (.number (by decide +kernel))⟩
    · rcases (accepts [] _).mp passed with ⟨null, _⟩ | ⟨listed, inside, either⟩
      · cases null
      · simp only [List.mem_cons, List.not_mem_nil, or_false] at inside
        rcases inside with rfl | rfl | rfl
        all_goals
          rcases either with container | equal
          · cases container
          · cases equal
  · obtain ⟨schema, node, v, decoded, lowered, compiled, accepts⟩ := constants 126 three _ read given
    refine ⟨schema, node, v, decoded, lowered, compiled, (accepts [] _).mpr (.inr (.number (by decide +kernel))),
      fun passed => ?_⟩
    rcases (accepts [] _).mp passed with container | equal
    · cases container
    · cases equal

def pair : Json := .array [whole 1, whole 2]

-- A listed array lets everything pass, two integers may be the same double, and a null is not read.
theorem listed_values_may_be_inexact :
    (∃ v, expanded (fun _ => false) (.ofShape (.enum [pair])) = .ok v ∧ check [] v (.string "pair") = .ok [] ∧
      ¬ ∃ listed ∈ [pair], EqualUpTo SameValue listed (.string "pair")) ∧
    (∃ v, expanded (fun _ => false) (.ofShape (.enum [whole 9007199254740993])) = .ok v ∧
      check [] v (whole 9007199254740992) = .ok [] ∧
      ¬ ∃ listed ∈ [whole 9007199254740993], EqualUpTo SameValue listed (whole 9007199254740992)) ∧
    ∃ schema node v, Schema.decoder Json.nestingLimit (.object [(some "const", .null)]) = some schema ∧
      schema.lower = .ok node ∧ expanded (fun _ => false) node = .ok v ∧ check [] v (.bool true) = .ok [] ∧
      ¬ EqualUpTo SameValue .null (.bool true) := by
  refine ⟨⟨unknown, rfl, rfl, ?_⟩, ⟨literal (.int 9007199254740993), rfl, ?_, ?_⟩,
    ⟨.object {}, .any, unknown, ?_, ?_, rfl, rfl, ?_⟩⟩
  · rintro ⟨listed, inside, equal⟩
    cases List.mem_singleton.mp inside
    cases equal
  · exact toOption_some (by decide +kernel)
  · rintro ⟨listed, inside, equal⟩
    cases List.mem_singleton.mp inside
    cases equal with
    | number equal => exact absurd equal (by decide +kernel)
  · rfl
  · rw [Schema.lower_eq]
    rfl
  · rintro ⟨⟩

end Validator

end ApiContract
