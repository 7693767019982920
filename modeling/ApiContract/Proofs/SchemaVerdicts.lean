import ApiContract.Proofs.SiblingKeywords

namespace ApiContract

-- Two schemas that are read side by side: one has a validator where the other has one, and a value gets
-- the same verdict from both. The relation is about one value, since the branches of a composition are
-- checked against that value too.

namespace Validator

namespace Outcome

variable {α β : Type}

theorem verdict_of_pass {a b : Outcome} (first : Defined a) (second : Defined b) (same : a = .ok [] ↔ b = .ok []) :
    verdict a = verdict b := by
  obtain ⟨issues, rfl⟩ := first
  obtain ⟨others, rfl⟩ := second
  cases issues <;> cases others <;> simp_all [verdict, Except.map]

theorem verdict_allOf_congr {f : α → Outcome} {g : β → Outcome} {xs : List α} {ys : List β}
    (same : List.Forall₂ (fun x y => verdict (f x) = verdict (g y)) xs ys) :
    verdict (allOf f xs) = verdict (allOf g ys) := by
  induction same with
  | nil => rfl
  | @cons x y xs ys first _ ih =>
    show verdict (both (f x) (allOf f xs)) = verdict (both (g y) (allOf g ys))
    rw [verdict_both, verdict_both, first, ih]

end Outcome

variable [Pattern.Engine] {resolve : String → Check} {value : Json}

theorem evaluate_orNull (v : Validator) (other : value ≠ .null) :
    evaluate resolve v.orNull value = evaluate resolve v value := by
  unfold orNull
  split
  · rfl
  · rfl
  · rfl
  · rw [evaluate_nullable]
    cases value with
    | null => exact absurd rfl other
    | _ => rfl

-- Where null is asked of both or of neither, and also on every other value.
theorem verdict_orNullIf {nullable other : Bool} {v w : Validator} (flags : value ≠ .null ∨ nullable = other)
    (same : Outcome.verdict (evaluate resolve v value) = Outcome.verdict (evaluate resolve w value)) :
    Outcome.verdict (evaluate resolve (orNullIf nullable v) value)
      = Outcome.verdict (evaluate resolve (orNullIf other w) value) := by
  have plain (nullable : Bool) (v : Validator) (notNull : value ≠ .null) :
      evaluate resolve (orNullIf nullable v) value = evaluate resolve v value := by
    cases nullable with
    | false => rfl
    | true => exact evaluate_orNull v notNull
  by_cases null : value = .null
  · cases flags.resolve_left (fun notNull => notNull null)
    cases nullable with
    | false => exact same
    | true =>
      have passes (v : Validator) : evaluate resolve (orNullIf true v) value = .ok [] := orNull_pass.mpr (.inl null)
      rw [passes, passes]
  · rw [plain _ _ null, plain _ _ null, same]

theorem verdict_ofComposition (op : Composition) {vs ws : List Validator}
    (same : List.Forall₂ (fun v w => Outcome.verdict (evaluate resolve v value)
      = Outcome.verdict (evaluate resolve w value)) vs ws) :
    Outcome.verdict (evaluate resolve (ofComposition op vs) value)
      = Outcome.verdict (evaluate resolve (ofComposition op ws) value) := by
  have unions : Outcome.verdict (evaluate resolve (unionOf vs) value)
      = Outcome.verdict (evaluate resolve (unionOf ws) value) := by
    rw [verdict_unionOf, verdict_unionOf, evaluate_union, evaluate_union, Outcome.anyOf_congr same]
  cases op with
  | oneOf => exact unions
  | anyOf => exact unions
  | allOf =>
    show Outcome.verdict (evaluate resolve (intersectionOf vs) value)
      = Outcome.verdict (evaluate resolve (intersectionOf ws) value)
    rw [verdict_intersectionOf, verdict_intersectionOf, evaluate_intersection, evaluate_intersection]
    exact Outcome.verdict_allOf_congr same

theorem verdict_unionOf_single (v : Validator) : Outcome.verdict (evaluate resolve (unionOf [v]) value)
    = Outcome.verdict (evaluate resolve v value) := by
  rw [verdict_unionOf, evaluate_union]
  simp only [Outcome.anyOf]
  generalize evaluate resolve v value = outcome
  cases outcome with
  | error e => rfl
  | ok issues => cases issues <;> rfl

end Validator

namespace Schema

open Validator (evaluate)
open Validator.Outcome (verdict)

-- The verdict of the validator that the schema is compiled to, if there is one.
def verdict? [Pattern.Engine] (known : String → Bool) (table : List (String × Validator)) (schema : Schema)
    (value : Json) : Option (Except CheckError Bool) :=
  (schema.lower.bind (Validator.expanded known)).toOption.map fun v => verdict (Validator.check table v value)

section Agreement

variable [Pattern.Engine] {known : String → Bool} {resolve : String → Validator.Check} {value : Json}

structure Agree (known : String → Bool) (resolve : String → Validator.Check) (value : Json) (a b : Schema) :
    Prop where
  compiles : a.Compiles known ↔ b.Compiles known
  verdicts : a.Compiles known → b.Compiles known →
    verdict (evaluate resolve (a.validator known) value) = verdict (evaluate resolve (b.validator known) value)

theorem Agree.refl (a : Schema) : Agree known resolve value a a := ⟨Iff.rfl, fun _ _ => rfl⟩

theorem verdict?_compiled {schema : Schema} (table : List (String × Validator)) (compiles : schema.Compiles known) :
    schema.verdict? known table value = some (verdict (Validator.check table (schema.validator known) value)) := by
  have validated := compiles.validated
  rw [Validator.ofNode_anonymous (lower_anonymous compiles.lowered)] at validated
  unfold verdict?
  rw [compiles.lowered]
  show ((Validator.expanded known schema.node).toOption.map _) = _
  rw [validated]
  rfl

theorem verdict?_none {schema : Schema} (table : List (String × Validator)) (fails : ¬ schema.Compiles known) :
    schema.verdict? known table value = none := by
  unfold verdict?
  cases compiled : schema.lower.bind (Validator.expanded known) with
  | error e => rfl
  | ok v =>
    obtain ⟨node, lowered, validated⟩ := bind_ok compiled
    rw [← Validator.ofNode_anonymous (lower_anonymous lowered)] at validated
    exact absurd (compiles_of lowered validated).1 fails

theorem Agree.verdict? {a b : Schema} {table : List (String × Validator)}
    (agree : Agree known (Validator.following table value) value a b) :
    a.verdict? known table value = b.verdict? known table value := by
  by_cases compiles : a.Compiles known
  · have other := agree.compiles.mp compiles
    rw [verdict?_compiled table compiles, verdict?_compiled table other]
    exact congrArg some (agree.verdicts compiles other)
  · rw [verdict?_none table compiles, verdict?_none table fun other => compiles (agree.compiles.mpr other)]

end Agreement

end Schema

namespace Keywords

open Validator (evaluate)
open Validator.Outcome (verdict)

variable [Pattern.Engine] {k m : Keywords Schema} {known : String → Bool} {resolve : String → Validator.Check}
  {value : Json}

-- Compositions of the same branches, each read with the keywords that stand beside it.
theorem agree_of_branches {op : Composition} {branches : List Schema} (ref : k.ref = none) (refOther : m.ref = none)
    (found : k.composition? = some (op, branches)) (foundOther : m.composition? = some (op, branches))
    (supported : k.unsupported = m.unsupported) (flags : value ≠ .null ∨ k.isNullable = m.isNullable)
    (each : ∀ branch ∈ branches, Schema.Agree known resolve value (k.inherited op branch) (m.inherited op branch)) :
    Schema.Agree known resolve value (.object k) (.object m) := by
  constructor
  · rw [composition_compiles ref found, composition_compiles refOther foundOther, supported]
    exact and_congr_right fun _ => forall₂_congr fun branch inside => (each branch inside).compiles
  · intro compiles compilesOther
    obtain ⟨_, children⟩ := (composition_compiles ref found).mp compiles
    obtain ⟨_, childrenOther⟩ := (composition_compiles refOther foundOther).mp compilesOther
    rw [composition_validator ref found compiles, composition_validator refOther foundOther compilesOther]
    apply Validator.verdict_orNullIf flags
    apply Validator.verdict_ofComposition
    rw [List.forall₂_map_left_iff, List.forall₂_map_right_iff, List.forall₂_same]
    intro branch inside
    exact (each branch inside).verdicts (children branch inside) (childrenOther branch inside)

-- Keywords without a composition, as the alternatives that they are read as.
theorem plain_verdict (plain : k.Plain) (compiles : (Schema.object k).Compiles known) :
    verdict (evaluate resolve ((Schema.object k).validator known) value) = verdict (evaluate resolve
      (.orNullIf k.isNullable (.unionOf (k.kinds.map (k.validatorAs known)))) value) := by
  rcases plain_validator plain compiles with ⟨kind, single, one⟩ | several
  · rw [one, single]
    apply Validator.verdict_orNullIf (.inr rfl)
    exact (Validator.verdict_unionOf_single _).symm
  · rw [several]

-- They agree if they are read as the same kinds and agree on each of them.
theorem agree_of_kinds (plain : k.Plain) (plainOther : m.Plain) (kinds : k.kinds = m.kinds)
    (supported : k.unsupported = m.unsupported) (flags : value ≠ .null ∨ k.isNullable = m.isNullable)
    (children : ∀ kind ∈ k.kinds, (k.shapeAs kind).children = (m.shapeAs kind).children)
    (same : ∀ kind ∈ k.kinds, verdict (evaluate resolve (k.validatorAs known kind) value)
      = verdict (evaluate resolve (m.validatorAs known kind) value)) :
    Schema.Agree known resolve value (.object k) (.object m) := by
  constructor
  · rw [plain_compiles plain, plain_compiles plainOther, supported, ← kinds]
    refine and_congr_right fun _ => forall₂_congr fun kind inside => ?_
    rw [children kind inside]
  · intro compiles compilesOther
    rw [plain_verdict plain compiles, plain_verdict plainOther compilesOther]
    apply Validator.verdict_orNullIf flags
    rw [← kinds]
    apply Validator.verdict_ofComposition .anyOf
    rw [List.forall₂_map_left_iff, List.forall₂_map_right_iff, List.forall₂_same]
    exact same

end Keywords

end ApiContract
