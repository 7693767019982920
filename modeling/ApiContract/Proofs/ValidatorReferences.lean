import ApiContract.Proofs.CompiledSchemas
import ApiContract.Proofs.EqualValidators
import Mathlib.Logic.Relation

namespace ApiContract

-- The validator of a schema refers to what the schema refers to, name by name and in the same order.

namespace Validator

section Occurrences

theorem occurrences_union (members : List Validator) : (union members).occurrences = members.flatMap occurrences := by
  unfold occurrences
  rw [fold_eq, List.flatMap_def]

theorem occurrences_intersection (members : List Validator) :
    (intersection members).occurrences = members.flatMap occurrences := by
  unfold occurrences
  rw [fold_eq, List.flatMap_def]

theorem occurrences_tuple (places : List Validator) (rest : Option Validator) :
    (tuple places rest).occurrences = (places ++ rest.toList).flatMap occurrences := by
  unfold occurrences
  rw [fold_eq]
  cases rest <;> simp [List.flatMap_def]

-- The validator for the keys that are not declared, if they are let in.
def unknownList : UnknownKeys Validator → List Validator
  | .strict => []
  | .catchall v => [v]

theorem occurrences_object (fields : List (Field Validator)) (unknownKeys : UnknownKeys Validator) :
    (object fields unknownKeys).occurrences
      = (fields.map Field.validator ++ unknownList unknownKeys).flatMap occurrences := by
  unfold occurrences
  rw [fold_eq]
  cases unknownKeys <;> simp [List.flatMap_map, Field.map, UnknownKeys.map, unknownList]

-- Names are no numbers: validators that are found equal hold the same ones in the same places.
theorem occurrences_same {v w : Validator} (equal : (v == w) = true) : v.occurrences = w.occurrences :=
  fold_same ⟨fun _ => rfl, fun _ => rfl, fun _ _ => rfl⟩ v w equal

theorem occurrences_unionParts (v : Validator) : (unionParts v).flatMap occurrences = v.occurrences := by
  unfold unionParts
  split
  · exact (occurrences_union _).symm
  · exact List.flatMap_singleton _ _

theorem occurrences_intersectionParts (v : Validator) :
    (intersectionParts v).flatMap occurrences = v.occurrences := by
  unfold intersectionParts
  split
  · exact (occurrences_intersection _).symm
  · rfl
  · exact List.flatMap_singleton _ _

theorem occurrences_refine (refinements : List Refinement) (v : Validator) :
    (v.refine refinements).occurrences = v.occurrences := by
  unfold Validator.refine
  split
  · rfl
  · split <;> rfl

theorem occurrences_orNull (v : Validator) : v.orNull.occurrences = v.occurrences := by
  unfold orNull
  split <;> rfl

end Occurrences

section Constructors

-- Neither flattening nor leaving out repetitions loses a name or moves its first occurrence.
theorem distinct_parts {parts : Validator → List Validator}
    (keeps : ∀ v, (parts v).flatMap occurrences = v.occurrences) (vs : List Validator) :
    distinct ((distinct (vs.flatMap parts)).flatMap occurrences) = distinct (vs.flatMap occurrences) := by
  rw [distinct_flatMap_distinct (fun _ _ => occurrences_same), List.flatMap_assoc]
  simp only [keeps]

theorem references_unionOf (vs : List Validator) : (unionOf vs).references = distinct (vs.flatMap occurrences) := by
  rw [← distinct_parts occurrences_unionParts]
  unfold unionOf
  split
  · rename_i none
    rw [none]
    rfl
  · rename_i v single
    rw [single, List.flatMap_singleton]
    rfl
  · rw [references, occurrences_union]

theorem references_intersectionOf (vs : List Validator) :
    (intersectionOf vs).references = distinct (vs.flatMap occurrences) := by
  rw [← distinct_parts occurrences_intersectionParts]
  unfold intersectionOf
  split
  · rename_i none
    rw [none]
    rfl
  · rename_i v single
    rw [single, List.flatMap_singleton]
    rfl
  · rw [references, occurrences_intersection]

theorem references_none {v : Validator} (none : NamesIn (fun _ => False) v) : v.references = [] :=
  List.eq_nil_iff_forall_not_mem.mpr (forall_references.mpr none)

end Constructors

end Validator

-- The name that a reference gives.
def Shape.ownNames {N : Type} : Shape N → List String
  | .ref name => [name]
  | _ => []

theorem Shape.ownNames_map {N M : Type} (f : N → M) (shape : Shape N) : (shape.map f).ownNames = shape.ownNames := by
  cases shape <;> rfl

namespace Validator

section Shapes

theorem occurrences_ofArray {closed : Bool} {a : ArrayShape Validator}
    (ended : closed = true → a.items.occurrences = []) :
    (ofArray closed a).occurrences = (Shape.array a).children.flatMap occurrences := by
  obtain ⟨items, places, low, high, unique⟩ := a
  unfold ofArray
  cases places with
  | none =>
    simp only [occurrences_refine, Shape.children, Option.getD_none, List.nil_append, List.flatMap_singleton]
    rfl
  | some places =>
    cases closed with
    | true => simp [occurrences_refine, occurrences_tuple, Shape.children, ended rfl]
    | false => simp [occurrences_refine, occurrences_tuple, Shape.children]

theorem occurrences_ofObject {closed : Bool} {o : ObjectShape Validator}
    (ended : closed = true → o.additional.occurrences = []) :
    (ofObject closed o).occurrences = (Shape.object o).children.flatMap occurrences := by
  unfold ofObject
  cases closed with
  | true => simp [occurrences_refine, occurrences_object, unknownList, Shape.children, List.flatMap_map, ended rfl]
  | false => simp [occurrences_refine, occurrences_object, unknownList, Shape.children, List.flatMap_map]

theorem references_assemble {paired : Shape (Node × Validator)}
    (ended : ∀ pair ∈ paired.children, pair.1.isFalse = true → pair.2.occurrences = []) :
    (assemble paired).references = distinct (paired.ownNames ++ paired.children.flatMap fun pair => pair.2.occurrences) := by
  have mapped : (paired.map Prod.snd).children.flatMap occurrences
      = paired.children.flatMap fun pair => pair.2.occurrences := by
    rw [Shape.children_map, List.flatMap_map]
  cases paired with
  | bool value => cases value <;> rfl
  | ref name => rfl
  | scalar s => exact references_none (validatorOfScalar_namesIn s)
  | array a =>
    have last := ended a.items (by simp [Shape.children])
    rw [← mapped, assemble, references, occurrences_ofArray last]
    rfl
  | object o =>
    have others := ended o.additional (by simp [Shape.children])
    rw [← mapped, assemble, references, occurrences_ofObject others]
    rfl
  | composition op branches =>
    rw [← mapped]
    cases op with
    | oneOf => exact references_unionOf _
    | anyOf => exact references_unionOf _
    | allOf => exact references_intersectionOf _
  | const value => exact references_none (validatorOfLiterals_namesIn [value])
  | enum values => exact references_none (validatorOfLiterals_namesIn values)

theorem references_orNullIf (nullable : Bool) (v : Validator) : (orNullIf nullable v).references = v.references := by
  cases nullable with
  | false => rfl
  | true => exact congrArg distinct (occurrences_orNull v)

end Shapes

end Validator

namespace Node

section Below

-- One node stands below another, at any depth.
def Below : Node → Node → Prop := Relation.TransGen fun inner node => inner ∈ node.children

-- Only the node itself may carry a name.
def UnnamedBelow (node : Node) : Prop := ∀ inner, Below inner node → inner.name = none

theorem unnamedBelow_iff {node : Node} :
    node.UnnamedBelow ↔ ∀ child ∈ node.children, child.name = none ∧ child.UnnamedBelow := by
  constructor
  · intro unnamed child member
    exact ⟨unnamed child (.single member), fun inner below => unnamed inner (.tail below member)⟩
  · intro each inner below
    cases below with
    | single member => exact (each inner member).1
    | tail below member => exact (each _ member).2 inner below

-- Lowering gives no names; a definition is named afterwards, at its root.
theorem lower_unnamed {schema : Schema} {node : Node} (lowered : schema.lower = .ok node) :
    node.name = none ∧ node.UnnamedBelow := by
  refine Schema.lower_induction (P := fun _ node => node.name = none ∧ node.UnnamedBelow) ?_ lowered
  intro schema shape inner _ related
  refine ⟨annotate_anonymous schema inner, unnamedBelow_iff.mpr ?_⟩
  intro child member
  rw [children, Schema.annotate_shape] at member
  obtain ⟨_, _, settled⟩ := related.child member
  exact settled

end Below

section Direct

theorem directReferences_eq (node : Node) :
    node.directReferences = distinct (node.shape.ownNames ++ node.children.flatMap occurrences) := by
  obtain ⟨name, title, description, deprecated, nullable, unsupported, shape⟩ := node
  cases shape <;> rfl

theorem directReferences_anonymous {node : Node} (anonymous : node.name = none) :
    node.directReferences = distinct node.occurrences := by
  rw [directReferences_eq, occurrences_eq]
  cases target : node.target? with
  | some name =>
    have equal := target?_anonymous anonymous target
    simp [children, equal, Shape.ownNames, Shape.children]
  | none =>
    have own : node.shape.ownNames = [] := by
      unfold Shape.ownNames
      split
      · rename_i name equal
        exact absurd target (target?_ref equal)
      · rfl
    rw [own, List.nil_append]

theorem occurrences_isFalse {node : Node} (anonymous : node.name = none) (closed : node.isFalse = true) :
    node.occurrences = [] := by
  have shape : node.shape = .bool false := by
    unfold isFalse at closed
    split at closed
    · assumption
    · cases closed
  simp [occurrences_eq, target?, anonymous, children, shape, Shape.children]

end Direct

end Node

namespace Validator

variable {known : String → Bool}

theorem expanded_references {node : Node} {v : Validator} (unnamed : node.UnnamedBelow)
    (compiled : expanded known node = .ok v) : v.references = node.directReferences := by
  induction node using Node.children_induction generalizing v with
  | step node ih =>
    obtain ⟨_, children, _, rfl⟩ := expanded_ok.mp compiled
    have below := Node.unnamedBelow_iff.mp unnamed
    have each : ∀ child ∈ node.children,
        distinct (occurring known child).occurrences = distinct child.occurrences := by
      intro child member
      obtain ⟨w, made⟩ := children child member
      obtain ⟨anonymous, unnamed⟩ := below child member
      rw [occurring_eq made, ← Node.directReferences_anonymous anonymous]
      rw [ofNode_anonymous anonymous] at made
      exact ih child member unnamed made
    have ended : ∀ child ∈ node.children, child.isFalse = true → (occurring known child).occurrences = [] := by
      intro child member closed
      have none := each child member
      rw [Node.occurrences_isFalse (below child member).1 closed] at none
      exact distinct_eq_nil none
    rw [references_orNullIf, ofChildren, references_assemble, Node.directReferences_eq]
    · rw [Shape.ownNames_map, Shape.children_map, List.flatMap_map]
      exact distinct_append_congr rfl (distinct_flatMap_congr each)
    · rw [Shape.children_map, List.forall_mem_map]
      exact ended

end Validator

-- What a schema and its validator refer to is one list, and the type refers to nothing else. Lowered
-- schemas are as asked: a definition carries a name at its root, and nothing carries one below.
theorem references_are_direct :
    (∀ (schema : Schema) (node : Node), schema.lower = .ok node →
      ∀ name : Option String, ({ node with name := name } : Node).UnnamedBelow) ∧
    ∀ (node : Node) (known : String → Bool) (v : Validator), node.UnnamedBelow →
      Validator.expanded known node = .ok v →
        v.references = node.directReferences ∧ v.references.Nodup ∧
          ∀ name ∈ (TypeExpr.expanded node).references, name ∈ v.references := by
  constructor
  · intro schema node lowered name
    have below := Node.unnamedBelow_iff.mp (Node.lower_unnamed lowered).2
    exact Node.unnamedBelow_iff.mpr below
  · intro node known v unnamed compiled
    have equal := Validator.expanded_references unnamed compiled
    refine ⟨equal, nodup_distinct _, ?_⟩
    rw [equal]
    exact TypeExpr.forall_references.mpr (expanded_namesIn node)

section Thicket

def grows (name : String) : Schema := .object { ref := some (componentStart ++ name) }

-- The inner choice is flattened into the outer one, and the twig in it comes a second time.
def thicket : Schema :=
  .object {
    properties := some [
      ("inner", grows "Thicket"),
      ("parts", .object { oneOf := some [grows "Twig", .object { anyOf := some [grows "Leaf", grows "Twig"] }] }),
      ("pair", .object { places := some [grows "Leaf", grows "Root"], items := some (.bool false) })]
    additional := some (.bool false) }

theorem thicket_references :
    ∃ node v, thicket.lower = .ok node ∧
      Validator.expanded (fun _ => true) { node with name := some "Thicket" } = .ok v ∧
      v.references = ["Thicket", "Twig", "Leaf", "Root"] ∧
      v.references = ({ node with name := some "Thicket" } : Node).directReferences ∧
      ∀ name ∈ (TypeExpr.expanded { node with name := some "Thicket" }).references, name ∈ v.references := by
  have evaluated : (thicket.lower.toOption.bind fun node =>
      (Validator.expanded (fun _ => true) { node with name := some "Thicket" }).toOption.map Validator.references)
        = some ["Thicket", "Twig", "Leaf", "Root"] := by
    decide +kernel
  obtain ⟨node, lowered, rest⟩ := Option.bind_eq_some_iff.mp evaluated
  obtain ⟨v, compiled, listed⟩ := Option.map_eq_some_iff.mp rest
  have unnamed := references_are_direct.1 thicket node (toOption_some lowered) (some "Thicket")
  obtain ⟨equal, _, types⟩ := references_are_direct.2 _ _ v unnamed (toOption_some compiled)
  exact ⟨node, v, toOption_some lowered, toOption_some compiled, listed, equal, types⟩

end Thicket

end ApiContract
