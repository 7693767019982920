import ApiContract.Proofs.TypeNames
import ApiContract.Proofs.ValidatorNames
import ApiContract.TypeExpr.OfSchema
import ApiContract.Validator.OfSchema

namespace ApiContract

-- The names in the type and in the validator of a schema are among those that the schema refers to.

section Nodes

namespace Node

theorem occurrences_eq (node : Node) : node.occurrences = match node.target? with
    | some name => [name]
    | none => node.children.flatMap occurrences := by
  unfold occurrences
  rw [fold_eq, Shape.children_map]
  rfl

theorem mem_directReferences {node : Node} {name : String} :
    name ∈ node.directReferences ↔ node.shape = .ref name ∨ ∃ child ∈ node.children, name ∈ child.occurrences := by
  unfold directReferences
  rw [mem_distinct, List.mem_append, List.mem_flatMap]
  refine or_congr ?_ Iff.rfl
  split
  · rename_i other equal
    rw [equal, List.mem_singleton, Shape.ref.injEq, eq_comm]
  · rename_i other
    constructor
    · intro member
      cases member
    · intro equal
      exact absurd equal (other name)

theorem target?_ref {node : Node} {name : String} (equal : node.shape = .ref name) :
    node.target? ≠ none := by
  unfold target?
  rw [equal]
  cases node.name <;> simp

theorem target?_anonymous {node : Node} (anonymous : node.name = none) {name : String}
    (found : node.target? = some name) : node.shape = .ref name := by
  unfold target? at found
  rw [anonymous] at found
  split at found
  · rename_i equal
    cases equal
  · cases found
    assumption
  · cases found

-- A schema without a name of its own stands for what it refers to.
theorem occurrences_subset {node : Node} (anonymous : node.name = none) {name : String}
    (occurs : name ∈ node.occurrences) : name ∈ node.directReferences := by
  rw [mem_directReferences]
  rw [occurrences_eq] at occurs
  cases target : node.target? with
  | some other =>
    rw [target] at occurs
    cases List.mem_singleton.mp occurs
    exact .inl (target?_anonymous anonymous target)
  | none =>
    rw [target] at occurs
    exact .inr (List.mem_flatMap.mp occurs)

end Node

end Nodes

section Types

variable {P : String → Prop} {typed : Node → TypeExpr}

open TypeExpr

theorem typeOfShape_namesIn {shape : Shape Node} (own : ∀ name, shape = .ref name → P name)
    (children : ∀ child ∈ shape.children, NamesIn P (typed child)) :
    NamesIn P (TypeExpr.ofShape (shape.map fun child => (child, typed child))) := by
  refine (hereditary_namesIn P).ofShape ?_ ?_ children
  · exact fun name equal => namesIn_reference (own name equal)
  · intro o _ _ others
    exact (namesIn_parts (by simp)).mpr (forall_pair (namesIn_primitive _) others)

theorem ofNode_namesIn (node : Node) : NamesIn (· ∈ node.occurrences) (TypeExpr.ofNode node) := by
  induction node using Node.children_induction with
  | step node ih =>
    rw [TypeExpr.ofNode, Node.foldPaired_eq]
    refine (hereditary_namesIn _).orNull node.nullable ?_
    rw [Node.occurrences_eq]
    cases target : node.target? with
    | some name => exact namesIn_reference (List.mem_singleton_self name)
    | none =>
      refine typeOfShape_namesIn ?_ ?_
      · exact fun name equal => absurd target (Node.target?_ref equal)
      · intro child member name mentioned
        exact List.mem_flatMap.mpr ⟨child, member, ih child member name mentioned⟩

theorem expanded_namesIn (node : Node) :
    NamesIn (· ∈ node.directReferences) (TypeExpr.expanded node) := by
  refine (hereditary_namesIn _).orNull node.nullable (typeOfShape_namesIn ?_ ?_)
  · exact fun name equal => Node.mem_directReferences.mpr (.inl equal)
  · intro child member name mentioned
    exact Node.mem_directReferences.mpr (.inr ⟨child, member, ofNode_namesIn child name mentioned⟩)

end Types

section Validators

variable {P : String → Prop} {known : String → Bool} {compile : Node → Validator.Compiled}

open Validator

-- Where the node has a validator, its names have the property.
def CompiledNamesIn (P : String → Prop) (compile : Node → Compiled) (node : Node) : Prop :=
  ∀ v, compile node = .ok v → NamesIn P v

theorem validatorOfReference_namesIn {name : String} {v : Validator} (holds : P name)
    (compiled : ofReference known name = .ok v) : NamesIn P v := by
  unfold ofReference at compiled
  split at compiled
  · cases compiled
    exact namesIn_lazy holds
  · cases compiled

theorem validatorOfScalar_namesIn (scalar : Scalar) : NamesIn P (Validator.ofScalar scalar) := by
  have number (rules : NumberRules) : NamesIn P (.number rules) := namesIn_leaf (by simp) rfl
  have numeric : NamesIn P (ofNumber scalar) := by
    unfold ofNumber
    dsimp only
    split
    · exact refine_namesIn _ (number _)
    · exact number _
  unfold Validator.ofScalar
  split
  · split <;> exact namesIn_leaf (by simp) rfl
  · exact numeric
  · exact numeric
  · exact namesIn_leaf (by simp) rfl
  · exact namesIn_leaf (by simp) rfl

theorem validatorOfLiterals_namesIn (values : List Json) : NamesIn P (Validator.ofLiterals values) := by
  refine Validator.unionOf_namesIn ?_
  intro v member
  obtain ⟨value, _, rfl⟩ := List.mem_map.mp member
  cases Literal.ofJson? value <;> exact namesIn_leaf (by simp) rfl

theorem all_namesIn {nodes : List Node} {vs : List Validator}
    (children : ∀ node ∈ nodes, CompiledNamesIn P compile node)
    (compiled : traverse Prod.snd (nodes.map fun node => (node, compile node)) = .ok vs) :
    ∀ v ∈ vs, NamesIn P v := by
  intro v member
  have related := List.forall₂_map_left_iff.mp (traverse_ok compiled)
  obtain ⟨node, inside, made⟩ := related_right related member
  exact children node inside v made

theorem validatorOfArray_namesIn {a : ArrayShape Node} {v : Validator}
    (children : ∀ child ∈ (Shape.array a).children, CompiledNamesIn P compile child)
    (compiled : Validator.ofShape known ((Shape.array a).map fun child => (child, compile child)) = .ok v) :
    NamesIn P v := by
  obtain ⟨items, places, low, high, unique⟩ := a
  obtain ⟨inPlaces, inItems⟩ := List.forall_mem_append.mp children
  have itemsNamed : CompiledNamesIn P compile items := inItems items (List.mem_singleton_self _)
  cases places with
  | none =>
    obtain ⟨rest, itemsCompiled, next⟩ := bind_ok compiled
    cases next
    exact refine_namesIn _ (namesIn_array.mpr (itemsNamed rest itemsCompiled))
  | some places =>
    obtain ⟨_, placesMade, next⟩ := bind_ok compiled
    obtain ⟨checks, placesCompiled, rfl⟩ := map_ok placesMade
    obtain ⟨rest, itemsCompiled, next⟩ := bind_ok next
    cases next
    have named := all_namesIn inPlaces placesCompiled
    show NamesIn P (Validator.ofArray items.isFalse _)
    cases items.isFalse with
    | true => exact refine_namesIn _ (namesIn_tuple.mpr ⟨named, by simp⟩)
    | false =>
      refine refine_namesIn _ (namesIn_tuple.mpr ⟨named, ?_⟩)
      intro last equal
      cases equal
      exact itemsNamed rest itemsCompiled

theorem validatorOfObject_namesIn {o : ObjectShape Node} {v : Validator}
    (children : ∀ child ∈ (Shape.object o).children, CompiledNamesIn P compile child)
    (compiled : Validator.ofShape known ((Shape.object o).map fun child => (child, compile child)) = .ok v) :
    NamesIn P v := by
  obtain ⟨properties, required, additional, low, high⟩ := o
  obtain ⟨fields, fieldsCompiled, next⟩ := bind_ok compiled
  obtain ⟨rest, restCompiled, next⟩ := bind_ok next
  cases next
  obtain ⟨declared, others⟩ := List.forall_mem_append.mp children
  have restNamed := others additional (List.mem_singleton_self _) rest restCompiled
  have related := List.forall₂_map_left_iff.mp (traverse_ok fieldsCompiled)
  refine refine_namesIn _ (namesIn_object ?_ ?_)
  · refine List.forall_mem_map.mpr ?_
    intro field member
    obtain ⟨property, inside, made⟩ := related_right related member
    obtain ⟨inner, compiled, rfl⟩ := map_ok made
    exact declared _ (List.mem_map_of_mem inside) inner compiled
  · intro other equal
    split at equal
    · cases equal
    · cases equal
      exact restNamed

theorem validatorOfShape_namesIn {shape : Shape Node} {v : Validator}
    (own : ∀ name, shape = .ref name → P name)
    (children : ∀ child ∈ shape.children, CompiledNamesIn P compile child)
    (compiled : Validator.ofShape known (shape.map fun child => (child, compile child)) = .ok v) :
    NamesIn P v := by
  cases shape with
  | bool value => cases value <;> cases compiled <;> exact namesIn_leaf (by simp) rfl
  | ref name => exact validatorOfReference_namesIn (own name rfl) compiled
  | scalar scalar => cases compiled; exact validatorOfScalar_namesIn scalar
  | array a => exact validatorOfArray_namesIn children compiled
  | object o => exact validatorOfObject_namesIn children compiled
  | composition op branches =>
    obtain ⟨checks, branchesCompiled, next⟩ := bind_ok compiled
    cases next
    have named := all_namesIn children branchesCompiled
    cases op with
    | oneOf => exact Validator.unionOf_namesIn named
    | anyOf => exact Validator.unionOf_namesIn named
    | allOf => exact Validator.intersectionOf_namesIn named
  | const value => cases compiled; exact validatorOfLiterals_namesIn [value]
  | enum values => cases compiled; exact validatorOfLiterals_namesIn values

theorem ofAnnotated_namesIn {node : Node} {shape : Compiled} {v : Validator}
    (compiled : ofAnnotated node shape = .ok v) (named : ∀ inner, shape = .ok inner → NamesIn P inner) :
    NamesIn P v := by
  unfold ofAnnotated at compiled
  split at compiled
  · cases compiled
  · obtain ⟨inner, made, rfl⟩ := map_ok compiled
    split
    · exact Validator.orNull_namesIn (named inner made)
    · exact named inner made

theorem compiled_ofNode_namesIn (known : String → Bool) (node : Node) :
    CompiledNamesIn (· ∈ node.occurrences) (Validator.ofNode known) node := by
  induction node using Node.children_induction with
  | step node ih =>
    intro v compiled
    rw [Validator.ofNode, Node.foldPaired_eq] at compiled
    refine ofAnnotated_namesIn compiled ?_
    intro inner made
    rw [Node.occurrences_eq]
    cases target : node.target? with
    | some name =>
      rw [target] at made
      exact validatorOfReference_namesIn (List.mem_singleton_self name) made
    | none =>
      rw [target] at made
      refine validatorOfShape_namesIn ?_ ?_ made
      · exact fun name equal => absurd target (Node.target?_ref equal)
      · intro child member w compiled name mentioned
        exact List.mem_flatMap.mpr ⟨child, member, ih child member w compiled name mentioned⟩

theorem compiled_expanded_namesIn (known : String → Bool) (node : Node) :
    CompiledNamesIn (· ∈ node.directReferences) (Validator.expanded known) node := by
  intro v compiled
  refine ofAnnotated_namesIn compiled ?_
  intro inner made
  refine validatorOfShape_namesIn ?_ ?_ made
  · exact fun name equal => Node.mem_directReferences.mpr (.inl equal)
  · intro child member w compiled name mentioned
    have occurs := compiled_ofNode_namesIn known child w compiled name mentioned
    exact Node.mem_directReferences.mpr (.inr ⟨child, member, occurs⟩)

end Validators

end ApiContract
