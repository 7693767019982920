import ApiContract.Proofs.Constructors
import ApiContract.Proofs.LoadedDescriptions
import ApiContract.Proofs.SchemaReferences
import ApiContract.Validator.Check
import ApiContract.Validator.OfSchema

namespace ApiContract

-- The node and the validator of a schema from one step of the schema, so that facts about compiled
-- schemas need neither the traversal of lowering nor that of the validator.

section Shapes

variable {ε N M P : Type}

theorem Shape.map_map (f : N → M) (g : M → P) (shape : Shape N) : (shape.map f).map g = shape.map fun n => g (f n) := by
  cases shape with
  | array a =>
    obtain ⟨items, places, low, high, unique⟩ := a
    cases places <;> simp [Shape.map, Function.comp_def]
  | object o => simp [Shape.map, Function.comp_def]
  | composition op branches => simp [Shape.map, Function.comp_def]
  | _ => rfl

theorem Shape.map_id (shape : Shape N) : (shape.map fun child => child) = shape := by
  cases shape with
  | array a =>
    obtain ⟨items, places, low, high, unique⟩ := a
    cases places <;> simp [Shape.map]
  | object o => simp [Shape.map]
  | composition op branches => simp [Shape.map]
  | _ => rfl

theorem Shape.eq_ref_of_map {f : N → M} {shape : Shape N} {name : String} (equal : shape.map f = .ref name) :
    shape = .ref name := by
  cases shape with
  | ref other => cases equal; rfl
  | _ => cases equal

theorem Shape.traverse_map {f : N → Except ε M} {g : N → M} {shape : Shape N}
    (each : ∀ child ∈ shape.children, f child = .ok (g child)) : shape.traverse f = .ok (shape.map g) := by
  cases shape with
  | array a =>
    obtain ⟨items, places, low, high, unique⟩ := a
    obtain ⟨inPlaces, inItems⟩ := List.forall_mem_append.mp each
    have last : f items = .ok (g items) := inItems items (List.mem_singleton_self _)
    cases places with
    | none =>
      show (f items).map _ = _
      rw [last]
      rfl
    | some places =>
      have all : ApiContract.traverse f places = .ok (places.map g) :=
        traverse_of_related (List.forall₂_same.mpr inPlaces)
      show (f items).bind (fun _ => (ApiContract.traverse f places).bind _) = _
      rw [last, all]
      rfl
  | object o =>
    obtain ⟨properties, required, additional, low, high⟩ := o
    obtain ⟨declared, others⟩ := List.forall_mem_append.mp each
    have rest : f additional = .ok (g additional) := others additional (List.mem_singleton_self _)
    have all : ApiContract.traverse (fun property => (f property.2).map fun node => (property.1, node)) properties
        = .ok (properties.map fun property => (property.1, g property.2)) := by
      refine traverse_of_related (List.forall₂_same.mpr fun property inside => ?_)
      rw [declared property.2 (List.mem_map_of_mem inside)]
      rfl
    show (ApiContract.traverse _ properties).bind (fun _ => (f additional).bind _) = _
    rw [all, rest]
    rfl
  | composition op branches =>
    have all : ApiContract.traverse f branches = .ok (branches.map g) :=
      traverse_of_related (List.forall₂_same.mpr each)
    show (ApiContract.traverse f branches).bind _ = _
    rw [all]
    rfl
  | _ => rfl

end Shapes

namespace Validator

section Assembly

variable {known : String → Bool}

-- The validator of a shape whose children have theirs.
def assemble : Shape (Node × Validator) → Validator
  | .bool true => unknown
  | .bool false => never
  | .ref name => lazy name
  | .scalar s => ofScalar s
  | .array a => ofArray a.items.1.isFalse
    ⟨a.items.2, a.places.map fun places => places.map Prod.snd, a.minItems, a.maxItems, a.uniqueItems⟩
  | .object o => ofObject o.additional.1.isFalse
    ⟨o.properties.map fun property => (property.1, property.2.2), o.required, o.additional.2,
      o.minProperties, o.maxProperties⟩
  | .composition op branches => ofComposition op (branches.map Prod.snd)
  | .const value => ofLiterals [value]
  | .enum values => ofLiterals values

theorem traverse_paired {pairs : List (Node × Validator)}
    (each : ∀ pair ∈ pairs, ofNode known pair.1 = .ok pair.2) :
    traverse Prod.snd ((pairs.map Prod.fst).map fun child => (child, ofNode known child))
      = .ok (pairs.map Prod.snd) := by
  refine traverse_of_related ?_
  rw [List.map_map, List.forall₂_map_left_iff, List.forall₂_same]
  exact each

theorem ofShape_assemble {paired : Shape (Node × Validator)}
    (each : ∀ pair ∈ paired.children, ofNode known pair.1 = .ok pair.2)
    (refers : ∀ name, paired = .ref name → known name = true) :
    ofShape known ((paired.map Prod.fst).map fun child => (child, ofNode known child)) = .ok (assemble paired) := by
  cases paired with
  | bool value => cases value <;> rfl
  | ref name => exact if_pos (refers name rfl)
  | scalar s => rfl
  | array a =>
    obtain ⟨items, places, low, high, unique⟩ := a
    obtain ⟨inPlaces, inItems⟩ := List.forall_mem_append.mp each
    have last : ofNode known items.1 = .ok items.2 := inItems items (List.mem_singleton_self _)
    cases places with
    | none =>
      show (ofNode known items.1).bind _ = _
      rw [last]
      rfl
    | some places =>
      have all : traverse Prod.snd ((places.map Prod.fst).map fun child => (child, ofNode known child))
          = .ok (places.map Prod.snd) := traverse_paired inPlaces
      show ((traverse Prod.snd _).map some).bind (fun _ => (ofNode known items.1).bind _) = _
      rw [all, last]
      rfl
  | object o =>
    obtain ⟨properties, required, additional, low, high⟩ := o
    obtain ⟨declared, others⟩ := List.forall_mem_append.mp each
    have rest : ofNode known additional.1 = .ok additional.2 := others additional (List.mem_singleton_self _)
    have all : traverse (fun property : String × Node × Compiled => property.2.2.map fun v => (property.1, v))
        ((properties.map fun property => (property.1, property.2.1)).map
          fun property => (property.1, property.2, ofNode known property.2))
        = .ok (properties.map fun property => (property.1, property.2.2)) := by
      refine traverse_of_related ?_
      rw [List.map_map, List.forall₂_map_left_iff, List.forall₂_same]
      intro property inside
      show (ofNode known property.2.1).map _ = _
      rw [declared property.2 (List.mem_map_of_mem inside)]
      rfl
    show (traverse _ _).bind (fun _ => (ofNode known additional.1).bind _) = _
    rw [all, rest]
    rfl
  | composition op branches =>
    have all : traverse Prod.snd ((branches.map Prod.fst).map fun child => (child, ofNode known child))
        = .ok (branches.map Prod.snd) := traverse_paired each
    show (traverse Prod.snd _).bind _ = _
    rw [all]
    rfl
  | const value => rfl
  | enum values => rfl

-- Where a shape has a validator, its children have theirs.
theorem ofShape_children {shape : Shape Node} {v : Validator}
    (compiled : ofShape known (shape.map fun child => (child, ofNode known child)) = .ok v) :
    (∀ child ∈ shape.children, ∃ w, ofNode known child = .ok w) ∧ ∀ name, shape = .ref name → known name = true := by
  have member {nodes : List Node} {validators : List Validator}
      (made : traverse Prod.snd (nodes.map fun child => (child, ofNode known child)) = .ok validators) :
      ∀ child ∈ nodes, ∃ w, ofNode known child = .ok w := by
    intro child inside
    obtain ⟨w, _, one⟩ := related_left (List.forall₂_map_left_iff.mp (traverse_ok made)) inside
    exact ⟨w, one⟩
  cases shape with
  | bool | scalar | const | enum => exact ⟨List.forall_mem_nil _, nofun⟩
  | ref name =>
    refine ⟨List.forall_mem_nil _, fun other equal => ?_⟩
    cases equal
    by_contra missing
    have failed : ofReference known name = .error (.unresolved name) := if_neg missing
    cases failed.symm.trans compiled
  | array a =>
    obtain ⟨items, places, low, high, unique⟩ := a
    refine ⟨?_, nofun⟩
    cases places with
    | none =>
      obtain ⟨rest, itemsMade, _⟩ := bind_ok compiled
      exact List.forall_mem_singleton.mpr ⟨rest, itemsMade⟩
    | some places =>
      obtain ⟨_, placesMade, next⟩ := bind_ok compiled
      obtain ⟨checks, traversed, _⟩ := map_ok placesMade
      obtain ⟨rest, itemsMade, _⟩ := bind_ok next
      exact List.forall_mem_append.mpr ⟨member traversed, List.forall_mem_singleton.mpr ⟨rest, itemsMade⟩⟩
  | object o =>
    obtain ⟨properties, required, additional, low, high⟩ := o
    refine ⟨?_, nofun⟩
    obtain ⟨fields, fieldsMade, next⟩ := bind_ok compiled
    obtain ⟨rest, restMade, _⟩ := bind_ok next
    refine List.forall_mem_append.mpr ⟨List.forall_mem_map.mpr ?_, List.forall_mem_singleton.mpr ⟨rest, restMade⟩⟩
    intro property inside
    obtain ⟨field, _, one⟩ := related_left (List.forall₂_map_left_iff.mp (traverse_ok fieldsMade)) inside
    obtain ⟨w, made, _⟩ := map_ok one
    exact ⟨w, made⟩
  | composition op branches =>
    obtain ⟨checks, traversed, _⟩ := bind_ok compiled
    exact ⟨member traversed, nofun⟩

end Assembly

def orNullIf (nullable : Bool) (v : Validator) : Validator := if nullable then orNull v else v

-- A node without a name of its own is compiled in the same way wherever it stands.
theorem ofNode_anonymous {known : String → Bool} {node : Node} (anonymous : node.name = none) :
    ofNode known node = expanded known node := by
  rw [ofNode, Node.foldPaired_eq, expanded]
  congr 1
  cases target : node.target? with
  | none => rfl
  | some name =>
    rw [Node.target?_anonymous anonymous target]
    rfl

section Nodes

variable {known : String → Bool} {node : Node} {v : Validator}

-- The validator of a schema where it occurs inside another. Where there is none, anything may stand here.
def occurring (known : String → Bool) (node : Node) : Validator := (ofNode known node).toOption.getD unknown

theorem occurring_eq (compiled : ofNode known node = .ok v) : occurring known node = v := by
  rw [occurring, compiled]
  rfl

-- The validator that a shape has if its children have theirs.
def ofChildren (known : String → Bool) (shape : Shape Node) : Validator :=
  assemble (shape.map fun child => (child, occurring known child))

theorem ofShape_ok {shape : Shape Node} :
    ofShape known (shape.map fun child => (child, ofNode known child)) = .ok v ↔
      (∀ child ∈ shape.children, ∃ w, ofNode known child = .ok w) ∧
        (∀ name, shape = .ref name → known name = true) ∧ v = ofChildren known shape := by
  have made (children : ∀ child ∈ shape.children, ∃ w, ofNode known child = .ok w)
      (refers : ∀ name, shape = .ref name → known name = true) :
      ofShape known (shape.map fun child => (child, ofNode known child)) = .ok (ofChildren known shape) := by
    have own : (shape.map fun child => (child, occurring known child)).map Prod.fst = shape :=
      (Shape.map_map _ _ _).trans shape.map_id
    have paired : ofShape known (((shape.map fun child => (child, occurring known child)).map Prod.fst).map
        fun child => (child, ofNode known child)) = .ok (ofChildren known shape) := ofShape_assemble ?_ ?_
    · rwa [own] at paired
    · rw [Shape.children_map, List.forall_mem_map]
      intro child inside
      obtain ⟨w, compiled⟩ := children child inside
      rw [compiled, occurring_eq compiled]
    · exact fun name equal => refers name (Shape.eq_ref_of_map equal)
  constructor
  · intro compiled
    obtain ⟨children, refers⟩ := ofShape_children compiled
    exact ⟨children, refers, Except.ok.inj (compiled.symm.trans (made children refers))⟩
  · rintro ⟨children, refers, rfl⟩
    exact made children refers

theorem ofAnnotated_ok {shape : Compiled} :
    ofAnnotated node shape = .ok v ↔ node.unsupported = [] ∧ ∃ w, shape = .ok w ∧ v = orNullIf node.nullable w := by
  unfold ofAnnotated
  cases node.unsupported with
  | cons keyword others => simp
  | nil =>
    constructor
    · intro compiled
      obtain ⟨w, shaped, rfl⟩ := map_ok compiled
      exact ⟨rfl, w, shaped, rfl⟩
    · rintro ⟨_, w, rfl, rfl⟩
      rfl

-- When a node has a validator, and what it is then.
theorem expanded_ok : expanded known node = .ok v ↔ node.unsupported = [] ∧
    (∀ child ∈ node.children, ∃ w, ofNode known child = .ok w) ∧
      (∀ name, node.shape = .ref name → known name = true) ∧ v = orNullIf node.nullable (ofChildren known node.shape) := by
  rw [expanded, ofAnnotated_ok]
  refine and_congr_right fun _ => ?_
  constructor
  · rintro ⟨w, shaped, rfl⟩
    obtain ⟨children, refers, rfl⟩ := ofShape_ok.mp shaped
    exact ⟨children, refers, rfl⟩
  · rintro ⟨children, refers, rfl⟩
    exact ⟨_, ofShape_ok.mpr ⟨children, refers, rfl⟩, rfl⟩

theorem expanded_leaf (known : String → Bool) (supported : node.unsupported = []) (leaf : node.shape.children = [])
    (plain : ∀ name, node.shape ≠ .ref name) :
    expanded known node = .ok (orNullIf node.nullable (ofChildren known node.shape)) := by
  refine expanded_ok.mpr ⟨supported, ?_, fun name equal => absurd equal (plain name), rfl⟩
  rw [Node.children, leaf]
  exact List.forall_mem_nil _

theorem orNullIf_pass [Pattern.Engine] {resolve : String → Check} {nullable : Bool} {value : Json} :
    evaluate resolve (orNullIf nullable v) value = .ok [] ↔
      value = .null ∧ nullable = true ∨ evaluate resolve v value = .ok [] := by
  cases nullable with
  | false => simp [orNullIf]
  | true => simpa [orNullIf] using orNull_pass

-- Null passes if the node says so; what else passes is up to its shape.
theorem expanded_pass [Pattern.Engine] (compiled : expanded known node = .ok v)
    {table : List (String × Validator)} {value : Json} :
    check table v value = .ok [] ↔ value = .null ∧ node.nullable = true ∨
      evaluate (following table value) (ofChildren known node.shape) value = .ok [] := by
  obtain ⟨_, _, _, rfl⟩ := expanded_ok.mp compiled
  exact orNullIf_pass

end Nodes

end Validator

namespace Schema

-- What a schema is lowered to, and the validator of that. Where there is none, anything may stand here:
-- `Compiles` says that there is one.
def node (schema : Schema) : Node := schema.lower.toOption.getD (.ofShape (.bool true))

variable (known : String → Bool)

def validator (schema : Schema) : Validator := (Validator.ofNode known schema.node).toOption.getD .unknown

def compiled (schema : Schema) : Node × Validator := (schema.node, schema.validator known)

structure Compiles (schema : Schema) : Prop where
  lowered : schema.lower = .ok schema.node
  validated : Validator.ofNode known schema.node = .ok (schema.validator known)

variable {known} {schema : Schema} {shape : Shape Schema}

theorem node_eq {node : Node} (lowered : schema.lower = .ok node) : schema.node = node := by
  rw [Schema.node, lowered]
  rfl

theorem compiles_of {node : Node} {v : Validator} (lowered : schema.lower = .ok node)
    (validated : Validator.ofNode known node = .ok v) : schema.Compiles known ∧ schema.validator known = v := by
  have same : schema.validator known = v := by
    rw [validator, node_eq lowered, validated]
    rfl
  refine ⟨⟨?_, ?_⟩, same⟩
  · rw [lowered, node_eq lowered]
  · rw [node_eq lowered, validated, same]

-- What is said of a schema apart from its shape.
def isNullable : Schema → Bool
  | .bool _ => false
  | .object k => k.isNullable

def unsupported : Schema → List String
  | .bool _ => []
  | .object k => k.unsupported

theorem annotate_nullable (shape : Shape Node) : (schema.annotate shape).nullable = schema.isNullable := by
  cases schema <;> rfl

theorem annotate_unsupported (shape : Shape Node) : (schema.annotate shape).unsupported = schema.unsupported := by
  cases schema <;> rfl

theorem annotate_shape (shape : Shape Node) : (schema.annotate shape).shape = shape := by
  cases schema <;> rfl

theorem ofNode_annotate (shape : Shape Node) : Validator.ofNode known (schema.annotate shape) =
    Validator.ofAnnotated (schema.annotate shape)
      (Validator.ofShape known (shape.map fun child => (child, Validator.ofNode known child))) := by
  rw [Validator.ofNode_anonymous (annotate_anonymous schema shape), Validator.expanded, annotate_shape]

theorem lower_of_children (stepped : schema.step = .ok shape)
    (each : ∀ child ∈ shape.children, child.lower = .ok child.node) :
    schema.lower = .ok (schema.annotate (shape.map node)) := by
  rw [Schema.lower_eq, stepped]
  show (shape.traverse Schema.lower).map schema.annotate = _
  rw [Shape.traverse_map each]
  rfl

theorem lower_children (stepped : schema.step = .ok shape) {node : Node} (lowered : schema.lower = .ok node) :
    ∀ child ∈ shape.children, child.lower = .ok child.node := by
  rw [Schema.lower_eq, stepped] at lowered
  obtain ⟨inner, made, _⟩ := map_ok lowered
  intro child inside
  obtain ⟨node, _, one⟩ := related_left (Shape.traverse_related made).children inside
  rw [one, node_eq one]

-- A schema has a validator if its children have one and no keyword stands in the way.
theorem validated_of_children (stepped : schema.step = .ok shape)
    (refers : ∀ name, shape = .ref name → known name = true)
    (supported : schema.unsupported = []) (each : ∀ child ∈ shape.children, child.Compiles known) :
    schema.Compiles known ∧ schema.validator known =
      Validator.orNullIf schema.isNullable (Validator.assemble (shape.map (compiled known))) := by
  refine compiles_of (lower_of_children stepped fun child inside => (each child inside).lowered) ?_
  have shaped : Validator.ofShape known ((shape.map node).map fun child => (child, Validator.ofNode known child))
      = .ok (Validator.assemble (shape.map (compiled known))) := by
    refine Validator.ofShape_ok.mpr ⟨?_, ?_, ?_⟩
    · rw [Shape.children_map]
      exact List.forall_mem_map.mpr fun child inside => ⟨_, (each child inside).validated⟩
    · exact fun name equal => refers name (Shape.eq_ref_of_map equal)
    · rw [Validator.ofChildren, Shape.map_map]
      rfl
  rw [ofNode_annotate, Validator.ofAnnotated_ok, annotate_unsupported, annotate_nullable]
  exact ⟨supported, _, shaped, rfl⟩

theorem children_compile (stepped : schema.step = .ok shape) (compiles : schema.Compiles known) :
    schema.unsupported = [] ∧ (∀ child ∈ shape.children, child.Compiles known) ∧
      ∀ name, shape = .ref name → known name = true := by
  have lowered := lower_children stepped compiles.lowered
  have same : schema.node = schema.annotate (shape.map node) := node_eq (lower_of_children stepped lowered)
  have validated := compiles.validated
  rw [same, ofNode_annotate, Validator.ofAnnotated_ok, annotate_unsupported] at validated
  obtain ⟨supported, v, shaped, _⟩ := validated
  obtain ⟨children, refers⟩ := Validator.ofShape_children shaped
  refine ⟨supported, ?_, ?_⟩
  · intro child inside
    obtain ⟨w, made⟩ := children child.node (by rw [Shape.children_map]; exact List.mem_map_of_mem inside)
    exact (compiles_of (lowered child inside) made).1
  · rintro name rfl
    exact refers name rfl

theorem compiles_iff (stepped : schema.step = .ok shape) (plain : ∀ name, shape ≠ .ref name) :
    schema.Compiles known ↔ schema.unsupported = [] ∧ ∀ child ∈ shape.children, child.Compiles known := by
  constructor
  · intro compiles
    obtain ⟨supported, each, _⟩ := children_compile stepped compiles
    exact ⟨supported, each⟩
  · rintro ⟨supported, each⟩
    exact (validated_of_children stepped (fun name equal => absurd equal (plain name)) supported each).1

theorem validator_eq (stepped : schema.step = .ok shape) (compiles : schema.Compiles known) :
    schema.validator known = Validator.orNullIf schema.isNullable (Validator.assemble (shape.map (compiled known))) := by
  obtain ⟨supported, each, refers⟩ := children_compile stepped compiles
  exact (validated_of_children stepped refers supported each).2

-- Whether the value passes the validator that the schema is compiled to.
def accepts [Pattern.Engine] (known : String → Bool) (table : List (String × Validator)) (schema : Schema)
    (value : Json) : Bool :=
  match schema.lower with
  | .error _ => false
  | .ok node => match Validator.expanded known node with
    | .error _ => false
    | .ok v => match Validator.check table v value with
      | .ok [] => true
      | _ => false

theorem accepts_iff [Pattern.Engine] {table : List (String × Validator)} {value : Json} :
    schema.accepts known table value = true ↔
      schema.Compiles known ∧ Validator.check table (schema.validator known) value = .ok [] := by
  unfold accepts
  constructor
  · intro accepted
    split at accepted
    · cases accepted
    · rename_i node lowered
      split at accepted
      · cases accepted
      · rename_i v validated
        rw [← Validator.ofNode_anonymous (lower_anonymous lowered)] at validated
        obtain ⟨compiles, same⟩ := compiles_of lowered validated
        split at accepted
        · rename_i passed
          exact ⟨compiles, same ▸ passed⟩
        · cases accepted
  · rintro ⟨⟨lowered, validated⟩, passed⟩
    rw [Validator.ofNode_anonymous (lower_anonymous lowered)] at validated
    simp only [lowered, validated, passed]

end Schema

end ApiContract
