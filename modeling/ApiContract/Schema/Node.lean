import ApiContract.Distinct
import ApiContract.Json.Basic

namespace ApiContract

-- A node that has a name defines a named schema; everywhere else a named schema stands as a reference.

inductive ScalarType where
  | string
  | number
  | integer
  | boolean
  | null
deriving DecidableEq

namespace ScalarType

def parse? : String → Option ScalarType
  | "string" => some string
  | "number" => some number
  | "integer" => some integer
  | "boolean" => some boolean
  | "null" => some null
  | _ => none

def keyword : ScalarType → String
  | string => "string"
  | number => "number"
  | integer => "integer"
  | boolean => "boolean"
  | null => "null"

end ScalarType

structure Scalar where
  type : ScalarType
  format : Option String := none
  minLength : Option Nat := none
  maxLength : Option Nat := none
  pattern : Option String := none
  minimum : Option Double := none
  maximum : Option Double := none
  exclusiveMinimum : Option Double := none
  exclusiveMaximum : Option Double := none
  multipleOf : Option Double := none

def Scalar.hasRange (scalar : Scalar) : Bool :=
  scalar.minimum.isSome || scalar.maximum.isSome || scalar.exclusiveMinimum.isSome
    || scalar.exclusiveMaximum.isSome

structure ArrayShape (N : Type) where
  items : N
  places : Option (List N) := none
  minItems : Option Nat := none
  maxItems : Option Nat := none
  uniqueItems : Bool := false

structure ObjectShape (N : Type) where
  properties : List (String × N)
  required : List String
  additional : N
  minProperties : Option Nat := none
  maxProperties : Option Nat := none

def ObjectShape.isRequired {N : Type} (object : ObjectShape N) (name : String) : Bool :=
  object.required.contains name

inductive Composition where
  | oneOf
  | anyOf
  | allOf
deriving DecidableEq

def Composition.keyword : Composition → String
  | oneOf => "oneOf"
  | anyOf => "anyOf"
  | allOf => "allOf"

inductive Shape (N : Type) where
  | bool (value : Bool)
  | ref (name : String)
  | scalar (scalar : Scalar)
  | array (array : ArrayShape N)
  | object (object : ObjectShape N)
  | composition (op : Composition) (branches : List N)
  | const (value : Json)
  | enum (values : List Json)

namespace Shape

variable {N M : Type}

def map (f : N → M) : Shape N → Shape M
  | bool value => bool value
  | ref name => ref name
  | scalar s => scalar s
  | array a => array ⟨f a.items, a.places.map (·.map f), a.minItems, a.maxItems, a.uniqueItems⟩
  | object o =>
    object ⟨o.properties.map fun property => (property.1, f property.2), o.required, f o.additional,
      o.minProperties, o.maxProperties⟩
  | composition op branches => composition op (branches.map f)
  | const value => const value
  | enum values => enum values

def children : Shape N → List N
  | array a => a.places.getD [] ++ [a.items]
  | object o => o.properties.map Prod.snd ++ [o.additional]
  | composition _ branches => branches
  | _ => []

theorem children_map (f : N → M) (shape : Shape N) : (shape.map f).children = shape.children.map f := by
  cases shape with
  | array a => cases h : a.places <;> simp [map, children, h]
  | object o => simp [map, children, Function.comp_def]
  | _ => rfl

end Shape

structure Node where
  name : Option String := none
  title : Option String := none
  description : Option String := none
  deprecated : Bool := false
  nullable : Bool := false
  unsupported : List String := []
  shape : Shape Node

namespace Node

section Fold

variable {α : Type} (algebra : Node → Shape α → α)

mutual
def fold : Node → α
  | ⟨name, title, description, deprecated, nullable, unsupported, shape⟩ =>
    algebra ⟨name, title, description, deprecated, nullable, unsupported, shape⟩ (foldShape shape)
def foldShape : Shape Node → Shape α
  | .bool value => .bool value
  | .ref name => .ref name
  | .scalar s => .scalar s
  | .array ⟨items, none, low, high, unique⟩ => .array ⟨fold items, none, low, high, unique⟩
  | .array ⟨items, some places, low, high, unique⟩ =>
    .array ⟨fold items, some (foldAll places), low, high, unique⟩
  | .object ⟨properties, required, additional, low, high⟩ =>
    .object ⟨foldEntries properties, required, fold additional, low, high⟩
  | .composition op branches => .composition op (foldAll branches)
  | .const value => .const value
  | .enum values => .enum values
def foldAll : List Node → List α
  | [] => []
  | node :: rest => fold node :: foldAll rest
def foldEntries : List (String × Node) → List (String × α)
  | [] => []
  | (name, node) :: rest => (name, fold node) :: foldEntries rest
end

theorem foldAll_eq_map (nodes : List Node) : foldAll algebra nodes = nodes.map (fold algebra) := by
  induction nodes with
  | nil => rfl
  | cons node rest ih => simp [foldAll, ih]

theorem foldEntries_eq_map (entries : List (String × Node)) :
    foldEntries algebra entries = entries.map fun entry => (entry.1, fold algebra entry.2) := by
  induction entries with
  | nil => rfl
  | cons entry rest ih => simp [foldEntries, ih]

theorem foldShape_eq_map (shape : Shape Node) :
    foldShape algebra shape = shape.map (fold algebra) := by
  cases shape with
  | array a =>
    obtain ⟨items, places, low, high, unique⟩ := a
    cases places <;> simp [foldShape, Shape.map, foldAll_eq_map]
  | object o => simp [foldShape, Shape.map, foldEntries_eq_map]
  | composition op branches => simp [foldShape, Shape.map, foldAll_eq_map]
  | _ => rfl

theorem fold_eq (node : Node) : fold algebra node = algebra node (node.shape.map (fold algebra)) := by
  cases node
  rw [fold, foldShape_eq_map]

end Fold

section Paired

variable {α : Type} (algebra : Node → Shape (Node × α) → α)

def foldPaired (node : Node) : α :=
  (fold (fun node shape => (node, algebra node shape)) node).2

theorem foldPaired_eq (node : Node) :
    foldPaired algebra node =
      algebra node (node.shape.map fun child => (child, foldPaired algebra child)) := by
  have paired (child : Node) : fold (fun node shape => (node, algebra node shape)) child
      = (child, foldPaired algebra child) := by
    rw [foldPaired, fold_eq]
  have same : fold (fun node shape => (node, algebra node shape))
      = fun child => (child, foldPaired algebra child) := funext paired
  rw [foldPaired, fold_eq, same]

end Paired

def ofShape (shape : Shape Node) : Node := { shape := shape }

def any : Node := ofShape (.bool true)

def never : Node := ofShape (.bool false)

def reference (name : String) : Node := ofShape (.ref name)

def scalar (type : ScalarType) : Node := ofShape (.scalar { type := type })

def string : Node := scalar .string

def list (items : Node) : Node := ofShape (.array ⟨items, none, none, none, false⟩)

def record (properties : List (String × Node)) (required : List String) : Node :=
  ofShape (.object ⟨properties, required, any, none, none⟩)

def closed (node : Node) : Node :=
  match node.shape with
  | .object o => { node with shape := .object { o with additional := never } }
  | _ => node

def isFalse (node : Node) : Bool :=
  match node.shape with
  | .bool false => !node.nullable
  | _ => false

def target? (node : Node) : Option String :=
  match node.name, node.shape with
  | some name, _ => some name
  | none, .ref name => some name
  | none, _ => none

def displayName? (node : Node) : Option String := node.title.or node.name

def children (node : Node) : List Node := node.shape.children

-- A node that has a name counts as this name, whatever is below it.
def occurrences : Node → List String :=
  fold fun node shape => match node.target? with
    | some name => [name]
    | none => shape.children.flatten

def directReferences (node : Node) : List String :=
  let own := match node.shape with
    | .ref name => [name]
    | _ => []
  distinct (own ++ node.children.flatMap occurrences)

def propertyOrder : Node → List (List String) :=
  fold fun _ shape => match shape with
    | .object o => o.properties.map Prod.fst :: shape.children.flatten
    | _ => shape.children.flatten

theorem sizeOf_shapeChild {shape : Shape Node} {child : Node} (member : child ∈ shape.children) :
    sizeOf child < sizeOf shape := by
  cases shape with
  | array a =>
    obtain ⟨items, places, low, high, unique⟩ := a
    simp only [Shape.array.sizeOf_spec, ArrayShape.mk.sizeOf_spec]
    rcases List.mem_append.mp member with inPlaces | inItems
    · cases places with
      | none => cases inPlaces
      | some places =>
        have smaller := List.sizeOf_lt_of_mem (show child ∈ places from inPlaces)
        simp only [Option.some.sizeOf_spec]
        omega
    · have same : child = items := List.mem_singleton.mp inItems
      subst same
      omega
  | object o =>
    obtain ⟨properties, required, additional, low, high⟩ := o
    simp only [Shape.object.sizeOf_spec, ObjectShape.mk.sizeOf_spec]
    rcases List.mem_append.mp member with inProperties | inAdditional
    · obtain ⟨property, inside, rfl⟩ := List.mem_map.mp inProperties
      have smaller := List.sizeOf_lt_of_mem (show property ∈ properties from inside)
      have second : sizeOf property.2 < sizeOf property := by
        cases property
        simp only [Prod.mk.sizeOf_spec]
        omega
      omega
    · have same : child = additional := List.mem_singleton.mp inAdditional
      subst same
      omega
  | composition op branches =>
    have smaller := List.sizeOf_lt_of_mem (show child ∈ branches from member)
    simp only [Shape.composition.sizeOf_spec]
    omega
  | _ => cases member

theorem children_induction {P : Node → Prop} (step : ∀ node, (∀ child ∈ node.children, P child) → P node)
    (node : Node) : P node :=
  step node fun child _member => children_induction step child
termination_by sizeOf node
decreasing_by
  have smaller := sizeOf_shapeChild _member
  obtain ⟨name, title, description, deprecated, nullable, unsupported, shape⟩ := node
  dsimp only at smaller
  simp only [Node.mk.sizeOf_spec]
  omega

end Node

def ObjectShape.isClosed (object : ObjectShape Node) : Bool := object.additional.isFalse

end ApiContract
