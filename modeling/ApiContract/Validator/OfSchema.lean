import ApiContract.Error
import ApiContract.Schema.Node
import ApiContract.Traverse
import ApiContract.Validator.Basic

namespace ApiContract

-- A schema with a keyword that no validator can express has none, and the
-- first such keyword that is met is the error.

namespace Validator

-- The stricter of two bounds; of two equal ones the exclusive one.
def tighter (isStricter : Double → Double → Bool) : Option Double → Option Double → Option Bound
  | some low, some strict => some (if isStricter low strict then .inclusive low else .strict strict)
  | none, some strict => some (.strict strict)
  | some low, none => some (.inclusive low)
  | none, none => none

def lowerBound (scalar : Scalar) : Option Bound :=
  tighter (fun a b => b.value < a.value) scalar.minimum scalar.exclusiveMinimum

def upperBound (scalar : Scalar) : Option Bound :=
  tighter (fun a b => a.value < b.value) scalar.maximum scalar.exclusiveMaximum

-- Bounds beside `multipleOf` are checked as a refinement.
def ofNumber (scalar : Scalar) : Validator :=
  let integer := decide (scalar.type = .integer)
  if scalar.multipleOf.isSome && scalar.hasRange then
    refine [.range (lowerBound scalar) (upperBound scalar)]
      (number { integer := integer, multipleOf := scalar.multipleOf })
  else number ⟨integer, lowerBound scalar, upperBound scalar, scalar.multipleOf⟩

def ofScalar (scalar : Scalar) : Validator :=
  match scalar.type with
  | .string =>
    if scalar.format == some "binary" then binary
    else string ⟨scalar.format, scalar.minLength, scalar.maxLength, scalar.pattern⟩
  | .number => ofNumber scalar
  | .integer => ofNumber scalar
  | .boolean => boolean
  | .null => null

def itemLimits {N : Type} (a : ArrayShape N) : List Refinement :=
  (a.minItems.map .minItems).toList ++ (a.maxItems.map .maxItems).toList

def ofArray (closed : Bool) (a : ArrayShape Validator) : Validator :=
  let unique := if a.uniqueItems then [Refinement.uniqueItems] else []
  match a.places with
  | none => refine unique (array a.items a.minItems a.maxItems)
  | some places =>
    if closed then refine unique (tuple places none)
    else refine (itemLimits a ++ unique) (tuple places (some a.items))

def ofObject (closed : Bool) (o : ObjectShape Validator) : Validator :=
  let fields := o.properties.map fun property =>
    (⟨property.1, property.2, !o.isRequired property.1⟩ : Field Validator)
  refine ((o.minProperties.map .minProperties).toList ++ (o.maxProperties.map .maxProperties).toList)
    (object fields (if closed then .strict else .catchall o.additional))

def ofLiterals (values : List Json) : Validator :=
  unionOf (values.map fun value => ((Literal.ofJson? value).map literal).getD unknown)

def ofComposition (op : Composition) (branches : List Validator) : Validator :=
  match op with
  | .oneOf => unionOf branches
  | .anyOf => unionOf branches
  | .allOf => intersectionOf branches

abbrev Compiled := Except CompileError Validator

def ofReference (known : String → Bool) (name : String) : Compiled :=
  if known name then .ok (lazy name) else .error (.unresolved name)

def ofShape (known : String → Bool) : Shape (Node × Compiled) → Compiled
  | .bool true => .ok unknown
  | .bool false => .ok never
  | .ref name => ofReference known name
  | .scalar scalar => .ok (ofScalar scalar)
  | .array a => do
    let places ← match a.places with
      | none => pure none
      | some places => (traverse Prod.snd places).map some
    let items ← a.items.2
    return ofArray a.items.1.isFalse ⟨items, places, a.minItems, a.maxItems, a.uniqueItems⟩
  | .object o => do
    let properties ← traverse (fun property : String × Node × Compiled =>
      property.2.2.map fun v => (property.1, v)) o.properties
    let additional ← o.additional.2
    return ofObject o.additional.1.isFalse
      ⟨properties, o.required, additional, o.minProperties, o.maxProperties⟩
  | .composition op branches => do
    let branches ← traverse Prod.snd branches
    return ofComposition op branches
  | .const value => .ok (ofLiterals [value])
  | .enum values => .ok (ofLiterals values)

def ofAnnotated (node : Node) (shape : Compiled) : Compiled :=
  match node.unsupported with
  | keyword :: _ => .error (.unsupported (.keyword keyword))
  | [] => shape.map fun v => if node.nullable then orNull v else v

def ofNode (known : String → Bool) : Node → Compiled :=
  Node.foldPaired fun node shape =>
    ofAnnotated node (match node.target? with
      | some name => ofReference known name
      | none => ofShape known shape)

def expanded (known : String → Bool) (node : Node) : Compiled :=
  ofAnnotated node (ofShape known (node.shape.map fun child => (child, ofNode known child)))

end Validator

end ApiContract
