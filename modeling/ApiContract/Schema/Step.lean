import ApiContract.Error
import ApiContract.Schema.Keywords
import ApiContract.Text.Words

namespace ApiContract

-- One step settles what a schema is: a reference first, then `oneOf`, `anyOf`, `allOf`, a list of
-- several types, `const`, `enum`, `type`, and last what the other keywords hint at. Every child that
-- a step leaves is smaller than the schema, so stepping through all of them ends.

def replaceAll (first second result : Char) : List Char → List Char
  | [] => []
  | [c] => [c]
  | c :: d :: rest =>
    if c = first ∧ d = second then result :: replaceAll first second result rest
    else c :: replaceAll first second result (d :: rest)

-- `~1` is a slash, then `~0` is a tilde.
def unescapePointer (name : List Char) : List Char :=
  replaceAll '~' '0' '~' (replaceAll '~' '1' '/' name)

def componentName (reference : String) : Except CompileError String :=
  match Text.dropStart? componentStart.toList reference.toList with
  | some name =>
    if name.isEmpty || name.contains '/' then .error (.document (.foreignReference reference))
    else .ok (String.ofList (unescapePointer name))
  | none => .error (.document (.foreignReference reference))

namespace Keywords

def composition? (k : Keywords Schema) : Option (Composition × List Schema) :=
  match k.oneOf, k.anyOf, k.allOf with
  | some branches, _, _ => some (.oneOf, branches)
  | none, some branches, _ => some (.anyOf, branches)
  | none, none, some branches => some (.allOf, branches)
  | none, none, none => none

-- A reference inherits nothing.
def inherit (base : Keywords Schema) : Schema → Schema
  | .bool true => if base.isShapeless then .bool true else .object base
  | .bool false => .bool false
  | .object top => match top.ref with
    | some _ => .object top
    | none => .object (base.overlay top)

-- A flag makes the inclusive bound exclusive; a number is a bound beside it.
def exclusive (inclusive : Option Double) : Option ExclusiveBound → Option Double × Option Double
  | some (.value x) => (inclusive, some x)
  | some (.flag true) => (none, inclusive)
  | some (.flag false) => (inclusive, none)
  | none => (inclusive, none)

def scalarOf (limits : Limits) (type : ScalarType) : Scalar :=
  let lower := exclusive limits.minimum limits.exclusiveMinimum
  let upper := exclusive limits.maximum limits.exclusiveMaximum
  { type := type
    format := limits.format
    minLength := limits.minLength
    maxLength := limits.maxLength
    pattern := limits.pattern
    minimum := lower.1
    maximum := upper.1
    exclusiveMinimum := lower.2
    exclusiveMaximum := upper.2
    multipleOf := limits.multipleOf }

def arrayShape (k : Keywords Schema) : Shape Schema :=
  .array ⟨k.items.getD (.bool true), k.places, k.limits.minItems, k.limits.maxItems,
    k.limits.uniqueItems.getD false⟩

def objectShape (k : Keywords Schema) : Shape Schema :=
  .object ⟨k.properties.getD [], k.required.getD [], k.additional.getD (.bool true),
    k.limits.minProperties, k.limits.maxProperties⟩

def typedShape (k : Keywords Schema) : Option String → Shape Schema
  | some name =>
    if name = "object" then k.objectShape
    else if name = "array" then k.arrayShape
    else match ScalarType.parse? name with
      | some type => .scalar (scalarOf k.limits type)
      | none => .bool true
  | none =>
    if !k.typeNames.isEmpty then .scalar { type := .null }
    else if k.looksLikeObject then k.objectShape
    else if k.looksLikeArray then k.arrayShape
    else .bool true

def plainShape (k : Keywords Schema) : Shape Schema :=
  match k.composition? with
  | some (op, branches) => .composition op (branches.map (k.siblings.without op).inherit)
  | none =>
    if 1 < k.concreteTypes.length then
      .composition .anyOf (k.concreteTypes.map fun name =>
        .object { k.siblings with types := some (.single name) })
    else match k.const, k.enum with
      | some value, _ => .const value
      | none, some values => .enum values
      | none, none => k.typedShape k.concreteTypes.head?

end Keywords

namespace Schema

def step : Schema → Except CompileError (Shape Schema)
  | .bool value => .ok (.bool value)
  | .object k => match k.ref with
    | some reference => (componentName reference).map .ref
    | none => .ok k.plainShape

def annotate : Schema → Shape Node → Node
  | .bool _, shape => .ofShape shape
  | .object k, shape =>
    { title := k.title
      description := k.description
      deprecated := k.deprecated.getD false
      nullable := k.isNullable
      unsupported := k.unsupported
      shape := shape }

end Schema

end ApiContract
