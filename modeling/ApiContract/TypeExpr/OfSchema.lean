import ApiContract.Identifier
import ApiContract.Schema.Node
import ApiContract.TypeExpr.Simplify

namespace ApiContract

namespace TypeExpr

def ofScalar (scalar : Scalar) : TypeExpr :=
  match scalar.type with
  | .string => if scalar.format == some "binary" then binary else string
  | .number => number
  | .integer => number
  | .boolean => boolean
  | .null => null

def keyName (title : Option String) : String :=
  match title with
  | none => "key"
  | some title =>
    let name := Identifier.camelCase title
    if name.isEmpty then "key" else name

def ofLiterals (values : List Json) : TypeExpr :=
  unionOf (values.map fun value => ((Literal.ofJson? value).map literal).getD unknown)

def ofObject (object : ObjectShape (Node × TypeExpr)) : TypeExpr :=
  let fields := object.properties.map fun property =>
    { name := property.1
      type := property.2.2
      optional := !object.isRequired property.1
      doc := property.2.1.description : Property TypeExpr }
  let others := if object.additional.1.isFalse then []
    else [record [.index ⟨keyName object.additional.1.title, string, object.additional.2⟩]]
  intersectionOf (.object fields :: others)

-- A tuple ends with its places if nothing may follow them.
def ofArray (a : ArrayShape (Node × TypeExpr)) : TypeExpr :=
  match a.places with
  | none => array a.items.2
  | some places =>
    tuple (places.map Prod.snd) (if a.items.1.isFalse then none else some a.items.2)

def ofShape : Shape (Node × TypeExpr) → TypeExpr
  | .bool true => unknown
  | .bool false => never
  | .ref name => reference name
  | .scalar scalar => ofScalar scalar
  | .array a => ofArray a
  | .object o => ofObject o
  | .composition .oneOf branches => unionOf (branches.map Prod.snd)
  | .composition .anyOf branches => unionOf (branches.map Prod.snd)
  | .composition .allOf branches => intersectionOf (branches.map Prod.snd)
  | .const value => ofLiterals [value]
  | .enum values => ofLiterals values

def orNull (nullable : Bool) (type : TypeExpr) : TypeExpr :=
  if nullable then unionOf [type, null] else type

-- Inside another schema a named one is a reference.
def ofNode : Node → TypeExpr :=
  Node.foldPaired fun node shape =>
    orNull node.nullable (match node.target? with
      | some name => reference name
      | none => ofShape shape)

def expanded (node : Node) : TypeExpr :=
  orNull node.nullable (ofShape (node.shape.map fun child => (child, ofNode child)))

end TypeExpr

end ApiContract
