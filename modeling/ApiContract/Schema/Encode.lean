import ApiContract.Json.Build
import ApiContract.Schema.Node

namespace ApiContract

def Scalar.fields (s : Scalar) : List (String × Json) :=
  [("type", .string s.type.keyword)] ++ Json.field? "format" .string s.format
    ++ Json.field? "minLength" .ofNat s.minLength ++ Json.field? "maxLength" .ofNat s.maxLength
    ++ Json.field? "pattern" .string s.pattern ++ Json.field? "minimum" .ofDouble s.minimum
    ++ Json.field? "maximum" .ofDouble s.maximum
    ++ Json.field? "exclusiveMinimum" .ofDouble s.exclusiveMinimum
    ++ Json.field? "exclusiveMaximum" .ofDouble s.exclusiveMaximum
    ++ Json.field? "multipleOf" .ofDouble s.multipleOf

def Shape.encode : Shape Json → Json
  | .bool value => .tagged "kind" "bool" [("value", .bool value)]
  | .ref name => .tagged "kind" "ref" [("name", .string name)]
  | .scalar s => .tagged "kind" "scalar" s.fields
  | .array a =>
    .tagged "kind" "array" ([("items", a.items)] ++ Json.field? "prefixItems" .array a.places
      ++ Json.field? "minItems" .ofNat a.minItems ++ Json.field? "maxItems" .ofNat a.maxItems
      ++ Json.flag? "uniqueItems" a.uniqueItems)
  | .object o =>
    .tagged "kind" "object" ([("properties", .object o.properties), ("required", .strings o.required),
        ("additionalProperties", o.additional)]
      ++ Json.field? "minProperties" .ofNat o.minProperties
      ++ Json.field? "maxProperties" .ofNat o.maxProperties)
  | .composition op branches =>
    .tagged "kind" "composition" [("op", .string op.keyword), ("branches", .array branches)]
  | .const value => .tagged "kind" "const" [("value", value)]
  | .enum values => .tagged "kind" "enum" [("values", .array values)]

def Node.encode : Node → Json :=
  Node.fold fun node shape =>
    .object (Json.field? "name" .string node.name ++ Json.field? "title" .string node.title
      ++ Json.field? "description" .string node.description ++ Json.flag? "deprecated" node.deprecated
      ++ Json.flag? "nullable" node.nullable
      ++ (if node.unsupported.isEmpty then [] else [("unsupported", .strings node.unsupported)])
      ++ [("kind", shape.encode)])

end ApiContract
