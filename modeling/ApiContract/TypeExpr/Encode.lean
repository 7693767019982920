import ApiContract.Json.Build
import ApiContract.TypeExpr.Basic

namespace ApiContract

def Member.encode : Member Json → Json
  | .property p =>
    .tagged "member" "property" ([("name", .string p.name), ("ty", p.type),
      ("optional", .bool p.optional)] ++ Json.field? "doc" .string p.doc)
  | .index s =>
    .tagged "member" "index" [("keyName", .string s.keyName), ("key", s.key), ("value", s.value)]

def TypeExpr.encode : TypeExpr → Json :=
  TypeExpr.fold {
    primitive := fun p => .tagged "kind" "primitive" [("primitive", .string p.keyword)]
    literal := fun l => .tagged "kind" "literal" [("literal", l.toJson)]
    reference := fun name => .tagged "kind" "reference" [("name", .string name)]
    union := fun members => .tagged "kind" "union" [("members", .array members)]
    intersection := fun members => .tagged "kind" "intersection" [("members", .array members)]
    record := fun members =>
      .tagged "kind" "typeLiteral" [("members", .array (members.map Member.encode))]
    array := fun items => .tagged "kind" "array" [("items", items)]
    tuple := fun places rest =>
      .tagged "kind" "tuple" (("prefix", .array places) :: Json.field? "rest" id rest) }

end ApiContract
