import ApiContract.Json.Build
import ApiContract.Validator.Basic
import ApiContract.Validator.Issue

namespace ApiContract

def Bound.encode (bound : Bound) : Json :=
  .object [("value", .ofDouble bound.value), ("exclusive", .bool bound.exclusive)]

def Refinement.encode : Refinement → Json
  | .minItems limit => .tagged "check" "minItems" [("limit", .ofNat limit)]
  | .maxItems limit => .tagged "check" "maxItems" [("limit", .ofNat limit)]
  | .uniqueItems => .tagged "check" "uniqueItems" []
  | .minProperties limit => .tagged "check" "minProperties" [("limit", .ofNat limit)]
  | .maxProperties limit => .tagged "check" "maxProperties" [("limit", .ofNat limit)]
  | .range min max =>
    .tagged "check" "range" (Json.field? "min" Bound.encode min ++ Json.field? "max" Bound.encode max)

def StatusMatch.kind : StatusMatch → String
  | exact _ => "exact"
  | range _ => "class"

def StatusMatch.encode : StatusMatch → Json
  | .exact code => .tagged "match" "exact" [("value", .ofNat code)]
  | .range hundreds => .tagged "match" "class" [("value", .ofNat hundreds)]

def Arm.encode : Arm Json → Json
  | .body v => .tagged "arm" "body" [("validator", v)]
  | .media cases fallback =>
    .tagged "arm" "media" [
      ("cases", .array (cases.map fun entry =>
        .object [("mediaType", .string entry.1), ("validator", entry.2)])),
      ("fallback", fallback.encode)]
  | .reject field => .tagged "arm" "reject" [("field", .string field.key)]

def UnknownKeys.encode : UnknownKeys Json → Json
  | .strict => .tagged "mode" "strict" []
  | .catchall v => .tagged "mode" "catchall" [("validator", v)]

def StringRules.fields (rules : StringRules) : List (String × Json) :=
  Json.field? "format" .string rules.format ++ Json.field? "minLength" .ofNat rules.minLength
    ++ Json.field? "maxLength" .ofNat rules.maxLength ++ Json.field? "pattern" .string rules.pattern

def NumberRules.fields (rules : NumberRules) : List (String × Json) :=
  [("integer", .bool rules.integer)] ++ Json.field? "min" Bound.encode rules.min
    ++ Json.field? "max" Bound.encode rules.max ++ Json.field? "multipleOf" .ofDouble rules.multipleOf

def Validator.encode : Validator → Json :=
  Validator.fold {
    unknown := .tagged "kind" "unknown" []
    never := .tagged "kind" "never" []
    string := fun rules => .tagged "kind" "string" rules.fields
    number := fun rules => .tagged "kind" "number" rules.fields
    boolean := .tagged "kind" "boolean" []
    null := .tagged "kind" "null" []
    binary := .tagged "kind" "binary" []
    literal := fun l => .tagged "kind" "literal" [("literal", l.toJson)]
    union := fun members => .tagged "kind" "union" [("members", .array members)]
    intersection := fun members => .tagged "kind" "intersection" [("members", .array members)]
    array := fun items low high =>
      .tagged "kind" "array" (("items", items) :: Json.field? "min_items" .ofNat low
        ++ Json.field? "max_items" .ofNat high)
    tuple := fun places rest =>
      .tagged "kind" "tuple" (("prefix", .array places) :: Json.field? "rest" id rest)
    object := fun fields unknownKeys =>
      .tagged "kind" "object" [
        ("fields", .array (fields.map fun field =>
          .object [("name", .string field.name), ("validator", field.validator),
            ("optional", .bool field.optional)])),
        ("unknownKeys", unknownKeys.encode)]
    lazy := fun name => .tagged "kind" "lazyRef" [("name", .string name)]
    nullable := fun inner => .tagged "kind" "nullable" [("inner", inner)]
    refined := fun inner refinements =>
      .tagged "kind" "refined" [("inner", inner), ("refinements", .array (refinements.map Refinement.encode))]
    dispatch := fun branches fallback =>
      .tagged "kind" "dispatch" [
        ("branches", .array (branches.map fun branch =>
          .object [("status", branch.status.encode), ("arm", branch.arm.encode)])),
        ("fallback", fallback.encode)] }

def Segment.encode : Segment → Json
  | .key name => .string name
  | .index n => .ofNat n

def Issue.encode (issue : Issue) : Json :=
  .object [("path", .array (issue.path.map Segment.encode)), ("message", .string issue.message)]

end ApiContract
