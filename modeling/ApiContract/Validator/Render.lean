import ApiContract.TypeExpr.Render
import ApiContract.Validator.Basic

namespace ApiContract

namespace Validator

def chained (method : String) : Option String → String
  | none => ""
  | some argument => "." ++ method ++ "(" ++ argument ++ ")"

def formatText : Option String → String
  | some "email" => ".email()"
  | some "uuid" => ".uuid()"
  | some "uri" => ".url()"
  | some "url" => ".url()"
  | some "date-time" => ".datetime()"
  | _ => ""

def countText : Option Nat → Option String := Option.map toString

def renderString (rules : StringRules) : String :=
  "z.string()" ++ formatText rules.format ++ chained "min" (countText rules.minLength)
    ++ chained "max" (countText rules.maxLength)
    ++ chained "regex" (rules.pattern.map fun p => "new RegExp(" ++ Identifier.quote p ++ ")")

def lowerText : Option Bound → String
  | none => ""
  | some bound => chained (if bound.exclusive then "gt" else "gte") (some bound.text)

def upperText : Option Bound → String
  | none => ""
  | some bound => chained (if bound.exclusive then "lt" else "lte") (some bound.text)

def renderNumber (rules : NumberRules) : String :=
  "z.number()" ++ (if rules.integer then ".int()" else "") ++ lowerText rules.min
    ++ upperText rules.max ++ chained "multipleOf" (rules.multipleOf.map Number.Layout.plain.write)

def conditions (min max : Option Bound) : List String :=
  (min.map fun b => "v " ++ (if b.exclusive then ">" else ">=") ++ " " ++ b.text).toList
    ++ (max.map fun b => "v " ++ (if b.exclusive then "<" else "<=") ++ " " ++ b.text).toList

def condition : Refinement → String
  | .minItems limit => "v.length >= " ++ toString limit
  | .maxItems limit => "v.length <= " ++ toString limit
  | .uniqueItems => "new Set(v.map((x) => JSON.stringify(x))).size === v.length"
  | .minProperties limit => "Object.keys(v).length >= " ++ toString limit
  | .maxProperties limit => "Object.keys(v).length <= " ++ toString limit
  | .range min max =>
    match conditions min max with
    | [] => "true"
    | parts => " && ".intercalate parts

def renderRefinement (refinement : Refinement) : String :=
  ".refine((v) => " ++ condition refinement ++ ", \x7b message: "
    ++ Identifier.quote refinement.message ++ " \x7d)"

def renderLiteral : Literal → String
  | .null => "z.null()"
  | l => "z.literal(" ++ l.render ++ ")"

def renderIntersection : List String → String
  | [] => "z.unknown()"
  | first :: rest => rest.foldl (fun left right => "z.intersection(" ++ left ++ ", " ++ right ++ ")") first

def renderFields (fields : List (Field String)) : String :=
  if fields.isEmpty then "\x7b\x7d"
  else "\x7b " ++ ", ".intercalate (fields.map fun field =>
    Identifier.propertyKey field.name ++ ": " ++ field.validator
      ++ (if field.optional then ".optional()" else "")) ++ " \x7d"

structure Rendered where
  text : String
  isUnknown : Bool := false

def renderUnknownKeys : UnknownKeys Rendered → String
  | .strict => ".strict()"
  | .catchall v => if v.isUnknown then ".passthrough()" else ".catchall(" ++ v.text ++ ")"

def bodyText (v : String) : String := "validateBody(" ++ v ++ ", r.body, ctx);"

def renderCases : Bool → List (String × String) → String
  | _, [] => ""
  | isFirst, (test, statement) :: rest =>
    (if isFirst then "if" else " else if") ++ " (" ++ test ++ ") \x7b " ++ statement ++ " \x7d"
      ++ renderCases false rest

def renderArm : Arm String → String
  | .body v => bodyText v
  | .media cases fallback =>
    renderCases true (cases.map fun entry =>
      ("r.mediaType === " ++ Identifier.quote entry.1, bodyText entry.2))
      ++ " else \x7b " ++ renderArm fallback ++ " \x7d"
  | .reject field =>
    "ctx.addIssue(\x7b code: \"custom\", path: [\"" ++ field.key ++ "\"], message: `"
      ++ field.unexpected ("$\x7br." ++ field.key ++ "\x7d") ++ "` \x7d);"

def statusTest : StatusMatch → String
  | .exact code => "r.status === " ++ toString code
  | .range hundreds => "Math.floor(r.status / 100) === " ++ toString hundreds

def renderDispatch (branches : List (Branch String)) (fallback : Arm String) : String :=
  let body := if branches.isEmpty then renderArm fallback
    else renderCases true (branches.map fun branch =>
      (statusTest branch.status, renderArm branch.arm))
      ++ " else \x7b " ++ renderArm fallback ++ " \x7d"
  "z.object(\x7b status: z.number(), mediaType: z.string().nullable(), body: z.unknown() \x7d)"
    ++ ".superRefine((r, ctx) => \x7b " ++ body ++ " \x7d)"

def rendered (names : Names) : Validator → Rendered :=
  fold {
    unknown := ⟨"z.unknown()", true⟩
    never := ⟨"z.never()", false⟩
    string := fun rules => ⟨renderString rules, false⟩
    number := fun rules => ⟨renderNumber rules, false⟩
    boolean := ⟨"z.boolean()", false⟩
    null := ⟨"z.null()", false⟩
    binary := ⟨"z.instanceof(" ++ names.binaryType ++ ")", false⟩
    literal := fun l => ⟨renderLiteral l, false⟩
    union := fun members => ⟨"z.union([" ++ ", ".intercalate (members.map Rendered.text) ++ "])", false⟩
    intersection := fun members => ⟨renderIntersection (members.map Rendered.text), false⟩
    array := fun items low high =>
      ⟨"z.array(" ++ items.text ++ ")" ++ chained "min" (countText low)
        ++ chained "max" (countText high), false⟩
    tuple := fun places rest =>
      ⟨"z.tuple([" ++ ", ".intercalate (places.map Rendered.text) ++ "])"
        ++ chained "rest" (rest.map Rendered.text), false⟩
    object := fun fields unknownKeys =>
      ⟨"z.object(" ++ renderFields (fields.map (Field.map Rendered.text)) ++ ")"
        ++ renderUnknownKeys unknownKeys, false⟩
    lazy := fun name => ⟨"z.lazy(() => " ++ names.validator name ++ ")", false⟩
    nullable := fun inner => ⟨inner.text ++ ".nullable()", false⟩
    refined := fun inner refinements =>
      ⟨inner.text ++ String.join (refinements.map renderRefinement), false⟩
    dispatch := fun branches fallback =>
      ⟨renderDispatch (branches.map (Branch.map Rendered.text)) (fallback.map Rendered.text), false⟩ }

def render (names : Names) (v : Validator) : String := (v.rendered names).text

end Validator

end ApiContract
