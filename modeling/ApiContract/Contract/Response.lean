import ApiContract.Contract.Basic
import ApiContract.Contract.Occurrence
import ApiContract.Settings.Basic
import ApiContract.Traverse
import ApiContract.TypeExpr.Simplify
import ApiContract.Validator.Dispatch

namespace ApiContract

namespace ResponseVariant

-- Only JSON is validated, and a response without content has neither type nor validator.
def bodyOf (index : ModelIndex) (status : Status) (representation : MediaType.Representation)
    (node : Option Node) : Except CompileError (TypeExpr × Option Validator) :=
  if status = .code 204 then .ok (.void, none)
  else match representation, node with
    | .json, some node =>
      (Occurrence.ofNode index node).map fun occurrence => (occurrence.type, some occurrence.validator)
    | .json, none => .ok (.unknown, none)
    | .unknown, _ => .ok (.unknown, none)
    | .text, _ => .ok (.string, none)
    | .blob, _ => .ok (.binary, none)

def ofContent (index : ModelIndex) (status : Status) (entry : String × Option Node) :
    Except CompileError ResponseVariant :=
  let representation := MediaType.representation entry.1
  (bodyOf index status representation entry.2).map fun body =>
    ⟨status, some entry.1, status.isSuccess, body.1, body.2, representation⟩

def empty (status : Status) : ResponseVariant :=
  ⟨status, none, status.isSuccess, .void, none, .unknown⟩

def ofResponse (index : ModelIndex) (op : Operation) (response : Response) :
    Except CompileError (List ResponseVariant) :=
  match Status.parse? response.status with
  | none => .error (.document (.invalidStatus response.status op.method.text op.path))
  | some status =>
    if response.content.isEmpty then .ok [empty status]
    else traverse (ofContent index status) response.content

-- Without any other success, the default response is one.
def settleSuccess (variants : List ResponseVariant) : List ResponseVariant :=
  if variants.any ResponseVariant.success then variants
  else variants.map fun variant => { variant with success := variant.status == .default }

def envelope (variant : ResponseVariant) : TypeExpr :=
  let status : TypeExpr := match variant.status with
    | .code code => .literal (.int code)
    | _ => .number
  let mediaType : TypeExpr := match variant.mediaType with
    | none => .null
    | some mediaType => if mediaType = MediaType.wildcard then .string else .text mediaType
  .object [{ name := "status", type := status }, { name := "mediaType", type := mediaType },
    { name := "body", type := variant.type }]

def intoTable (table : ResponseTable) (variant : ResponseVariant) : ResponseTable :=
  Keyed.update variant.status [] (fun media => match variant.mediaType with
    | none => media
    | some mediaType => Keyed.insert mediaType variant.validator media) table

end ResponseVariant

namespace ResponseContract

def table (variants : List ResponseVariant) : ResponseTable :=
  variants.foldl ResponseVariant.intoTable []

def coercions (variants : List ResponseVariant) : List (String × MediaType.Representation) :=
  variants.foldl (fun media variant => match variant.mediaType with
    | none => media
    | some mediaType =>
      if Keyed.contains mediaType media then media
      else media ++ [(mediaType, variant.representation)]) []

def schemasUnder (op : Operation) (code : Nat) : List Node :=
  (op.responses.filter fun response => Status.parse? response.status == some (.code code)).flatMap
    fun response => response.content.filterMap Prod.snd

def displayNames? (index : ModelIndex) : List Node → Option (List String)
  | [] => some []
  | node :: rest => match index.displayName? node, displayNames? index rest with
    | some name, some names => some (name :: names)
    | _, _ => none

-- The field for the resource: the name that all bodies share, if they share one.
def shortcutField (index : ModelIndex) (op : Operation) : String :=
  let found := schemasUnder op 200
  let created := schemasUnder op 201
  if found.isEmpty || created.isEmpty then "body"
  else match (displayNames? index (found ++ created)).map distinct with
    | some [name] =>
      let field := Identifier.ofField name
      if field = "created" then "body" else field
    | _ => "body"

-- The successful answers are those of 200 and 201, and both are there.
def isCreatedPair (success : List ResponseVariant) : Bool :=
  success.all (fun variant => variant.status == .code 200 || variant.status == .code 201)
    && success.any (fun variant => variant.status == .code 200)
    && success.any (fun variant => variant.status == .code 201)

def bodyUnder (success : List ResponseVariant) (code : Nat) : TypeExpr :=
  .unionOf ((success.filter fun variant => variant.status == .code code).map ResponseVariant.type)

def createdResult (success : List ResponseVariant) (field : String) : TypeExpr :=
  let member := fun (created : Bool) (body : TypeExpr) =>
    TypeExpr.object [{ name := "created", type := .flag created }, { name := field, type := body }]
  .union [member true (bodyUnder success 201), member false (bodyUnder success 200)]

def resultOf (settings : Settings) (index : ModelIndex) (op : Operation)
    (variants : List ResponseVariant) : TypeExpr × List Step :=
  let success := variants.filter ResponseVariant.success
  let validate := if settings.validateResponses then [Step.validate] else []
  if success.all fun variant => variant.type == .void then (.void, validate ++ [.discardBody])
  else
    let start := Step.coerce (coercions variants) :: validate
    if settings.createdShortcut && isCreatedPair success then
      let field := shortcutField index op
      (createdResult success field, start ++ [.createdShortcut field, .extractBody])
    else (.unionOf (success.map ResponseVariant.type), start ++ [.extractBody])

def errorOf (variants : List ResponseVariant) : TypeExpr :=
  match variants.filter fun variant => !variant.success with
  | [] => .unknown
  | errors => .unionOf (errors.map ResponseVariant.type)

def ofVariants (settings : Settings) (index : ModelIndex) (op : Operation)
    (variants : List ResponseVariant) : ResponseContract × List Step :=
  if variants.isEmpty then (⟨[], .void, .void, .unknown, none⟩, [])
  else
    let result := resultOf settings index op variants
    ({ variants := variants
       envelope := .unionOf ((variants.filter ResponseVariant.success).map ResponseVariant.envelope)
       result := result.1
       error := errorOf variants
       validator := if settings.validateResponses then some (.ofResponses (table variants)) else none },
      result.2)

def ofOperation (settings : Settings) (index : ModelIndex) (op : Operation) :
    Except CompileError (ResponseContract × List Step) := do
  let variants ← traverse (ResponseVariant.ofResponse index op) op.responses
  return ofVariants settings index op (ResponseVariant.settleSuccess variants.flatten)

end ResponseContract

end ApiContract
