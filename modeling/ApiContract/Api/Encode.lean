import ApiContract.Api.Basic
import ApiContract.Schema.Encode
import ApiContract.TypeExpr.Encode
import ApiContract.Validator.Encode

namespace ApiContract

def encodeContent {α : Type} (encode : α → Json) (content : List (String × α)) : Json :=
  .object (content.map fun entry => (entry.1, encode entry.2))

def Parameter.encode (p : Parameter) : Json :=
  .object ([("name", .string p.name), ("location", .string p.location.keyword),
      ("required", .bool p.required)]
    ++ Json.field? "style" .string p.style ++ Json.field? "explode" .bool p.explode
    ++ [("schema", p.schema.encode)] ++ Json.field? "description" .string p.description
    ++ [("deprecated", .bool p.deprecated)])

def RequestBody.encode (body : RequestBody) : Json :=
  .object ([("required", .bool body.required)] ++ Json.field? "description" .string body.description
    ++ [("content", encodeContent Node.encode body.content)])

def Response.encode (response : Response) : Json :=
  .object ([("status", .string response.status)]
    ++ Json.field? "description" .string response.description
    ++ [("content", encodeContent (fun node => (node.map Node.encode).getD .null) response.content)])

def Operation.encode (op : Operation) : Json :=
  .object ([("name", .string op.name)] ++ Json.field? "operationId" .string op.operationId
    ++ [("method", .string op.method.text), ("path", .string op.path), ("tags", .strings op.tags)]
    ++ Json.field? "summary" .string op.summary ++ Json.field? "description" .string op.description
    ++ [("deprecated", .bool op.deprecated), ("parameters", .array (op.parameters.map Parameter.encode))]
    ++ Json.field? "requestBody" RequestBody.encode op.requestBody
    ++ [("responses", .array (op.responses.map Response.encode))])

def Status.encode : Status → Json
  | .code n => .tagged "kind" "code" [("value", .ofNat n)]
  | .range hundreds => .tagged "kind" "class" [("value", .ofNat hundreds)]
  | .default => .tagged "kind" "default" []

def Serialization.encode (s : Serialization) : Json :=
  .object [("style", .string s.style.keyword), ("explode", .bool s.explode)]

def ParameterValue.encode : ParameterValue → Json
  | .argument => .tagged "kind" "argument" []
  | .fixed value => .tagged "kind" "fixed" [("value", value)]

def ParameterContract.encode (p : ParameterContract) : Json :=
  .object ([("name", .string p.name), ("argument", .string p.argument),
      ("location", .string p.location.keyword), ("required", .bool p.required),
      ("ty", p.type.encode), ("validator", p.validator.encode)]
    ++ Json.field? "serialization" Serialization.encode p.serialization
    ++ Json.field? "doc" .string p.doc ++ [("value", p.value.encode)])

def ParameterGroups.encode (groups : ParameterGroups) : Json :=
  .object [("path", .array (groups.path.map ParameterContract.encode)),
    ("query", .array (groups.query.map ParameterContract.encode)),
    ("header", .array (groups.header.map ParameterContract.encode))]

def BodyVariant.encode (variant : BodyVariant) : Json :=
  .object [("mediaType", .string variant.mediaType), ("argument", .string variant.argument),
    ("encoding", .string variant.encoding.keyword), ("ty", variant.type.encode),
    ("validator", variant.validator.encode)]

def BodyContract.encode : BodyContract → Json
  | .single argument mediaType required encoding type validator =>
    .tagged "kind" "single" [("argument", .string argument), ("mediaType", .string mediaType),
      ("required", .bool required), ("encoding", .string encoding.keyword), ("ty", type.encode),
      ("validator", validator.encode)]
  | .variants discriminator defaultMediaType required members type =>
    .tagged "kind" "variants" ([("discriminator", .string discriminator)]
      ++ Json.field? "defaultMediaType" .string defaultMediaType
      ++ [("required", .bool required), ("variants", .array (members.map BodyVariant.encode)),
        ("ty", type.encode)])

def ResponseVariant.encode (variant : ResponseVariant) : Json :=
  .object ([("status", variant.status.encode)] ++ Json.field? "mediaType" .string variant.mediaType
    ++ [("success", .bool variant.success), ("ty", variant.type.encode)]
    ++ Json.field? "validator" Validator.encode variant.validator
    ++ [("representation", .string variant.representation.keyword)])

def ResponseContract.encode (response : ResponseContract) : Json :=
  .object ([("variants", .array (response.variants.map ResponseVariant.encode)),
      ("envelope", response.envelope.encode), ("result", response.result.encode),
      ("error", response.error.encode)]
    ++ Json.field? "validator" Validator.encode response.validator)

def Step.encode : Step → Json
  | .coerce media =>
    .tagged "step" "coerce" [("media", .array (media.map fun entry =>
      .object [("mediaType", .string entry.1), ("representation", .string entry.2.keyword)]))]
  | .validate => .tagged "step" "validate" []
  | .createdShortcut field => .tagged "step" "createdShortcut" [("field", .string field)]
  | .extractBody => .tagged "step" "extractBody" []
  | .discardBody => .tagged "step" "discardBody" []

def Contract.encode (contract : Contract) : Json :=
  .object ([("name", .string contract.name), ("method", .string contract.method.text),
      ("path", .string contract.path), ("scope", contract.scope.encode)]
    ++ Json.field? "summary" .string contract.summary
    ++ Json.field? "description" .string contract.description
    ++ [("deprecated", .bool contract.deprecated), ("parameters", contract.parameters.encode)]
    ++ Json.field? "requestBody" BodyContract.encode contract.requestBody
    ++ [("response", contract.response.encode), ("pipeline", .array (contract.steps.map Step.encode))])

def ModelEntry.encode (entry : ModelEntry) : Json :=
  .object [("schemaName", .string entry.schemaName), ("modelName", .string entry.modelName),
    ("scope", entry.scope.encode), ("dependencies", .strings entry.dependencies),
    ("schema", entry.schema.encode)]

def Model.encode (model : Model) : Json :=
  .object ([("schemaName", .string model.schemaName), ("modelName", .string model.modelName),
      ("scope", model.scope.encode), ("dependencies", .strings model.dependencies),
      ("declaration", model.declaration.encode), ("validator", model.validator.encode)]
    ++ Json.field? "doc" .string model.doc ++ Json.flag? "deprecated" model.deprecated)

def OutputModule.encode (m : OutputModule) : Json :=
  .object [("scope", m.scope.encode), ("moduleName", .string m.moduleName),
    ("models", .strings m.models), ("operations", .strings m.operations),
    ("imports", .object (m.imports.map fun entry => (entry.1, .strings entry.2)))]

def Api.encode (api : Api) : Json :=
  .object [
    ("index", .object [("models", .object (api.index.models.map fun entry =>
      (entry.1, entry.2.encode)))]),
    ("operations", .array (api.contracts.map Contract.encode)),
    ("modules", .array (api.modules.map OutputModule.encode))]

end ApiContract
