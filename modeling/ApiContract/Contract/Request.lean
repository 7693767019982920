import ApiContract.Contract.Basic
import ApiContract.Contract.Occurrence
import ApiContract.Traverse
import ApiContract.TypeExpr.Simplify

namespace ApiContract

namespace ParameterContract

-- Cookies have no place in a contract, path parameters are always there, and a location has one style.
def checkSupported (op : Operation) (p : Parameter) : Except Unsupported Unit :=
  match p.location, p.required with
  | .cookie, _ => .error (.cookieParameter p.name op.method.text op.path)
  | .path, false => .error (.optionalPathParameter p.name op.method.text op.path)
  | location, _ => match p.style with
    | none => .ok ()
    | some style =>
      if ParameterStyle.parse? style == some location.serialization.style then .ok ()
      else .error (.parameterStyle style location.keyword p.name op.method.text op.path)

def serializationOf (p : Parameter) : Option Serialization :=
  let usual := p.location.serialization
  let explode := p.explode.getD usual.explode
  if explode == usual.explode then none else some ⟨usual.style, explode⟩

def valueOf (node : Node) : ParameterValue :=
  match node.shape with
  | .const value => .fixed value
  | _ => .argument

def ofParameter (index : ModelIndex) (op : Operation) (argument : String) (p : Parameter) :
    Except CompileError ParameterContract := do
  (checkSupported op p).mapError .unsupported
  let occurrence ← Occurrence.ofNode index p.schema
  return {
    name := p.name
    argument
    location := p.location
    required := p.required
    type := occurrence.type
    validator := occurrence.validator
    serialization := serializationOf p
    doc := p.description.or p.schema.description
    value := valueOf p.schema }

def ofParameters (index : ModelIndex) (op : Operation) (taken : List String) :
    List Parameter → Except CompileError (List ParameterContract)
  | [] => .ok []
  | p :: rest => do
    let picked := Identifier.pick (Identifier.ofName p.name) taken
    let contract ← ofParameter index op picked.1 p
    let others ← ofParameters index op picked.2 rest
    return contract :: others

end ParameterContract

namespace BodyContract

def discriminator : String := "contentType"

def variantsOf (index : ModelIndex) (taken : List String) :
    List (String × Node) → Except CompileError (List BodyVariant)
  | [] => .ok []
  | (mediaType, node) :: rest => do
    let occurrence ← Occurrence.ofNode index node
    let picked := Identifier.pick (MediaType.argument mediaType) taken
    let others ← variantsOf index picked.2 rest
    return ⟨mediaType, picked.1, MediaType.encoding mediaType, occurrence.type, occurrence.validator⟩
      :: others

def variantType (defaultMediaType : Option String) (variant : BodyVariant) : TypeExpr :=
  .object [
    { name := discriminator
      type := .text variant.mediaType
      optional := defaultMediaType == some variant.mediaType },
    { name := variant.argument, type := variant.type }]

def ofBody (index : ModelIndex) (body : RequestBody) : Except CompileError BodyContract :=
  match body.content with
  | [(mediaType, node)] => do
    let occurrence ← Occurrence.ofNode index node
    return .single "body" mediaType body.required (MediaType.encoding mediaType) occurrence.type
      occurrence.validator
  | content => do
    let variants ← variantsOf index [discriminator] content
    let defaultMediaType := (content.map Prod.fst).find? MediaType.isJson
    return .variants discriminator defaultMediaType body.required variants
      (.unionOf (variants.map (variantType defaultMediaType)))

-- A body without any media type is no body.
def ofBody? (index : ModelIndex) : Option RequestBody → Except CompileError (Option BodyContract)
  | none => .ok none
  | some body => if body.content.isEmpty then .ok none else (ofBody index body).map some

end BodyContract

end ApiContract
