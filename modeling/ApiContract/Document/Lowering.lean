import ApiContract.Document.Reader
import ApiContract.Identifier
import ApiContract.Schema.Lowering

namespace ApiContract

namespace Document

def staticSegments (path : String) : List (List Char) :=
  (Text.splitWhere (· = '/') path.toList).filter fun segment =>
    !segment.isEmpty && segment.head? != some '\x7b'

def operationName (path : String) (method : Method) (op : Operation) : String :=
  match op.operationId with
  | some id => Identifier.ofName id
  | none =>
    let words := method.key.toList ++ '_' :: ['_'].intercalate (staticSegments path)
    Identifier.ofName (Identifier.camelCase (String.ofList words))

def Parameter.key (p : Parameter) : String × String := (p.name, p.location)

def duplicate? : List (String × String) → List Parameter → Option Parameter
  | _, [] => none
  | seen, p :: rest => if seen.contains p.key then some p else duplicate? (p.key :: seen) rest

def checkDistinct (level path : String) (method : Method) (parameters : List Parameter) :
    Except CompileError Unit :=
  match duplicate? [] parameters with
  | none => .ok ()
  | some p =>
    .error (.document (.duplicateParameter p.location p.name level method.text path))

-- The schema of a parameter, or the first one among its media types; a string without any.
def parameterNode (p : Parameter) : Except CompileError Node :=
  match p.schema.or ((p.content.getD []).findSome? Prod.snd) with
  | some schema => schema.lower
  | none => .ok .string

def lowerParameter (p : Parameter) : Except CompileError ApiContract.Parameter :=
  match Location.parse? p.location with
  | none => .error (.document (.unknownLocation p.location p.name))
  | some location => (parameterNode p).map fun node =>
    { name := p.name
      location := location
      required := p.required
      style := p.style
      explode := p.explode
      schema := node
      description := p.description
      deprecated := p.deprecated }

def declare (parameters : List ApiContract.Parameter) (p : ApiContract.Parameter) :
    List ApiContract.Parameter :=
  (parameters.filter fun q => !(q.name == p.name && q.location == p.location)) ++ [p]

-- The parameters of the path first, then those of the operation, each
-- overriding what it declares again.
def lowerParameters (path : String) (method : Method) (own inherited : List Parameter) :
    Except CompileError (List ApiContract.Parameter) := do
  checkDistinct "path-level" path method inherited
  checkDistinct "operation-level" path method own
  let inherited ← traverse lowerParameter inherited
  let own ← traverse lowerParameter own
  return own.foldl declare inherited

-- A body without a schema can be anything.
def lowerBody (body : RequestBody) : Except CompileError (Option ApiContract.RequestBody) := do
  let content ← traverse (fun entry : String × Option Schema => match entry.2 with
    | some schema => schema.lower.map fun node => (entry.1, node)
    | none => .ok (entry.1, Node.any)) body.content
  return if content.isEmpty then none else some ⟨body.required, body.description, content⟩

def lowerBody? : Option RequestBody → Except CompileError (Option ApiContract.RequestBody)
  | none => .ok none
  | some body => lowerBody body

def lowerResponse (entry : String × Response) : Except CompileError ApiContract.Response := do
  let content ← traverse (fun entry : String × Option Schema => match entry.2 with
    | some schema => schema.lower.map fun node => (entry.1, some node)
    | none => .ok (entry.1, none)) entry.2.content
  return ⟨entry.1, entry.2.description, content⟩

def lowerOperation (path : String) (inherited : List Parameter) (entry : Method × Operation) :
    Except CompileError ApiContract.Operation := do
  let op := entry.2
  let parameters ← lowerParameters path entry.1 op.parameters inherited
  let requestBody ← lowerBody? op.requestBody
  let responses ← traverse lowerResponse op.responses
  return {
    name := operationName path entry.1 op
    operationId := op.operationId
    method := entry.1
    path := path
    tags := op.tags
    summary := op.summary
    description := op.description
    deprecated := op.deprecated
    parameters := parameters
    requestBody := requestBody
    responses := responses }

def lowerOperations (names : List String) :
    List (String × List Parameter × Method × Operation) →
    Except CompileError (List ApiContract.Operation)
  | [] => .ok []
  | (path, inherited, entry) :: rest => do
    let op ← lowerOperation path inherited entry
    if names.contains op.name then
      .error (.document (.duplicateOperation op.name op.method.text path))
    else
      let others ← lowerOperations (op.name :: names) rest
      return op :: others

def operations (document : Document) : List (String × List Parameter × Method × Operation) :=
  document.paths.flatMap fun entry => entry.2.operations.map fun op => (entry.1, entry.2.parameters, op)

def lowerSchemas (document : Document) : Except CompileError (List (String × Node)) :=
  (traverse (fun entry : String × Schema => entry.2.lower.map fun node => (entry.1, node))
    document.schemas).map fun nodes =>
      nodes.foldl (fun schemas entry => Description.define entry.1 entry.2 schemas) []

def lower (document : Document) : Except CompileError Description := do
  let schemas ← document.lowerSchemas
  let operations ← lowerOperations [] document.operations
  return ⟨schemas, operations⟩

end Document

def Description.load (text : String) : Except CompileError Description :=
  match Document.parse? text with
  | none => .error (.document .malformed)
  | some document => document.lower

end ApiContract
