import ApiContract.Contract.Request
import ApiContract.Contract.Response

namespace ApiContract

-- The first fault counts: in the parameters, then in the body, then in the responses.
def Contract.ofOperation (settings : Settings) (index : ModelIndex) (op : Operation) :
    Except CompileError Contract := do
  let parameters ← ParameterContract.ofParameters index op [] op.parameters
  let requestBody ← BodyContract.ofBody? index op.requestBody
  let (response, steps) ← ResponseContract.ofOperation settings index op
  return {
    name := op.name
    method := op.method
    path := op.path
    scope := Scope.ofTag op.primaryTag?
    summary := op.summary
    description := op.description
    deprecated := op.deprecated
    parameters := .ofList parameters
    requestBody := requestBody
    response := response
    steps := steps }

end ApiContract
