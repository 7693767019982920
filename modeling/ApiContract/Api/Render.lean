import ApiContract.Api.Basic
import ApiContract.TypeExpr.Render
import ApiContract.Validator.Render

namespace ApiContract

def Model.render (names : Names) (model : Model) : String :=
  "export type " ++ model.modelName ++ " = " ++ model.declaration.render names ++ ";\n"
    ++ "export const " ++ model.modelName ++ "Schema: z.ZodType<" ++ model.modelName ++ "> = "
    ++ model.validator.render names ++ ";\n"

def ParameterContract.render (names : Names) (p : ParameterContract) : String :=
  p.argument ++ (if p.required then "" else "?") ++ ": " ++ p.type.render names

def Contract.render (names : Names) (contract : Contract) : String :=
  let arguments := contract.parameters.arguments.map (ParameterContract.render names)
    ++ (if contract.requestBody.isSome then ["body"] else [])
  contract.name ++ "(" ++ ", ".intercalate arguments ++ "): " ++ contract.method.text ++ " "
    ++ contract.path ++ " => " ++ contract.response.result.render names

namespace OutputModule

def renderImport (names : Names) (entry : String × List String) : String :=
  let declared := entry.2.flatMap fun name => [names.model name, names.validator name]
  "import \x7b " ++ ", ".intercalate declared ++ " \x7d from \"./" ++ entry.1 ++ "\";\n"

def render (names : Names) (api : Api) (m : OutputModule) : String :=
  "\n// " ++ m.moduleName ++ "\n"
    ++ String.join (m.imports.map (renderImport names))
    ++ String.join ((m.models.filterMap api.model?).map (Model.render names))
    ++ String.join ((m.operations.filterMap api.contract?).map fun contract =>
      contract.render names ++ "\n")

end OutputModule

def Api.summary (settings : Settings) (api : Api) : String :=
  let names := Names.ofIndex settings api.index
  toString api.index.entries.length ++ " models, " ++ toString api.contracts.length
    ++ " operations in " ++ toString api.modules.length ++ " modules\n"
    ++ String.join (api.modules.map (OutputModule.render names api))

end ApiContract
