import ApiContract.Api.Module
import ApiContract.Contract.OfOperation
import ApiContract.Document.Lowering
import ApiContract.Model.Resolve
import ApiContract.Names

namespace ApiContract

structure Api where
  index : ModelIndex
  contracts : List Contract
  modules : List OutputModule

namespace Api

def model? (api : Api) (name : String) : Option Model := api.index.model? name

def contract? (api : Api) (name : String) : Option Contract :=
  api.contracts.find? fun contract => contract.name == name

def module? (api : Api) (scope : Scope) : Option OutputModule :=
  api.modules.find? fun m => m.scope == scope

def compileModels (index : ModelIndex) : Except CompileError ModelIndex :=
  (traverse (fun entry : String × ModelEntry =>
    (Model.ofEntry index entry.2).map fun model => (entry.1, model)) index.entries).map
      fun models => { index with models := models }

-- Scopes are settled before anything is compiled, and schemas are compiled before operations.
def compile (settings : Settings) (description : Description) : Except CompileError Api := do
  let resolved ← description.resolve
  let index ← compileModels resolved
  let contracts ← traverse (Contract.ofOperation settings index) description.operations
  let modules := (OutputModule.scopes index contracts).map (OutputModule.ofScope settings index contracts)
  return ⟨index, contracts, modules⟩

def generate (settings : Settings) (text : String) : Except CompileError Api := do
  let description ← Description.load text
  compile settings description

end Api

def Names.ofIndex (settings : Settings) (index : ModelIndex) : Names :=
  ⟨settings.binaryType, index.allEntries.map fun entry => (entry.schemaName, entry.modelName)⟩

end ApiContract
