import ApiContract.Error
import ApiContract.Keyed
import ApiContract.Scope
import ApiContract.TypeExpr.OfSchema
import ApiContract.Validator.OfSchema

namespace ApiContract

structure ModelEntry where
  schemaName : String
  modelName : String
  scope : Scope
  dependencies : List String
  schema : Node

structure Model where
  schemaName : String
  modelName : String
  scope : Scope
  dependencies : List String
  declaration : TypeExpr
  validator : Validator
  doc : Option String
  deprecated : Bool

structure ModelIndex where
  entries : List (String × ModelEntry) := []
  models : List (String × Model) := []

namespace ModelIndex

def find? (index : ModelIndex) (name : String) : Option ModelEntry := index.entries.lookup name

def entry (index : ModelIndex) (name : String) : Except CompileError ModelEntry :=
  match index.find? name with
  | some entry => .ok entry
  | none => .error (.unresolved name)

def contains (index : ModelIndex) (name : String) : Bool := (index.find? name).isSome

def scopeOf? (index : ModelIndex) (name : String) : Option Scope :=
  (index.find? name).map ModelEntry.scope

def allEntries (index : ModelIndex) : List ModelEntry := index.entries.map Prod.snd

def scopes (index : ModelIndex) : List Scope := Scope.sorted (index.allEntries.map ModelEntry.scope)

def inScope (index : ModelIndex) (scope : Scope) : List ModelEntry :=
  index.allEntries.filter fun entry => entry.scope == scope

def model? (index : ModelIndex) (name : String) : Option Model := index.models.lookup name

def record (model : Model) (index : ModelIndex) : Except CompileError ModelIndex :=
  (index.entry model.schemaName).map fun _ =>
    { index with models := Keyed.insert model.schemaName model index.models }

def validators (index : ModelIndex) : List (String × Validator) :=
  index.models.map fun entry => (entry.1, entry.2.validator)

-- The title, else that of the named schema it stands for, else the name itself.
def displayName? (index : ModelIndex) (node : Node) : Option String :=
  match node.title, node.target? with
  | some title, _ => some title
  | none, none => none
  | none, some name => match index.find? name with
    | some entry => entry.schema.displayName?.or (some name)
    | none => some name

end ModelIndex

def Validator.within (index : ModelIndex) (node : Node) : Except CompileError Validator :=
  Validator.expanded index.contains node

namespace Model

def ofEntry (index : ModelIndex) (entry : ModelEntry) : Except CompileError Model :=
  (Validator.within index entry.schema).map fun validator =>
    { schemaName := entry.schemaName
      modelName := entry.modelName
      scope := entry.scope
      dependencies := entry.dependencies
      declaration := TypeExpr.expanded entry.schema
      validator := validator
      doc := entry.schema.description
      deprecated := entry.schema.deprecated }

end Model

end ApiContract
