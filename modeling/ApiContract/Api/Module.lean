import ApiContract.Contract.Basic
import ApiContract.Model.Basic
import ApiContract.Settings.Basic

namespace ApiContract

structure OutputModule where
  scope : Scope
  moduleName : String
  -- Schemas stand behind their dependencies, operations in document order.
  models : List String
  operations : List String
  imports : List (String × List String)

namespace ModelIndex

def ownDependencies (index : ModelIndex) (entry : ModelEntry) : List String :=
  entry.dependencies.filter fun name => index.scopeOf? name == some entry.scope

structure Visit where
  met : List String := []
  done : List String := []

-- Visits a schema after its dependencies, at most `depth` schemas inside one
-- another. A cycle is cut where it comes back to a schema that has been met.
def visit (index : ModelIndex) : (depth : Nat) → Visit → String → Visit
  | 0, state, _ => state
  | depth + 1, state, name =>
    if state.met.contains name then state
    else
      let state := { state with met := name :: state.met }
      match index.find? name with
      | none => state
      | some entry =>
        let state := (index.ownDependencies entry).foldl (visit index depth) state
        { state with done := state.done ++ [name] }

-- No path is longer than the number of schemas.
def dependencyOrder (index : ModelIndex) (scope : Scope) : List String :=
  ((index.inScope scope).foldl
    (fun state entry => visit index (index.entries.length + 1) state entry.schemaName) {}).done

end ModelIndex

namespace OutputModule

def scopes (index : ModelIndex) (contracts : List Contract) : List Scope :=
  Scope.sorted (index.allEntries.map ModelEntry.scope ++ contracts.map Contract.scope)

def needs (index : ModelIndex) (contracts : List Contract) (scope : Scope) : List String :=
  SortedSet.ofStrings ((index.inScope scope).flatMap ModelEntry.dependencies
    ++ (contracts.filter fun contract => contract.scope == scope).flatMap Contract.references)

def addImport (owner name : String) : List (String × List String) → List (String × List String)
  | [] => [(owner, [name])]
  | (key, names) :: rest =>
    if owner < key then (owner, [name]) :: (key, names) :: rest
    else if owner = key then (key, names ++ [name]) :: rest
    else (key, names) :: addImport owner name rest

def importsOf (settings : Settings) (index : ModelIndex) (scope : Scope) (names : List String) :
    List (String × List String) :=
  names.foldl (fun imports name => match index.scopeOf? name with
    | none => imports
    | some owner =>
      if owner == scope then imports
      else addImport (owner.moduleName settings.defaultScope) name imports) []

def ofScope (settings : Settings) (index : ModelIndex) (contracts : List Contract) (scope : Scope) :
    OutputModule where
  scope := scope
  moduleName := scope.moduleName settings.defaultScope
  models := index.dependencyOrder scope
  operations := (contracts.filter fun contract => contract.scope == scope).map Contract.name
  imports := importsOf settings index scope (needs index contracts scope)

end OutputModule

end ApiContract
