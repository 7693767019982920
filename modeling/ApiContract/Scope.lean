import ApiContract.Json.Build
import ApiContract.SortedSet

namespace ApiContract

inductive Scope where
  | default
  | tag (name : String)
deriving DecidableEq

namespace Scope

def ofTag : Option String → Scope
  | some name => tag name
  | none => default

def moduleName (defaultName : String) : Scope → String
  | default => defaultName
  | tag name => name

def text : Scope → String := moduleName "<default>"

def before : Scope → Scope → Bool
  | default, tag _ => true
  | tag a, tag b => decide (a < b)
  | _, _ => false

def sorted (scopes : List Scope) : List Scope := SortedSet.ofList before scopes

def encode : Scope → Json
  | default => .tagged "scope" "default" []
  | tag name => .tagged "scope" "tag" [("tag", .string name)]

end Scope

end ApiContract
