import ApiContract.Model.Basic
import ApiContract.Operation.Basic
import ApiContract.Traverse

namespace ApiContract

-- A schema that the operations of one scope alone can reach belongs to that
-- scope; every other one belongs to the default scope.

namespace Description

def referencesOf (schemas : List (String × Node)) (name : String) : List String :=
  ((schemas.lookup name).map Node.directReferences).getD []

-- Each schema is followed once: one that is defined but does not remain has been followed already.
def reach (schemas : List (String × Node)) (remaining : List String) (pending : List String) :
    Except CompileError (List String) :=
  match pending with
  | [] => .ok []
  | name :: rest =>
    if _found : name ∈ remaining then
      (reach schemas (remaining.erase name) (referencesOf schemas name ++ rest)).map (name :: ·)
    else if Keyed.contains name schemas then reach schemas remaining rest
    else .error (.unresolved name)
termination_by pending.length + (remaining.flatMap (referencesOf schemas)).length
decreasing_by
  · -- what the schema adds to the pending ones no longer remains
    have moved := ((List.perm_cons_erase _found).flatMap_right (referencesOf schemas)).length_eq
    simp only [List.flatMap_cons, List.length_append] at moved
    simp only [List.length_append, List.length_cons]
    omega
  · simp only [List.length_cons]
    omega

def reachedBy (schemas : List (String × Node)) (op : Operation) : Except CompileError (List String) :=
  reach schemas (Keyed.keys schemas) (op.schemas.flatMap Node.directReferences)

def usage (description : Description) : Except CompileError (List (Scope × List String)) :=
  traverse (fun op => (reachedBy description.schemas op).map fun names =>
    (Scope.ofTag op.primaryTag?, names)) description.operations

def scopeFrom (usage : List (Scope × List String)) (name : String) : Scope :=
  match distinct ((usage.filter fun use => use.2.contains name).map Prod.fst) with
  | [scope] => scope
  | _ => .default

def entriesFrom (known : String → Bool) (usage : List (Scope × List String)) (taken : List String) :
    List (String × Node) → Except CompileError (List (String × ModelEntry))
  | [] => .ok []
  | (name, node) :: rest =>
    match node.directReferences.find? fun reference => !known reference with
    | some missing => .error (.unresolved missing)
    | none =>
      let picked := Identifier.pick (Identifier.ofModel name) taken
      let entry : ModelEntry := ⟨name, picked.1, scopeFrom usage name, node.directReferences, node⟩
      (entriesFrom known usage picked.2 rest).map ((name, entry) :: ·)

def resolve (description : Description) : Except CompileError ModelIndex := do
  let usage ← description.usage
  let known := fun name => Keyed.contains name description.schemas
  let entries ← entriesFrom known usage [] description.schemas
  return ⟨entries, []⟩

end Description

end ApiContract
