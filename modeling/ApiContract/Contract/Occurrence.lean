import ApiContract.Model.Basic

namespace ApiContract

structure Occurrence where
  type : TypeExpr
  validator : Validator

-- Everything that the type or the validator refers to has to be in the index.
def Occurrence.ofNode (index : ModelIndex) (node : Node) : Except CompileError Occurrence := do
  let type := TypeExpr.ofNode node
  let validator ← Validator.within index node
  match (type.references ++ validator.references).find? fun name => !index.contains name with
  | some missing => .error (.unresolved missing)
  | none => .ok ⟨type, validator⟩

end ApiContract
