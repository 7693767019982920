import ApiContract.Identifier

namespace ApiContract

structure Names where
  binaryType : String := "Blob"
  models : List (String × String) := []

namespace Names

def model (names : Names) (schema : String) : String :=
  (names.models.lookup schema).getD (Identifier.ofModel schema)

def validator (names : Names) (schema : String) : String := names.model schema ++ "Schema"

end Names

end ApiContract
