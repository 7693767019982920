import ApiContract.Operation.Basic
import ApiContract.Schema.Keywords

namespace ApiContract.Document

abbrev Content := List (String × Option Schema)

structure Parameter where
  name : String
  location : String
  required : Bool
  style : Option String
  explode : Option Bool
  schema : Option Schema
  content : Option Content
  description : Option String
  deprecated : Bool

structure RequestBody where
  required : Bool
  description : Option String
  content : Content

structure Response where
  description : Option String
  content : Content

structure Operation where
  operationId : Option String
  summary : Option String
  description : Option String
  tags : List String
  deprecated : Bool
  parameters : List Parameter
  requestBody : Option RequestBody
  responses : List (String × Response)

structure PathItem where
  operations : List (Method × Operation)
  parameters : List Parameter

end ApiContract.Document

namespace ApiContract

structure Document where
  paths : List (String × Document.PathItem)
  schemas : List (String × Schema)

end ApiContract
