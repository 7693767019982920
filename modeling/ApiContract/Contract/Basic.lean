import ApiContract.MediaType
import ApiContract.Operation.Basic
import ApiContract.Scope
import ApiContract.Status
import ApiContract.TypeExpr.Basic
import ApiContract.Validator.Basic

namespace ApiContract

inductive ParameterStyle where
  | simple
  | form
  | matrix
  | label
  | spaceDelimited
  | pipeDelimited
  | deepObject
deriving DecidableEq

namespace ParameterStyle

def all : List ParameterStyle :=
  [simple, form, matrix, label, spaceDelimited, pipeDelimited, deepObject]

def keyword : ParameterStyle → String
  | simple => "simple"
  | form => "form"
  | matrix => "matrix"
  | label => "label"
  | spaceDelimited => "spaceDelimited"
  | pipeDelimited => "pipeDelimited"
  | deepObject => "deepObject"

def parse? (text : String) : Option ParameterStyle := all.find? fun style => style.keyword == text

end ParameterStyle

structure Serialization where
  style : ParameterStyle
  explode : Bool
deriving DecidableEq

def Location.serialization : Location → Serialization
  | .path => ⟨.simple, false⟩
  | .header => ⟨.simple, false⟩
  | .query => ⟨.form, true⟩
  | .cookie => ⟨.form, true⟩

inductive ParameterValue where
  | argument
  | fixed (value : Json)

def ParameterValue.isArgument : ParameterValue → Bool
  | argument => true
  | fixed _ => false

structure ParameterContract where
  name : String
  argument : String
  location : Location
  required : Bool
  type : TypeExpr
  validator : Validator
  -- Only where it is not the usual one of the location.
  serialization : Option Serialization
  doc : Option String
  value : ParameterValue

structure ParameterGroups where
  path : List ParameterContract
  query : List ParameterContract
  header : List ParameterContract

namespace ParameterGroups

def toList (groups : ParameterGroups) : List ParameterContract :=
  groups.path ++ groups.query ++ groups.header

def arguments (groups : ParameterGroups) : List ParameterContract :=
  groups.toList.filter fun p => p.value.isArgument

def isEmpty (groups : ParameterGroups) : Bool := groups.toList.isEmpty

def ofList (parameters : List ParameterContract) : ParameterGroups where
  path := parameters.filter fun p => p.location == .path
  query := parameters.filter fun p => p.location == .query
  header := parameters.filter fun p => p.location == .header

end ParameterGroups

structure BodyVariant where
  mediaType : String
  argument : String
  encoding : MediaType.Encoding
  type : TypeExpr
  validator : Validator

inductive BodyContract where
  | single (argument mediaType : String) (required : Bool) (encoding : MediaType.Encoding)
      (type : TypeExpr) (validator : Validator)
  -- Several media types: an argument tells them apart, and may be left out for one of them.
  | variants (discriminator : String) (defaultMediaType : Option String) (required : Bool)
      (variants : List BodyVariant) (type : TypeExpr)

structure ResponseVariant where
  status : Status
  -- Absent when the response has no content.
  mediaType : Option String
  success : Bool
  type : TypeExpr
  validator : Option Validator
  representation : MediaType.Representation

structure ResponseContract where
  variants : List ResponseVariant
  -- The union of status, media type and body over all successful answers.
  envelope : TypeExpr
  result : TypeExpr
  error : TypeExpr
  validator : Option Validator

inductive Step where
  | coerce (media : List (String × MediaType.Representation))
  | validate
  | createdShortcut (field : String)
  | extractBody
  | discardBody

structure Contract where
  name : String
  method : Method
  path : String
  scope : Scope
  summary : Option String
  description : Option String
  deprecated : Bool
  parameters : ParameterGroups
  requestBody : Option BodyContract
  response : ResponseContract
  steps : List Step

namespace BodyContract

def references : BodyContract → List String
  | single _ _ _ _ type validator => type.references ++ validator.references
  | variants _ _ _ members _ =>
    members.flatMap fun variant => variant.type.references ++ variant.validator.references

end BodyContract

namespace Contract

def references (contract : Contract) : List String :=
  (contract.parameters.toList.flatMap fun p => p.type.references ++ p.validator.references)
    ++ (match contract.requestBody with
      | none => []
      | some body => body.references)
    ++ contract.response.variants.flatMap fun variant => variant.type.references
      ++ (match variant.validator with
        | none => []
        | some validator => validator.references)

end Contract

end ApiContract
