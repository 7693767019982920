import ApiContract.Identifier
import ApiContract.Text.CharClass

namespace ApiContract.MediaType

def wildcard : String := "*/*"

def essence (mediaType : String) : String :=
  let bare := Text.trim (String.ofList (Text.before (· == ';') mediaType.toList))
  String.ofList (bare.toList.map Char.toLower)

def startsWith (start text : String) : Bool := start.toList.isPrefixOf text.toList

def endsWith (ending text : String) : Bool := ending.toList.isSuffixOf text.toList

def isJson (mediaType : String) : Bool :=
  essence mediaType == "application/json" || endsWith "+json" (essence mediaType)

def subtype (essence : String) : List Char :=
  let chars := essence.toList
  let sub := if chars.contains '/' then (chars.dropWhile (· != '/')).drop 1 else chars
  (Text.dropStart? ['x', '-'] sub).getD sub

def argument (mediaType : String) : String :=
  if isJson mediaType then "json"
  else
    let name := Identifier.camelChars (subtype (essence mediaType))
    if name.isEmpty then "body" else Identifier.ofField (String.ofList name)

inductive Encoding where
  | json
  | formData
  | urlEncoded
  | text
  | binary
deriving DecidableEq

def Encoding.keyword : Encoding → String
  | json => "json"
  | formData => "formData"
  | urlEncoded => "urlEncoded"
  | text => "text"
  | binary => "binary"

def encoding (mediaType : String) : Encoding :=
  let essence := essence mediaType
  if isJson essence then .json
  else if essence == "multipart/form-data" then .formData
  else if essence == "application/x-www-form-urlencoded" then .urlEncoded
  else if startsWith "text/" essence then .text
  else .binary

inductive Representation where
  | json
  | text
  | blob
  | unknown
deriving DecidableEq

def Representation.keyword : Representation → String
  | json => "json"
  | text => "text"
  | blob => "blob"
  | unknown => "unknown"

def representation (mediaType : String) : Representation :=
  let essence := essence mediaType
  if essence == "application/json" || endsWith "+json" essence then .json
  else if startsWith "text/" essence || essence == "application/xml" || endsWith "+xml" essence then
    .text
  else if essence == "application/octet-stream" || startsWith "image/" essence
      || startsWith "audio/" essence || startsWith "video/" essence
      || essence == "application/pdf" then
    .blob
  else .unknown

end ApiContract.MediaType
