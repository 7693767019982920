import ApiContract.Json.Basic

namespace ApiContract.Json

def ofDouble (x : Double) : Json := .number (.float x)

def strings (texts : List String) : Json := .array (texts.map .string)

def field? {α : Type} (key : String) (encode : α → Json) (value : Option α) : List (String × Json) :=
  (value.map fun x => (key, encode x)).toList

def flag? (key : String) (flag : Bool) : List (String × Json) :=
  if flag then [(key, .bool true)] else []

def tagged (tag form : String) (fields : List (String × Json)) : Json :=
  .object ((tag, .string form) :: fields)

end ApiContract.Json
