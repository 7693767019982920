import ApiContract.Keyed
import ApiContract.Schema.Node

namespace ApiContract

inductive Method where
  | get
  | put
  | post
  | delete
  | options
  | head
  | patch
  | trace
deriving DecidableEq

namespace Method

def all : List Method := [get, put, post, delete, options, head, patch, trace]

def key : Method → String
  | get => "get"
  | put => "put"
  | post => "post"
  | delete => "delete"
  | options => "options"
  | head => "head"
  | patch => "patch"
  | trace => "trace"

def text : Method → String
  | get => "GET"
  | put => "PUT"
  | post => "POST"
  | delete => "DELETE"
  | options => "OPTIONS"
  | head => "HEAD"
  | patch => "PATCH"
  | trace => "TRACE"

def parse? (text : String) : Option Method := all.find? fun method => method.text == text

end Method

inductive Location where
  | path
  | query
  | header
  | cookie
deriving DecidableEq

namespace Location

def all : List Location := [path, query, header, cookie]

def keyword : Location → String
  | path => "path"
  | query => "query"
  | header => "header"
  | cookie => "cookie"

def parse? (text : String) : Option Location := all.find? fun location => location.keyword == text

end Location

structure Parameter where
  name : String
  location : Location
  required : Bool
  style : Option String := none
  explode : Option Bool := none
  schema : Node
  description : Option String := none
  deprecated : Bool := false

structure RequestBody where
  required : Bool := false
  description : Option String := none
  content : List (String × Node)

structure Response where
  status : String
  description : Option String := none
  content : List (String × Option Node) := []

structure Operation where
  name : String
  operationId : Option String := none
  method : Method
  path : String
  tags : List String := []
  summary : Option String := none
  description : Option String := none
  deprecated : Bool := false
  parameters : List Parameter := []
  requestBody : Option RequestBody := none
  responses : List Response := []

namespace Operation

def primaryTag? (op : Operation) : Option String := op.tags.head?

def schemas (op : Operation) : List Node :=
  op.parameters.map Parameter.schema
    ++ (match op.requestBody with
      | none => []
      | some body => body.content.map Prod.snd)
    ++ op.responses.flatMap fun response => response.content.filterMap Prod.snd

end Operation

structure Description where
  schemas : List (String × Node) := []
  operations : List Operation := []

namespace Description

def define (name : String) (node : Node) (schemas : List (String × Node)) : List (String × Node) :=
  Keyed.insert name { node with name := some name } schemas

end Description

end ApiContract
