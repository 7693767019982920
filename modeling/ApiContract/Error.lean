namespace ApiContract

inductive Unsupported where
  | keyword (word : String)
  | cookieParameter (parameter method path : String)
  | parameterStyle (style location parameter method path : String)
  | optionalPathParameter (parameter method path : String)

inductive Fault where
  | malformed
  | foreignReference (reference : String)
  | duplicateOperation (name method path : String)
  | duplicateParameter (location name level method path : String)
  | unknownLocation (location parameter : String)
  | invalidStatus (status method path : String)

inductive CompileError where
  | unsupported (what : Unsupported)
  | unresolved (name : String)
  | document (fault : Fault)

def componentStart : String := "#/components/schemas/"

def Unsupported.message : Unsupported → String
  | keyword word => "schema keyword '" ++ word ++ "'"
  | cookieParameter parameter method path =>
    "cookie parameter '" ++ parameter ++ "' in " ++ method ++ " " ++ path
  | parameterStyle style location parameter method path =>
    "style '" ++ style ++ "' for " ++ location ++ " parameter '" ++ parameter ++ "' in " ++ method
      ++ " " ++ path
  | optionalPathParameter parameter method path =>
    "optional path parameter '" ++ parameter ++ "' in " ++ method ++ " " ++ path

def Fault.message : Fault → String
  | malformed => "failed to parse OpenAPI document"
  | foreignReference reference =>
    "unsupported reference '" ++ reference ++ "': only " ++ componentStart ++ "<Name> is resolved"
  | duplicateOperation name method path =>
    "duplicate operation name '" ++ name ++ "' (" ++ method ++ " " ++ path
      ++ "); each operation must have a unique identifier"
  | duplicateParameter location name level method path =>
    "duplicate " ++ location ++ " parameter '" ++ name ++ "' in " ++ level ++ " parameters of "
      ++ method ++ " " ++ path
  | unknownLocation location parameter =>
    "unknown location '" ++ location ++ "' for parameter '" ++ parameter ++ "'"
  | invalidStatus status method path =>
    "invalid response status '" ++ status ++ "' in " ++ method ++ " " ++ path

def CompileError.message : CompileError → String
  | unsupported what => "unsupported " ++ what.message
  | unresolved name => "unresolved schema reference '" ++ name ++ "'"
  | document fault => "invalid document: " ++ fault.message

end ApiContract
