import ApiContract.Api.Encode
import ApiContract.Api.Render
import ApiContract.CommandLine.Arguments
import ApiContract.Json.Reader
import ApiContract.Json.Writer
import ApiContract.Settings.Reader
import ApiContract.Validator.Check

namespace ApiContract.CommandLine

structure Result where
  exitCode : Nat
  stdout : String := ""
  stderr : String := ""

abbrev Files := String → Except String String

def settings (files : Files) : Option String → Except String Settings
  | none => .ok {}
  | some path => match files path with
    | .error reason => .error ("failed to read " ++ path ++ ": " ++ reason)
    | .ok text => match Settings.parse? text with
      | some settings => .ok settings
      | none => .error "invalid configuration"

def readFile (files : Files) (path : String) : Except String String :=
  (files path).mapError fun reason => "Failed to read " ++ path ++ ": " ++ reason

def compiled (files : Files) (settings : Settings) (document : String) : Except String Api := do
  let text ← readFile files document
  (Api.generate settings text).mapError fun e => document ++ ": " ++ e.message

def compileOutput (files : Files) (document : String) (config : Option String) (format : Format) :
    Except String String := do
  let settings ← settings files config
  let api ← compiled files settings document
  return match format with
    | .json => api.encode.pretty ++ "\n"
    | .summary => api.summary settings

def checkIssues [Pattern.Engine] (files : Files) (document model value : String) (config : Option String) :
    Except String (List Issue) := do
  let settings ← settings files config
  let api ← compiled files settings document
  match api.model? model with
  | none => .error ("Unknown schema '" ++ model ++ "'")
  | some model => do
    let text ← readFile files value
    match Json.parse? text with
    | none => .error ("Invalid JSON in " ++ value)
    | some json => (model.validator.check api.index.validators json).mapError CheckError.message

-- An error is one line; it and every issue make the command fail.
def Command.run [Pattern.Engine] (files : Files) : Command → Result
  | .compile document config format => match compileOutput files document config format with
    | .ok output => ⟨0, output, ""⟩
    | .error message => ⟨1, "", message ++ "\n"⟩
  | .check document model value config => match checkIssues files document model value config with
    | .ok [] => ⟨0, "ok\n", ""⟩
    | .ok issues => ⟨1, String.join (issues.map fun issue => issue.text ++ "\n"), ""⟩
    | .error message => ⟨1, "", message ++ "\n"⟩

def Command.files : Command → List String
  | .compile document config _ => config.toList ++ [document]
  | .check document _ value config => config.toList ++ [document, value]

def usage : String :=
  "Compile OpenAPI schemas into type and validator contracts\n\n"
    ++ "Usage:\n"
    ++ "  compile DOCUMENT [--config FILE] [--format summary|json]\n"
    ++ "  check DOCUMENT --model SCHEMA VALUE [--config FILE]\n"
    ++ "  help\n"

def Request.run [Pattern.Engine] (files : Files) : Request → Result
  | .command c => c.run files
  | .help => ⟨0, usage, ""⟩
  | .version => ⟨0, "0.1.0\n", ""⟩
  | .usageError => ⟨2, "", usage⟩

def Request.files : Request → List String
  | .command c => c.files
  | _ => []

end ApiContract.CommandLine
