import ApiContract.Text.Words

namespace ApiContract.CommandLine

-- Arguments are taken from left to right, and the first one that does not fit,
-- or that asks for help, decides.

inductive Format where
  | summary
  | json
deriving DecidableEq

def Format.parse? : String → Option Format
  | "summary" => some summary
  | "json" => some json
  | _ => none

inductive Command where
  | compile (document : String) (config : Option String) (format : Format)
  | check (document model value : String) (config : Option String)

inductive Request where
  | command (command : Command)
  | help
  | version
  | usageError

structure Taken where
  positionals : List String := []
  options : List (String × String) := []

inductive Scan where
  | taken (taken : Taken)
  | help
  | usageError

structure Accepted where
  positionals : Nat
  options : List String

def isFlag (arg : String) : Bool :=
  match arg.toList with
  | '-' :: _ :: _ => true
  | _ => false

def addPositional? (accepted : Accepted) (arg : String) (taken : Taken) : Option Taken :=
  if arg.isEmpty || accepted.positionals ≤ taken.positionals.length then none
  else some { taken with positionals := taken.positionals ++ [arg] }

def fits (option value : String) : Bool :=
  match option with
  | "--config" => !value.isEmpty
  | "--format" => (Format.parse? value).isSome
  | _ => true

def addOption? (accepted : Accepted) (option value : String) (taken : Taken) : Option Taken :=
  if accepted.options.contains option && !(taken.options.any fun entry => entry.1 == option)
      && fits option value then
    some { taken with options := taken.options ++ [(option, value)] }
  else none

-- Everything behind a double hyphen is positional.
def scanPositionals (accepted : Accepted) : Taken → List String → Scan
  | taken, [] => .taken taken
  | taken, arg :: rest =>
    match addPositional? accepted arg taken with
    | some taken => scanPositionals accepted taken rest
    | none => .usageError

def splitOption (arg : String) : String × Option String :=
  let chars := arg.toList
  let name := String.ofList (Text.before (· == '=') chars)
  if chars.contains '=' then (name, some (String.ofList ((chars.dropWhile (· != '=')).drop 1)))
  else (name, none)

def scan (accepted : Accepted) : Taken → List String → Scan
  | taken, [] => .taken taken
  | taken, arg :: rest =>
    match arg.toList with
    | ['-', '-'] => scanPositionals accepted taken rest
    | '-' :: '-' :: _ =>
      match splitOption arg, rest with
      | ("--help", none), _ => .help
      | (option, some value), rest =>
        match addOption? accepted option value taken with
        | some taken => scan accepted taken rest
        | none => .usageError
      | (_, none), [] => .usageError
      | (option, none), value :: rest =>
        if isFlag value then .usageError
        else match addOption? accepted option value taken with
          | some taken => scan accepted taken rest
          | none => .usageError
    | '-' :: 'h' :: _ => .help
    | '-' :: _ :: _ => .usageError
    | _ =>
      match addPositional? accepted arg taken with
      | some taken => scan accepted taken rest
      | none => .usageError

namespace Taken

def compile? (taken : Taken) : Option Command :=
  match taken.positionals with
  | [document] =>
    some (.compile document (taken.options.lookup "--config")
      (((taken.options.lookup "--format").bind Format.parse?).getD .summary))
  | _ => none

def check? (taken : Taken) : Option Command :=
  match taken.positionals, taken.options.lookup "--model" with
  | [document, value], some model =>
    some (.check document model value (taken.options.lookup "--config"))
  | _, _ => none

end Taken

def commandRequest (accepted : Accepted) (build : Taken → Option Command) (args : List String) : Request :=
  match scan accepted {} args with
  | .help => .help
  | .usageError => .usageError
  | .taken taken => match build taken with
    | some command => .command command
    | none => .usageError

def helpRequest : List String → Request
  | [] => .help
  | [topic] => if ["compile", "check", "help"].contains topic then .help else .usageError
  | _ => .usageError

def Request.ofArguments : List String → Request
  | [] => .help
  | ["--"] => .help
  | "compile" :: args => commandRequest ⟨1, ["--config", "--format"]⟩ Taken.compile? args
  | "check" :: args => commandRequest ⟨2, ["--model", "--config"]⟩ Taken.check? args
  | "help" :: args => helpRequest args
  | "--help" :: _ => .help
  | "--version" :: _ => .version
  | arg :: _ =>
    match arg.toList with
    | '-' :: 'h' :: _ => .help
    | '-' :: 'V' :: _ => .version
    | _ => .usageError

end ApiContract.CommandLine
