import ApiContract.Text.Uppercase
import ApiContract.Text.Words

namespace ApiContract.Identifier

def reservedWords : List String :=
  ["async", "await", "break", "case", "catch", "class", "const", "continue", "debugger", "default",
    "delete", "do", "else", "enum", "export", "extends", "false", "finally", "for", "function", "if",
    "implements", "import", "in", "instanceof", "interface", "let", "new", "null", "package",
    "private", "protected", "public", "return", "static", "super", "switch", "this", "throw", "true",
    "try", "typeof", "var", "void", "while", "with", "yield"]

def isReserved (word : String) : Bool := reservedWords.contains word

def isLetter (c : Char) : Bool := ('a' ≤ c && c ≤ 'z') || ('A' ≤ c && c ≤ 'Z')

def isDigit (c : Char) : Bool := '0' ≤ c && c ≤ '9'

def isStart (c : Char) : Bool := isLetter c || c == '_' || c == '$'

def isPart (c : Char) : Bool := isLetter c || isDigit c || c == '_' || c == '$'

def needsQuotes (name : String) : Bool :=
  match name.toList with
  | [] => true
  | c :: rest => !isStart c || !rest.all isPart

def escapeChars : List Char → List Char
  | [] => []
  | c :: rest => if c = '\\' ∨ c = '"' then '\\' :: c :: escapeChars rest else c :: escapeChars rest

def escape (s : String) : String := String.ofList (escapeChars s.toList)

def quote (s : String) : String := "\"" ++ escape s ++ "\""

theorem toList_quote (s : String) : (quote s).toList = '"' :: (escapeChars s.toList ++ ['"']) := by
  simp [quote, escape]

def propertyKey (name : String) : String := if needsQuotes name then quote name else name

-- The result is not empty, starts with no digit and is no reserved word.
def finish (name : List Char) : String :=
  match name with
  | [] => "_empty"
  | c :: _ =>
    let started := if isDigit c then '_' :: name else name
    let word := String.ofList started
    if isReserved word then "_" ++ word else word

-- A hyphen, a dot or a space starts a new capitalized word; the first word keeps its case.
def ofName (name : String) : String :=
  match Text.splitWhere (fun c => c == '-' || c == '.' || c == ' ') name.toList with
  | [] => finish []
  | first :: words =>
    finish (first ++ words.flatMap fun word => (Text.capitalize (String.ofList word)).toList)

def upperFirst : List Char → List Char
  | [] => []
  | c :: rest => c.toUpper :: rest

def lowerFirst : List Char → List Char
  | [] => []
  | c :: rest => c.toLower :: rest

def asciiWords (name : List Char) : List (List Char) :=
  (Text.splitWhere (fun c => !(isLetter c || isDigit c)) name).filter fun word => !word.isEmpty

def camelChars (name : List Char) : List Char :=
  match asciiWords name with
  | [] => []
  | first :: words => lowerFirst first ++ words.flatMap upperFirst

def camelCase (name : String) : String := String.ofList (camelChars name.toList)

theorem toList_camelCase (name : String) : (camelCase name).toList = camelChars name.toList := by
  simp [camelCase]

def pascalCase (name : String) : String := String.ofList (upperFirst (camelCase name).toList)

theorem toList_pascalCase (name : String) : (pascalCase name).toList = upperFirst (camelChars name.toList) := by
  simp [pascalCase, toList_camelCase]

def ofModel (name : String) : String := finish (pascalCase name).toList

def ofField (name : String) : String := finish (camelCase name).toList

-- Numbers have no upper bound. A signed counter of 32 bits gives the same
-- names while fewer than 2^31-1 names are taken.
def numbered (base : String) (n : Nat) : String := base ++ toString n

def freshFrom (base : String) (taken : List String) : Nat → Nat → String
  | 0, n => numbered base n
  | fuel + 1, n =>
    if taken.contains (numbered base n) then freshFrom base taken fuel (n + 1) else numbered base n

-- One of as many candidates as there are taken names is free, because `base`
-- itself is one of the taken names.
def fresh (base : String) (taken : List String) : String :=
  if taken.contains base then freshFrom base taken taken.length 2 else base

def pick (base : String) (taken : List String) : String × List String :=
  let name := fresh base taken
  (name, name :: taken)

def pickAll (taken : List String) : List String → List String × List String
  | [] => ([], taken)
  | base :: rest =>
    let picked := pick base taken
    let others := pickAll picked.2 rest
    (picked.1 :: others.1, others.2)

end ApiContract.Identifier
