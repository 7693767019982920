import ApiContract.Json.Basic
import ApiContract.Number.Layout

namespace ApiContract.Json

def hexDigit (n : Nat) : Char :=
  if n < 10 then Char.ofNat (48 + n) else Char.ofNat (87 + n)

def escapeChar (c : Char) : List Char :=
  if c = '"' then ['\\', '"']
  else if c = '\\' then ['\\', '\\']
  else if c = '\n' then ['\\', 'n']
  else if c = '\r' then ['\\', 'r']
  else if c = '\t' then ['\\', 't']
  else if c.toNat = 8 then ['\\', 'b']
  else if c.toNat = 12 then ['\\', 'f']
  else if c.toNat < 32 then ['\\', 'u', '0', '0', hexDigit (c.toNat / 16), hexDigit (c.toNat % 16)]
  else [c]

def quoted (s : String) : String :=
  String.ofList ('"' :: (s.toList.flatMap escapeChar) ++ ['"'])

def Number.text : Number → String
  | .int n => toString n
  | .float x => ApiContract.Number.Layout.json.write x

mutual
def compact : Json → String
  | null => "null"
  | bool true => "true"
  | bool false => "false"
  | number n => n.text
  | string s => quoted s
  | array items => "[" ++ ",".intercalate (compactAll items) ++ "]"
  | object fields => "\x7b" ++ ",".intercalate (compactFields fields) ++ "\x7d"
def compactAll : List Json → List String
  | [] => []
  | item :: rest => compact item :: compactAll rest
def compactFields : List (String × Json) → List String
  | [] => []
  | (key, value) :: rest => (quoted key ++ ":" ++ compact value) :: compactFields rest
end

def block (opening closing : String) (indent : Nat) (parts : List String) : String :=
  let newline := fun columns => "\n" ++ String.ofList (List.replicate columns ' ')
  if parts.isEmpty then opening ++ closing
  else opening ++ newline (indent + 2) ++ ("," ++ newline (indent + 2)).intercalate parts
    ++ newline indent ++ closing

mutual
def indented (indent : Nat) : Json → String
  | array items => block "[" "]" indent (indentedAll (indent + 2) items)
  | object fields => block "\x7b" "\x7d" indent (indentedFields (indent + 2) fields)
  | other => compact other
def indentedAll (indent : Nat) : List Json → List String
  | [] => []
  | item :: rest => indented indent item :: indentedAll indent rest
def indentedFields (indent : Nat) : List (String × Json) → List String
  | [] => []
  | (key, value) :: rest =>
    (quoted key ++ ": " ++ indented indent value) :: indentedFields indent rest
end

def pretty (value : Json) : String := indented 0 value

end ApiContract.Json
