import ApiContract.Settings.Basic
import ApiContract.Text.Hex

namespace ApiContract.Settings

-- The four settings are strings and flags at the top level, so only that part of TOML is read. Every
-- other text, including one that repeats a key or has an unknown one, is no settings text.

inductive Value where
  | text (s : String)
  | flag (b : Bool)

namespace Reader

def skipSpace (text : List Char) : List Char :=
  text.dropWhile fun c => c = ' ' || c = '\t'

def isPlain (c : Char) : Bool := c = '\t' || (32 ≤ c.toNat && c.toNat ≠ 127)

def isBare (c : Char) : Bool :=
  ('a' ≤ c && c ≤ 'z') || ('A' ≤ c && c ≤ 'Z') || ('0' ≤ c && c ≤ '9') || c = '_' || c = '-'

def escape? (c : Char) : Option Char :=
  match c with
  | 'b' => some (Char.ofNat 8)
  | 't' => some '\t'
  | 'n' => some '\n'
  | 'f' => some (Char.ofNat 12)
  | 'r' => some '\r'
  | '"' => some '"'
  | '\\' => some '\\'
  | _ => none

def basic? (read : List Char) : List Char → Option (List Char × List Char)
  | [] => none
  | '"' :: rest => some (read.reverse, rest)
  | '\\' :: 'u' :: a :: b :: c :: d :: rest =>
    match Text.hexChar? [a, b, c, d] with
    | some code => basic? (code :: read) rest
    | none => none
  | '\\' :: 'U' :: a :: b :: c :: d :: e :: f :: g :: h :: rest =>
    match Text.hexChar? [a, b, c, d, e, f, g, h] with
    | some code => basic? (code :: read) rest
    | none => none
  | '\\' :: c :: rest =>
    match escape? c with
    | some code => basic? (code :: read) rest
    | none => none
  | c :: rest => if isPlain c then basic? (c :: read) rest else none

def literal? (read : List Char) : List Char → Option (List Char × List Char)
  | [] => none
  | '\x27' :: rest => some (read.reverse, rest)
  | c :: rest => if isPlain c then literal? (c :: read) rest else none

def skipLines : List Char → List Char
  | '\r' :: '\n' :: rest => skipLines rest
  | c :: rest => if c = ' ' || c = '\t' || c = '\n' then skipLines rest else c :: rest
  | [] => []

def endsLine (text : List Char) : Bool :=
  match skipSpace text with
  | '\n' :: _ => true
  | '\r' :: '\n' :: _ => true
  | _ => false

-- Up to two quotes may stand before the closing three.
def multiline? (mark : Char) : Nat → List Char → List Char → Option (List Char × List Char)
  | 0, _, _ => none
  | fuel + 1, read, text =>
    match text with
    | [] => none
    | '\r' :: '\n' :: rest => multiline? mark fuel ('\n' :: read) rest
    | '\n' :: rest => multiline? mark fuel ('\n' :: read) rest
    | c :: rest =>
      if c = mark then
        let quotes := text.takeWhile (· = mark)
        let behind := text.dropWhile (· = mark)
        if quotes.length < 3 then multiline? mark fuel (quotes ++ read) behind
        else if quotes.length ≤ 5 then some ((quotes.drop 3 ++ read).reverse, behind)
        else none
      else if c = '\\' && mark = '"' then
        if endsLine rest then multiline? mark fuel read (skipLines rest)
        else match rest with
          | 'u' :: a :: b :: c :: d :: rest =>
            (Text.hexChar? [a, b, c, d]).bind fun code => multiline? mark fuel (code :: read) rest
          | 'U' :: a :: b :: c :: d :: e :: f :: g :: h :: rest =>
            (Text.hexChar? [a, b, c, d, e, f, g, h]).bind fun code =>
              multiline? mark fuel (code :: read) rest
          | c :: rest => (escape? c).bind fun code => multiline? mark fuel (code :: read) rest
          | [] => none
      else if isPlain c then multiline? mark fuel (c :: read) rest
      else none

def skipFirstLine : List Char → List Char
  | '\r' :: '\n' :: rest => rest
  | '\n' :: rest => rest
  | text => text

def value? (text : List Char) : Option (Value × List Char) :=
  let asText := fun (found : Option (List Char × List Char)) =>
    found.map fun (chars, rest) => (Value.text (String.ofList chars), rest)
  match text with
  | '"' :: '"' :: '"' :: rest => asText (multiline? '"' (rest.length + 1) [] (skipFirstLine rest))
  | '\x27' :: '\x27' :: '\x27' :: rest =>
    asText (multiline? '\x27' (rest.length + 1) [] (skipFirstLine rest))
  | '"' :: rest => asText (basic? [] rest)
  | '\x27' :: rest => asText (literal? [] rest)
  | 't' :: 'r' :: 'u' :: 'e' :: rest => some (.flag true, rest)
  | 'f' :: 'a' :: 'l' :: 's' :: 'e' :: rest => some (.flag false, rest)
  | _ => none

def key? (text : List Char) : Option (String × List Char) :=
  match text with
  | '"' :: rest => (basic? [] rest).map fun (chars, rest) => (String.ofList chars, rest)
  | '\x27' :: rest => (literal? [] rest).map fun (chars, rest) => (String.ofList chars, rest)
  | _ =>
    match text.takeWhile isBare with
    | [] => none
    | chars => some (String.ofList chars, text.dropWhile isBare)

def lineEnd? (text : List Char) : Option (List Char) :=
  let afterComment := match skipSpace text with
    | '#' :: rest => rest.dropWhile isPlain
    | rest => rest
  match afterComment with
  | [] => some []
  | '\n' :: rest => some rest
  | '\r' :: '\n' :: rest => some rest
  | _ => none

def pair? (text : List Char) : Option ((String × Value) × List Char) := do
  let (key, text) ← key? text
  match skipSpace text with
  | '=' :: rest =>
    let (value, rest) ← value? (skipSpace rest)
    return ((key, value), rest)
  | _ => none

def startsPair (text : List Char) : Bool :=
  match skipSpace text with
  | [] => false
  | c :: _ => c ≠ '#' && c ≠ '\n' && c ≠ '\r'

-- Each line takes a character, so the length is fuel enough.
def pairs? : Nat → List (String × Value) → List Char → Option (List (String × Value))
  | _, read, [] => some read.reverse
  | 0, _, _ => none
  | fuel + 1, read, text =>
    if startsPair text then do
      let (pair, rest) ← pair? (skipSpace text)
      let rest ← lineEnd? rest
      pairs? fuel (pair :: read) rest
    else do
      let rest ← lineEnd? text
      pairs? fuel read rest

end Reader

def set? (settings : Settings) : String × Value → Option Settings
  | ("default_scope", .text s) => some { settings with defaultScope := s }
  | ("binary_type", .text s) => some { settings with binaryType := s }
  | ("validate_responses", .flag b) => some { settings with validateResponses := b }
  | ("created_shortcut", .flag b) => some { settings with createdShortcut := b }
  | _ => none

-- A byte order mark before the first line does not count.
def parse? (text : String) : Option Settings := do
  let chars := match text.toList with
    | c :: rest => if c.toNat = 0xFEFF then rest else c :: rest
    | [] => []
  let pairs ← Reader.pairs? (chars.length + 1) [] chars
  if (pairs.map Prod.fst).eraseDups.length = pairs.length then
    pairs.foldlM set? ({} : Settings)
  else none

end ApiContract.Settings
