import ApiContract.Json.Source
import ApiContract.Text.Hex

namespace ApiContract.Json

-- The grammar is the strict one: no comments, no trailing commas, no leading zeros, no
-- raw control characters in strings, nothing after the value but white space.

namespace Reader

def skipSpace (text : List Char) : List Char :=
  text.dropWhile fun c => c = ' ' || c = '\n' || c = '\t' || c = '\r'

def escape? (c : Char) : Option Nat :=
  match c with
  | '"' => some 34
  | '\\' => some 92
  | '/' => some 47
  | 'b' => some 8
  | 'f' => some 12
  | 'n' => some 10
  | 'r' => some 13
  | 't' => some 9
  | _ => none

def codes (read : List Nat) : List Char → Option (List Nat × List Char)
  | [] => none
  | '"' :: rest => some (read, rest)
  | '\\' :: 'u' :: a :: b :: c :: d :: rest =>
    match Text.hexCode? [a, b, c, d] with
    | some code => codes (code :: read) rest
    | none => none
  | '\\' :: c :: rest =>
    match escape? c with
    | some code => codes (code :: read) rest
    | none => none
  | c :: rest => if c.toNat < 32 then none else codes (c.toNat :: read) rest

-- Joins surrogate halves; there is no text if one half stands alone.
def decode? (read : List Char) : List Nat → Option (List Char)
  | [] => some read.reverse
  | high :: rest =>
    if 0xD800 ≤ high && high ≤ 0xDBFF then
      match rest with
      | low :: others =>
        if 0xDC00 ≤ low && low ≤ 0xDFFF then
          decode? (Char.ofNat (0x10000 + (high - 0xD800) * 1024 + (low - 0xDC00)) :: read) others
        else none
      | [] => none
    else if 0xDC00 ≤ high && high ≤ 0xDFFF then none
    else decode? (Char.ofNat high :: read) rest

def string? (text : List Char) : Option (Option String × List Char) :=
  (codes [] text).map fun (read, rest) =>
    ((decode? [] read.reverse).map String.ofList, rest)

def digits (text : List Char) : List Char × List Char :=
  (text.takeWhile isDigit, text.dropWhile isDigit)

def digits? (text : List Char) : Option (List Char × List Char) :=
  match digits text with
  | ([], _) => none
  | found => some found

def whole? (text : List Char) : Option (List Char × List Char) :=
  match digits? text with
  | some ('0' :: _ :: _, _) => none
  | found => found

def fraction? : List Char → Option (Option (List Char) × List Char)
  | '.' :: rest => (digits? rest).map fun (found, rest) => (some found, rest)
  | text => some (none, text)

def power? (negative : Bool) (text : List Char) :
    Option (Option (Bool × List Char) × List Char) :=
  (digits? text).map fun (found, rest) => (some (negative, found), rest)

def exponent? (text : List Char) : Option (Option (Bool × List Char) × List Char) :=
  match text with
  | c :: rest =>
    if c = 'e' || c = 'E' then
      match rest with
      | '-' :: rest => power? true rest
      | '+' :: rest => power? false rest
      | _ => power? false rest
    else some (none, text)
  | [] => some (none, [])

def unsigned? (negative : Bool) (text : List Char) : Option (Source × List Char) := do
  let (whole, text) ← whole? text
  let (fraction, text) ← fraction? text
  let (exponent, text) ← exponent? text
  return (.number ⟨negative, whole, fraction, exponent⟩, text)

def number? : List Char → Option (Source × List Char)
  | '-' :: rest => unsigned? true rest
  | text => unsigned? false text

mutual
-- Every call but the first follows a character that was read, so twice the
-- length of the text is fuel enough.
def value? : Nat → List Char → Option (Source × List Char)
  | 0, _ => none
  | fuel + 1, text =>
    match skipSpace text with
    | 'n' :: 'u' :: 'l' :: 'l' :: rest => some (.null, rest)
    | 't' :: 'r' :: 'u' :: 'e' :: rest => some (.bool true, rest)
    | 'f' :: 'a' :: 'l' :: 's' :: 'e' :: rest => some (.bool false, rest)
    | '"' :: rest => (string? rest).map fun (text, rest) => (.string text, rest)
    | '[' :: rest =>
      match skipSpace rest with
      | ']' :: rest => some (.array [], rest)
      | rest => items? fuel [] rest
    | '\x7b' :: rest =>
      match skipSpace rest with
      | '\x7d' :: rest => some (.object [], rest)
      | rest => fields? fuel [] rest
    | other => number? other
def items? : Nat → List Source → List Char → Option (Source × List Char)
  | 0, _, _ => none
  | fuel + 1, read, text =>
    match value? fuel text with
    | none => none
    | some (item, rest) =>
      match skipSpace rest with
      | ']' :: rest => some (.array (item :: read).reverse, rest)
      | ',' :: rest => items? fuel (item :: read) rest
      | _ => none
def fields? : Nat → List (Option String × Source) → List Char → Option (Source × List Char)
  | 0, _, _ => none
  | fuel + 1, read, text =>
    match skipSpace text with
    | '"' :: rest =>
      match string? rest with
      | none => none
      | some (key, rest) =>
        match skipSpace rest with
        | ':' :: rest =>
          match value? fuel rest with
          | none => none
          | some (item, rest) =>
            match skipSpace rest with
            | '\x7d' :: rest => some (.object ((key, item) :: read).reverse, rest)
            | ',' :: rest => fields? fuel ((key, item) :: read) rest
            | _ => none
        | _ => none
    | _ => none
end

end Reader

def Source.read? (text : String) : Option Source :=
  let chars := text.toList
  match Reader.value? (2 * chars.length + 2) chars with
  | some (source, rest) => if (Reader.skipSpace rest).isEmpty then some source else none
  | none => none

def parse? (text : String) : Option Json :=
  (Source.read? text).bind (Source.toJson? nestingLimit)

end ApiContract.Json
