import ApiContract.Json.Basic

namespace ApiContract.Json

-- A source keeps what a value forgets: the order of fields, repeated keys, the spelling
-- of numbers, and strings that lack half of a surrogate pair. So a number too large for
-- a double or half a pair is an error only where the value is used.

structure Numeral where
  negative : Bool
  whole : List Char
  fraction : Option (List Char)
  exponent : Option (Bool × List Char)

inductive Source where
  | null
  | bool (b : Bool)
  | number (numeral : Numeral)
  | string (text : Option String)
  | array (items : List Source)
  | object (fields : List (Option String × Source))

def digitValue (c : Char) : Nat := c.toNat - 48

def isDigit (c : Char) : Bool := '0' ≤ c && c ≤ '9'

namespace Numeral

def digitsValue (digits : List Char) : Nat :=
  digits.foldl (fun n c => n * 10 + digitValue c) 0

def takeDigits (start : Nat) : List Char → Nat × List Char
  | [] => (start, [])
  | c :: rest =>
    let next := start * 10 + digitValue c
    if next < Nat.pow 2 64 then takeDigits next rest else (start, c :: rest)

-- The double that the numeral spells. Digits that do not fit 64 bits are dropped:
-- before the point each raises the exponent, after the point they are ignored.
def toDouble? (numeral : Numeral) : Option Double :=
  let (whole, dropped) := takeDigits 0 numeral.whole
  let fraction := numeral.fraction.getD []
  let (digits, ignored) := takeDigits whole fraction
  let written : Int := match numeral.exponent with
    | none => 0
    | some (false, power) => digitsValue power
    | some (true, power) => -digitsValue power
  let exponent := written + dropped.length - (fraction.length - ignored.length : Nat)
  (Double.ofDecimal? digits exponent).map (Double.signed numeral.negative)

-- A numeral without fraction and exponent is an integer if it fits 64 bits,
-- signed or not; a negative zero is a double, as every other numeral is.
def toNumber? (numeral : Numeral) : Option Number :=
  match numeral.fraction, numeral.exponent with
  | none, none =>
    let n := digitsValue numeral.whole
    if numeral.negative then
      if 0 < n && n ≤ Nat.pow 2 63 then some (.int (-n)) else numeral.toDouble?.map .float
    else if n < Nat.pow 2 64 then some (.int n) else numeral.toDouble?.map .float
  | _, _ => numeral.toDouble?.map .float

end Numeral

def nestingLimit : Nat := 127

namespace Source

mutual
def toJson? (levels : Nat) : Source → Option Json
  | null => some .null
  | bool b => some (.bool b)
  | number numeral => numeral.toNumber?.map .number
  | string text => text.map .string
  | array items =>
    if levels = 0 then none else (allToJson? (levels - 1) items).map .array
  | object fields =>
    if levels = 0 then none else (fieldsToJson? (levels - 1) fields).map .ofFields
def allToJson? (levels : Nat) : List Source → Option (List Json)
  | [] => some []
  | item :: rest => do
    let value ← toJson? levels item
    let values ← allToJson? levels rest
    return value :: values
def fieldsToJson? (levels : Nat) : List (Option String × Source) → Option (List (String × Json))
  | [] => some []
  | (key, item) :: rest => do
    let name ← key
    let value ← toJson? levels item
    let values ← fieldsToJson? levels rest
    return (name, value) :: values
end

end Source

end ApiContract.Json
