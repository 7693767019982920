import ApiContract.Text.Words

namespace ApiContract

inductive Status where
  | code (n : Nat)
  | range (hundreds : Nat)
  | default
deriving DecidableEq

namespace Status

def isDigit (c : Char) : Bool := '0' ≤ c && c ≤ '9'

def digitsValue (digits : List Char) : Nat :=
  digits.foldl (fun n c => n * 10 + (c.toNat - 48)) 0

-- A number in decimal digits, with at most one plus sign before them.
def unsigned? (text : List Char) : Option Nat :=
  let digits := (Text.dropStart? ['+'] text).getD text
  if digits.isEmpty || !digits.all isDigit then none else some (digitsValue digits)

def between? (low high : Nat) (text : List Char) : Option Nat :=
  (unsigned? text).filter fun n => low ≤ n && n ≤ high

def rangeDigits? (text : List Char) : Option (List Char) :=
  (Text.dropEnd? ['X', 'X'] text).or (Text.dropEnd? ['x', 'x'] text)

def parse? (key : String) : Option Status :=
  if key = "default" then some .default
  else match rangeDigits? key.toList with
    | some digits => (between? 1 5 digits).map .range
    | none => (between? 100 599 key.toList).map .code

def isSuccess : Status → Bool
  | code n => 200 ≤ n && n < 300
  | range hundreds => hundreds == 2
  | default => false

def text : Status → String
  | code n => toString n
  | range hundreds => toString hundreds ++ "XX"
  | default => "default"

end Status

inductive StatusMatch where
  | exact (code : Nat)
  | range (hundreds : Nat)
deriving DecidableEq

def StatusMatch.holds : StatusMatch → Nat → Bool
  | exact code, status => code == status
  | range hundreds, status => status / 100 == hundreds

end ApiContract
