import ApiContract.Number.Shortest

namespace ApiContract.Number

-- Both layouts write the shortest digits that read back; they differ in where positional
-- writing ends, in whether an integer keeps a fraction, and in which way a tie goes.

-- `first` is the decimal exponent of the first digit.
structure Layout where
  tie : Tie
  positional : (first : Int) → Bool
  pointZero : Bool

def Layout.json : Layout :=
  ⟨.even, fun first => -5 ≤ first && first ≤ 15, true⟩

def Layout.plain : Layout :=
  ⟨.up, fun _ => true, false⟩

def zeros (count : Nat) : List Char := List.replicate count '0'

def Layout.writePositional (layout : Layout) (digits : List Char) (exponent : Int) : List Char :=
  if 0 ≤ exponent then
    digits ++ zeros exponent.toNat ++ (if layout.pointZero then ['.', '0'] else [])
  else
    let fractional := (-exponent).toNat
    let padded := zeros (fractional + 1 - digits.length) ++ digits
    let whole := padded.length - fractional
    padded.take whole ++ '.' :: padded.drop whole

def writeScientific (digits : List Char) (first : Int) : List Char :=
  let mantissa := match digits with
    | [] => []
    | [digit] => [digit]
    | digit :: others => digit :: '.' :: others
  mantissa ++ ['e', if first < 0 then '-' else '+'] ++ Nat.toDigits 10 first.natAbs

def Layout.writeSize (layout : Layout) (value : Dyadic) : List Char :=
  let ⟨number, exponent⟩ := shortest layout.tie value
  let digits := Nat.toDigits 10 number
  let first := exponent + digits.length - 1
  if layout.positional first then layout.writePositional digits exponent
  else writeScientific digits first

def Layout.write (layout : Layout) (x : Double) : String :=
  match x with
  | .negativeZero => String.ofList ('-' :: layout.writeSize 0)
  | .exact value =>
    String.ofList ((if value < 0 then ['-'] else []) ++ layout.writeSize value)

end ApiContract.Number
