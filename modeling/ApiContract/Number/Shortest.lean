import ApiContract.Number.Double

namespace ApiContract.Number

-- The numbers that round to a double form an interval around it. For one digit, two digits and so
-- on, the double's two neighbours on that decimal grid are tried; the first grid with a neighbour
-- inside the interval gives the digits, the nearer neighbour if both are inside.

inductive Tie where
  | even
  | up

structure Decimal where
  digits : Nat
  exponent : Int

namespace Decimal

def stripZeros (digits : Nat) (exponent : Int) : Nat → Decimal
  | 0 => ⟨digits, exponent⟩
  | fuel + 1 =>
    if digits ≠ 0 ∧ digits % 10 = 0 then stripZeros (digits / 10) (exponent + 1) fuel
    else ⟨digits, exponent⟩

end Decimal

-- The numbers that round to `center`, all as multiples of `1 / scale`.
structure Interval where
  low : Nat
  center : Nat
  high : Nat
  scale : Nat
  closed : Bool

namespace Interval

-- The interval of the double `n * 2 ^ (-places)`, with `n` odd or zero. A quarter of the last place
-- is the unit: the neighbour below a power of two is only half as far as the one above.
def around (n : Nat) (places : Int) : Interval :=
  let last := max (n.log2 - places - 52) (-1074)
  let mantissa := n <<< (-places - last).toNat
  let below := if mantissa = Nat.pow 2 52 ∧ -1074 < last then 1 else 2
  let up := (last - 2).toNat
  ⟨(4 * mantissa - below) <<< up, (4 * mantissa) <<< up, (4 * mantissa + 2) <<< up,
    1 <<< (2 - last).toNat, mantissa % 2 = 0⟩

def contains (range : Interval) (n d : Nat) : Bool :=
  let scaled := n * range.scale
  if range.closed then range.low * d ≤ scaled && scaled ≤ range.high * d
  else range.low * d < scaled && scaled < range.high * d

def pick? (range : Interval) (tie : Tie) (exponent : Int) : Option Nat :=
  let up := Nat.pow 10 exponent.toNat
  let down := Nat.pow 10 (-exponent).toNat
  let below := range.center * down / (range.scale * up)
  let inside := fun n => range.contains (n * up) down
  match inside below, inside (below + 1) with
  | true, true =>
    let twice := 2 * range.center * down
    let middle := (2 * below + 1) * up * range.scale
    if twice < middle then some below
    else if middle < twice then some (below + 1)
    else match tie with
      | .up => some (below + 1)
      | .even => some (if below % 2 = 0 then below else below + 1)
  | true, false => some below
  | false, true => some (below + 1)
  | false, false => none

def leading (range : Interval) : Int :=
  let whole := range.center / range.scale
  if whole ≠ 0 then (Nat.toDigits 10 whole).length - 1
  else -(Nat.toDigits 10 ((range.scale - 1) / range.center)).length

def search (range : Interval) (tie : Tie) (exponent : Int) : Nat → Decimal
  | 0 => ⟨0, 0⟩
  | fuel + 1 =>
    match range.pick? tie exponent with
    | some digits => Decimal.stripZeros digits exponent 20
    | none => search range tie (exponent - 1) fuel

end Interval

def shortest (tie : Tie) (value : Dyadic) : Decimal :=
  match value with
  | .zero => ⟨0, 0⟩
  | .ofOdd n places _ =>
    let range := Interval.around n.natAbs places
    range.search tie range.leading 18

end ApiContract.Number
