namespace ApiContract

-- A double is held by its exact value, a dyadic number. Only a zero carries more than its value: the
-- sign it was written with. Rounding is to the nearest double, a tie going to the even last digit.

inductive Double where
  | exact (value : Dyadic)
  | negativeZero

namespace Double

def value : Double → Dyadic
  | exact value => value
  | negativeZero => 0

def zero : Double := .exact 0

instance : BEq Double := ⟨fun a b => decide (a.value = b.value)⟩

theorem beq_iff {a b : Double} : (a == b) = true ↔ a.value = b.value := by
  simp [BEq.beq]

def isIntegral (x : Double) : Bool :=
  match x.value with
  | .zero => true
  | .ofOdd _ places _ => places ≤ 0

def fraction : Dyadic → Nat × Nat
  | .zero => (0, 1)
  | .ofOdd n places _ => (n.natAbs <<< (-places).toNat, 1 <<< places.toNat)

def nearestQuotient (n d : Nat) : Nat :=
  let whole := n / d
  let twice := 2 * (n % d)
  if twice < d then whole
  else if d < twice then whole + 1
  else if whole % 2 = 0 then whole else whole + 1

-- The binary exponent of the last place that a double near `n / d` has: 53 places from
-- the leading one, and none below the last place of the least double.
def lastPlace (n d : Nat) : Int :=
  let guess : Int := n.log2 - d.log2
  let leading := if d <<< guess.toNat ≤ n <<< (-guess).toNat then guess else guess - 1
  max (leading - 52) (-1074)

def nearestRatio (n d : Nat) : Dyadic :=
  let place := lastPlace n d
  .ofIntWithPrec (nearestQuotient (n <<< (-place).toNat) (d <<< place.toNat)) (-place)

def limit : Dyadic := .ofIntWithPrec 1 (-1024)

def product (a b : Dyadic) : Dyadic :=
  nearestRatio ((fraction a).1 * (fraction b).1) ((fraction a).2 * (fraction b).2)

def quotient (a b : Dyadic) : Dyadic :=
  nearestRatio ((fraction a).1 * (fraction b).2) ((fraction a).2 * (fraction b).1)

def signed (negative : Bool) (size : Dyadic) : Double :=
  if negative then (if size = 0 then .negativeZero else .exact (-size)) else .exact size

def ofInt (n : Int) : Double :=
  signed (n < 0) (nearestRatio n.natAbs 1)

def powerOfTen (exponent : Nat) : Dyadic :=
  nearestRatio (Nat.pow 10 exponent) 1

-- A divisor of at most 10^308 is applied in one step; a larger one takes
-- 10^308 at a time, until nothing is left of the number.
def scaleDown (size : Dyadic) (exponent : Nat) : Dyadic :=
  if size = 0 then 0
  else if exponent ≤ 308 then quotient size (powerOfTen exponent)
  else scaleDown (quotient size (powerOfTen 308)) (exponent - 308)
termination_by exponent

-- `digits` is rounded first and the product or quotient again. There is none
-- when the result is beyond every double.
def ofDecimal? (digits : Nat) (exponent : Int) : Option Dyadic :=
  let size := nearestRatio digits 1
  if size = 0 then some 0
  else if 308 < exponent then none
  else if 0 ≤ exponent then
    let scaled := product size (powerOfTen exponent.toNat)
    if scaled < limit then some scaled else none
  else some (scaleDown size (-exponent).toNat)

def multipleTolerance : Dyadic := nearestRatio 1 (Nat.pow 10 9)

-- The quotient by `step`, rounded to a double, is an integer up to the tolerance. Everything is
-- a multiple of zero, and a quotient beyond every double is not an integer.
def isMultipleOf (x step : Double) : Bool :=
  if step.value = 0 then true
  else
    let ratio := quotient x.value step.value
    if limit ≤ ratio then false
    else
      let (n, d) := fraction ratio
      let distance := min (n % d) (d - n % d)
      decide (Dyadic.ofIntWithPrec distance (d.log2) < multipleTolerance)

end Double

end ApiContract
