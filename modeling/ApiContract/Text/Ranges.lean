namespace ApiContract.Text

def inRanges (ranges : List (Nat × Nat)) (c : Char) : Bool :=
  ranges.any fun range => range.1 ≤ c.toNat && c.toNat ≤ range.2

-- `first`, `first + step`, ... up to `last`, each carried `shift` further.
structure ShiftRange where
  first : Nat
  last : Nat
  step : Nat
  shift : Int

def ShiftRange.image (range : ShiftRange) (code : Nat) : Option Nat :=
  if range.first ≤ code && code ≤ range.last && (code - range.first) % range.step == 0 then
    some (code + range.shift).toNat
  else none

def ShiftRange.preimage (range : ShiftRange) (code : Nat) : Option Nat :=
  let source := (code - range.shift).toNat
  if range.image source == some code then some source else none

end ApiContract.Text
