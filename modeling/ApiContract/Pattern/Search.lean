import ApiContract.Pattern.Reader

namespace ApiContract

-- A match from a place ends in a set of places. Repetition collects the places that can be
-- reached; there are no more of them than characters, so it collects often enough.

namespace Spot

def onward : Option Char → List Char → List Spot
  | before, [] => [⟨before, []⟩]
  | before, c :: rest => ⟨before, c :: rest⟩ :: onward (some c) rest

-- What follows a place determines it.
def once : List Spot → List Spot
  | [] => []
  | spot :: rest =>
    spot :: (once rest).filter fun other => other.rest.length != spot.rest.length

end Spot

namespace Pattern

def advance (step : Spot → List Spot) (spots : List Spot) : List Spot :=
  Spot.once (spots.flatMap step)

def after (step : Spot → List Spot) : Nat → List Spot → List Spot
  | 0, spots => spots
  | count + 1, spots => if spots.isEmpty then [] else after step count (advance step spots)

def within (step : Spot → List Spot) : Nat → List Spot → List Spot
  | 0, spots => spots
  | count + 1, spots =>
    let more := Spot.once (spots ++ spots.flatMap step)
    if more.length = spots.length then spots else within step count more

def ends : Pattern → Spot → List Spot
  | empty, spot => [spot]
  | set s, spot =>
    match spot.rest with
    | [] => []
    | c :: rest => if s.mem c then [⟨some c, rest⟩] else []
  | assertion a, spot => if a.holds spot then [spot] else []
  | sequence first second, spot => advance (ends second) (ends first spot)
  | choice left right, spot => Spot.once (ends left spot ++ ends right spot)
  | repeated p min none, spot =>
    within (ends p) (spot.rest.length + 1) (after (ends p) min [spot])
  | repeated p min (some max), spot =>
    within (ends p) (max - min) (after (ends p) min [spot])

def occursIn (pattern : Pattern) (text : String) : Bool :=
  (Spot.onward none text.toList).any fun spot => !(pattern.ends spot).isEmpty

instance linear : Engine where
  test? pattern := (parse? pattern).map occursIn

end Pattern

end ApiContract
