namespace ApiContract

def distinct {α : Type} [BEq α] : List α → List α
  | [] => []
  | x :: rest => x :: (distinct rest).filter fun y => !(x == y)

end ApiContract
