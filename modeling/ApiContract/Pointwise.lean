namespace ApiContract

def pointwise {α β : Type} (holds : α → β → Bool) : List α → List β → Bool
  | [], [] => true
  | x :: xs, y :: ys => holds x y && pointwise holds xs ys
  | _, _ => false

def pointwise? {α β : Type} (holds : α → β → Bool) : Option α → Option β → Bool
  | none, none => true
  | some x, some y => holds x y
  | _, _ => false

end ApiContract
