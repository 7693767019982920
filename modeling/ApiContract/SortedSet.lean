namespace ApiContract.SortedSet

variable {α : Type} (before : α → α → Bool)

def insert (x : α) : List α → List α
  | [] => [x]
  | y :: rest =>
    if before x y then x :: y :: rest
    else if before y x then y :: insert x rest
    else y :: rest

def ofList (xs : List α) : List α := xs.foldl (fun set x => insert before x set) []

def ofStrings (texts : List String) : List String := ofList (fun a b => decide (a < b)) texts

end ApiContract.SortedSet
