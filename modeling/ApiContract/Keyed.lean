namespace ApiContract.Keyed

-- Maps as lists of pairs, in the order in which their keys were first put in.

variable {κ α β : Type} [BEq κ]

def insert (key : κ) (value : α) : List (κ × α) → List (κ × α)
  | [] => [(key, value)]
  | (k, v) :: rest => if k == key then (k, value) :: rest else (k, v) :: insert key value rest

def ofList (pairs : List (κ × α)) : List (κ × α) :=
  pairs.foldl (fun map pair => insert pair.1 pair.2 map) []

def update (key : κ) (start : α) (change : α → α) (map : List (κ × α)) : List (κ × α) :=
  insert key (change ((map.lookup key).getD start)) map

def keys (map : List (κ × α)) : List κ := map.map Prod.fst

def contains (key : κ) (map : List (κ × α)) : Bool := (map.lookup key).isSome

end ApiContract.Keyed
