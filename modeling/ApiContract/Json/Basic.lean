import ApiContract.Number.Double

namespace ApiContract

-- The fields of an object that was read stand in the order of their keys, each key once; those
-- of an object built for printing stand in the order in which they are printed.

-- A number keeps the kind it was written in: `1` and `1.0` are different values.
inductive Json.Number where
  | int (n : Int)
  | float (x : Double)

inductive Json where
  | null
  | bool (b : Bool)
  | number (n : Json.Number)
  | string (s : String)
  | array (items : List Json)
  | object (fields : List (String × Json))

namespace Json

namespace Number

instance : BEq Number where
  beq
    | int a, int b => decide (a = b)
    | float a, float b => a == b
    | _, _ => false

def toDouble : Number → Double
  | int n => .ofInt n
  | float x => x

end Number

mutual
def same : Json → Json → Bool
  | null, null => true
  | bool a, bool b => a == b
  | number a, number b => a == b
  | string a, string b => a == b
  | array a, array b => sameAll a b
  | object a, object b => sameFields a b
  | _, _ => false
def sameAll : List Json → List Json → Bool
  | [], [] => true
  | a :: as, b :: bs => same a b && sameAll as bs
  | _, _ => false
def sameFields : List (String × Json) → List (String × Json) → Bool
  | [], [] => true
  | (k, a) :: as, (l, b) :: bs => k == l && same a b && sameFields as bs
  | _, _ => false
end

instance : BEq Json := ⟨same⟩

def insertField (key : String) (value : Json) : List (String × Json) → List (String × Json)
  | [] => [(key, value)]
  | (k, v) :: rest =>
    if key < k then (key, value) :: (k, v) :: rest
    else if key = k then (key, value) :: rest
    else (k, v) :: insertField key value rest

-- Of a repeated key the last field counts.
def ofFields (fields : List (String × Json)) : Json :=
  .object (fields.foldl (fun sorted field => insertField field.1 field.2 sorted) [])

def get? (key : String) : Json → Option Json
  | object fields => fields.lookup key
  | _ => none

def kind : Json → String
  | null => "null"
  | bool _ => "boolean"
  | number _ => "number"
  | string _ => "string"
  | array _ => "array"
  | object _ => "object"

def ofNat (n : Nat) : Json := .number (.int n)

mutual
def depth : Json → Nat
  | array items => depthAll items + 1
  | object fields => depthFields fields + 1
  | _ => 0
def depthAll : List Json → Nat
  | [] => 0
  | item :: rest => max (depth item) (depthAll rest)
def depthFields : List (String × Json) → Nat
  | [] => 0
  | (_, value) :: rest => max (depth value) (depthFields rest)
end

end Json

end ApiContract
