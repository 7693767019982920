import ApiContract.Json.Basic

namespace ApiContract

inductive Literal where
  | string (s : String)
  | int (n : Int)
  | number (x : Double)
  | bool (b : Bool)
  | null

namespace Literal

-- Numbers are compared within their kind, by value.
def same : Literal → Literal → Bool
  | string a, string b => a == b
  | int a, int b => a == b
  | number a, number b => a == b
  | bool a, bool b => a == b
  | null, null => true
  | _, _ => false

instance : BEq Literal := ⟨same⟩

def isWord (n : Int) : Bool := decide (-(Int.pow 2 63) ≤ n) && decide (n < Int.pow 2 63)

def ofJson? : Json → Option Literal
  | .null => some null
  | .bool b => some (bool b)
  | .number (.int n) => some (if isWord n then int n else number (.ofInt n))
  | .number (.float x) => some (number x)
  | .string s => some (string s)
  | .array _ => none
  | .object _ => none

def toJson : Literal → Json
  | string s => .string s
  | int n => .number (.int n)
  | number x => .number (.float x)
  | bool b => .bool b
  | null => .null

end Literal

end ApiContract
