import ApiContract.Json.Source
import ApiContract.Keyed

namespace ApiContract.Json

-- A record is written as an object, or as an array of its fields in their order. Fields that the
-- record does not have are skipped unread; a field that it has may stand only once.

-- Reads a value that may hold `levels` containers inside one another.
abbrev Decoder (α : Type) := (levels : Nat) → Source → Option α

namespace Decoder

def text : Decoder String
  | _, .string text => text
  | _, _ => none

def flag : Decoder Bool
  | _, .bool b => some b
  | _, _ => none

def natural : Decoder Nat
  | _, .number numeral => match numeral.toNumber? with
    | some (.int n) => if 0 ≤ n then some n.toNat else none
    | _ => none
  | _, _ => none

def double : Decoder Double
  | _, .number numeral => numeral.toNumber?.map Number.toDouble
  | _, _ => none

def value : Decoder Json := Source.toJson?

def collect {α β : Type} (f : α → Option β) : List α → Option (List β)
  | [] => some []
  | x :: rest => match f x with
    | none => none
    | some y => (collect f rest).map (y :: ·)

def list {α : Type} (item : Decoder α) : Decoder (List α)
  | levels + 1, .array items => collect (item levels) items
  | _, _ => none

def map {α : Type} (item : Decoder α) : Decoder (List (String × α))
  | levels + 1, .object fields =>
    (collect (fun field => match field.1, item levels field.2 with
      | some key, some value => some (key, value)
      | _, _ => none) fields).map Keyed.ofList
  | _, _ => none

end Decoder

structure FieldSpec where
  name : String
  mayEnd : Bool := false

abbrev Fields := List (String × Source)

namespace Fields

def ofObject? (specs : List FieldSpec) : List (Option String × Source) → Option Fields
  | [] => some []
  | (none, _) :: _ => none
  | (some key, value) :: rest =>
    match ofObject? specs rest with
    | none => none
    | some fields =>
      if specs.all (fun spec => spec.name != key) then some fields
      else if (fields.lookup key).isSome then none
      else some ((key, value) :: fields)

def ofArray? : List FieldSpec → List Source → Option Fields
  | [], [] => some []
  | [], _ :: _ => none
  | specs, [] => if specs.all FieldSpec.mayEnd then some [] else none
  | spec :: specs, item :: items => (ofArray? specs items).map ((spec.name, item) :: ·)

def read? (specs : List FieldSpec) : Source → Option Fields
  | .object fields => ofObject? specs fields
  | .array items => ofArray? specs items
  | _ => none

def required? {α : Type} (fields : Fields) (name : String) (decode : Source → Option α) : Option α :=
  (fields.lookup name).bind decode

-- A field that may be absent, which `null` is a way to say.
def optional? {α : Type} (fields : Fields) (name : String) (decode : Source → Option α) :
    Option (Option α) :=
  match fields.lookup name with
  | none => some none
  | some .null => some none
  | some value => (decode value).map some

def withDefault? {α : Type} (fields : Fields) (name : String) (start : α)
    (decode : Source → Option α) : Option α :=
  match fields.lookup name with
  | none => some start
  | some value => decode value

end Fields

def Decoder.record {α : Type} (specs : List FieldSpec) (build : Nat → Fields → Option α) : Decoder α
  | levels + 1, source => (Fields.read? specs source).bind (build levels)
  | 0, _ => none

end ApiContract.Json
