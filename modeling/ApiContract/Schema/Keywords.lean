import ApiContract.Json.Basic
import ApiContract.Keyed
import ApiContract.Schema.Node

namespace ApiContract

-- Shape keywords say what values look like; the others annotate. A branch of a composition inherits the
-- shape keywords that stand beside the composition and that it does not declare itself.

inductive TypeNames where
  | single (name : String)
  | several (names : List String)

namespace TypeNames

def toList : TypeNames → List String
  | single name => [name]
  | several names => names

def size : TypeNames → Nat
  | single _ => 1
  | several names => names.length + 1

end TypeNames

-- An exclusive bound is a number of its own, or a flag on the inclusive one.
inductive ExclusiveBound where
  | flag (b : Bool)
  | value (x : Double)

structure Limits where
  format : Option String := none
  minLength : Option Nat := none
  maxLength : Option Nat := none
  pattern : Option String := none
  minimum : Option Double := none
  maximum : Option Double := none
  exclusiveMinimum : Option ExclusiveBound := none
  exclusiveMaximum : Option ExclusiveBound := none
  multipleOf : Option Double := none
  minItems : Option Nat := none
  maxItems : Option Nat := none
  uniqueItems : Option Bool := none
  minProperties : Option Nat := none
  maxProperties : Option Nat := none

def present {α : Type} (keyword : Option α) : Nat := if keyword.isSome then 1 else 0

namespace Limits

def size (limits : Limits) : Nat :=
  present limits.format + present limits.minLength + present limits.maxLength
    + present limits.pattern + present limits.minimum + present limits.maximum
    + present limits.exclusiveMinimum + present limits.exclusiveMaximum + present limits.multipleOf
    + present limits.minItems + present limits.maxItems + present limits.uniqueItems
    + present limits.minProperties + present limits.maxProperties

def overlay (base top : Limits) : Limits where
  format := top.format.or base.format
  minLength := top.minLength.or base.minLength
  maxLength := top.maxLength.or base.maxLength
  pattern := top.pattern.or base.pattern
  minimum := top.minimum.or base.minimum
  maximum := top.maximum.or base.maximum
  exclusiveMinimum := top.exclusiveMinimum.or base.exclusiveMinimum
  exclusiveMaximum := top.exclusiveMaximum.or base.exclusiveMaximum
  multipleOf := top.multipleOf.or base.multipleOf
  minItems := top.minItems.or base.minItems
  maxItems := top.maxItems.or base.maxItems
  uniqueItems := top.uniqueItems.or base.uniqueItems
  minProperties := top.minProperties.or base.minProperties
  maxProperties := top.maxProperties.or base.maxProperties

def isEmpty (limits : Limits) : Bool := limits.size == 0

end Limits

structure Keywords (S : Type) where
  ref : Option String := none
  title : Option String := none
  description : Option String := none
  deprecated : Option Bool := none
  nullable : Option Bool := none
  types : Option TypeNames := none
  const : Option Json := none
  enum : Option (List Json) := none
  oneOf : Option (List S) := none
  anyOf : Option (List S) := none
  allOf : Option (List S) := none
  properties : Option (List (String × S)) := none
  required : Option (List String) := none
  additional : Option S := none
  items : Option S := none
  places : Option (List S) := none
  limits : Limits := {}
  -- Names of the keywords present that no validator can express.
  unsupported : List String := []

inductive Schema where
  | bool (value : Bool)
  | object (keywords : Keywords Schema)

namespace Schema

mutual
def size : Schema → Nat
  | bool _ => 1
  | object ⟨ref, title, description, deprecated, nullable, types, const, enum, oneOf, anyOf, allOf,
      properties, required, additional, items, places, limits, unsupported⟩ =>
    1 + present ref + present title + present description + present deprecated + present nullable
      + (types.map TypeNames.size).getD 0 + present const + (enum.map fun vs => vs.length + 1).getD 0
      + sizeList? oneOf + sizeList? anyOf + sizeList? allOf + sizeEntries? properties
      + (required.map fun names => names.length + 1).getD 0 + size? additional + size? items
      + sizeList? places + limits.size + unsupported.length
def size? : Option Schema → Nat
  | none => 0
  | some schema => size schema + 1
def sizeList? : Option (List Schema) → Nat
  | none => 0
  | some schemas => sizeList schemas + 1
def sizeEntries? : Option (List (String × Schema)) → Nat
  | none => 0
  | some entries => sizeEntries entries + 1
def sizeList : List Schema → Nat
  | [] => 0
  | schema :: rest => size schema + 1 + sizeList rest
def sizeEntries : List (String × Schema) → Nat
  | [] => 0
  | (_, schema) :: rest => size schema + 1 + sizeEntries rest
end

end Schema

namespace Keywords

def typeNames (k : Keywords Schema) : List String :=
  match k.types with
  | none => []
  | some names => names.toList

def concreteTypes (k : Keywords Schema) : List String := k.typeNames.filter (· != "null")

def isNullable (k : Keywords Schema) : Bool :=
  k.nullable == some true || (k.typeNames.contains "null" && !k.concreteTypes.isEmpty)

def siblings (k : Keywords Schema) : Keywords Schema :=
  { k with
    ref := none, title := none, description := none, deprecated := none, nullable := none,
    unsupported := [] }

def branches? (k : Keywords Schema) : Composition → Option (List Schema)
  | .oneOf => k.oneOf
  | .anyOf => k.anyOf
  | .allOf => k.allOf

def without (k : Keywords Schema) : Composition → Keywords Schema
  | .oneOf => { k with oneOf := none }
  | .anyOf => { k with anyOf := none }
  | .allOf => { k with allOf := none }

def isShapeless (k : Keywords Schema) : Bool :=
  k.ref.isNone && k.title.isNone && k.description.isNone && k.deprecated.isNone && k.nullable.isNone
    && k.types.isNone && k.const.isNone && k.enum.isNone && k.oneOf.isNone && k.anyOf.isNone
    && k.allOf.isNone && k.properties.isNone && k.required.isNone && k.additional.isNone
    && k.items.isNone && k.places.isNone && k.limits.isEmpty && k.unsupported.isEmpty

def looksLikeObject (k : Keywords Schema) : Bool :=
  k.properties.isSome || k.additional.isSome || k.required.isSome || k.limits.minProperties.isSome
    || k.limits.maxProperties.isSome

def looksLikeArray (k : Keywords Schema) : Bool :=
  k.items.isSome || k.places.isSome || k.limits.minItems.isSome || k.limits.maxItems.isSome
    || k.limits.uniqueItems.isSome

def mergeProperties : Option (List (String × Schema)) → Option (List (String × Schema)) →
    Option (List (String × Schema))
  | some base, some top =>
    some (top.foldl (fun map property => Keyed.insert property.1 property.2 map) base)
  | base, top => top.or base

def mergeRequired : Option (List String) → Option (List String) → Option (List String)
  | some base, some top =>
    some (top.foldl (fun names name => if names.contains name then names else names ++ [name]) base)
  | base, top => top.or base

-- Properties and required names are those of both.
def overlay (base top : Keywords Schema) : Keywords Schema :=
  { top with
    types := top.types.or base.types
    const := top.const.or base.const
    enum := top.enum.or base.enum
    oneOf := top.oneOf.or base.oneOf
    anyOf := top.anyOf.or base.anyOf
    allOf := top.allOf.or base.allOf
    properties := mergeProperties base.properties top.properties
    required := mergeRequired base.required top.required
    additional := top.additional.or base.additional
    items := top.items.or base.items
    places := top.places.or base.places
    limits := base.limits.overlay top.limits }

end Keywords

end ApiContract
