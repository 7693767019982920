import ApiContract.Json.Reader
import ApiContract.Json.Record
import ApiContract.Schema.Keywords

namespace ApiContract

-- A schema is read as a whole: a value in it that no number or text can be is
-- an error even under a key that means nothing.

namespace Schema

def inexpressible : List String :=
  ["not", "patternProperties", "contains", "minContains", "maxContains"]

def keywordNames : List String :=
  ["$ref", "title", "description", "deprecated", "nullable", "type", "format", "const", "enum",
    "oneOf", "anyOf", "allOf", "properties", "required", "additionalProperties", "minProperties",
    "maxProperties", "items", "prefixItems", "minItems", "maxItems", "uniqueItems", "minLength",
    "maxLength", "pattern", "minimum", "maximum", "exclusiveMinimum", "exclusiveMaximum",
    "multipleOf"] ++ inexpressible

open Json (Decoder Fields Source)

def typeNames? : Decoder TypeNames
  | levels, .array items => (Decoder.list .text levels (.array items)).map .several
  | levels, source => (Decoder.text levels source).map .single

def exclusive? : Decoder ExclusiveBound
  | _, .bool b => some (.flag b)
  | levels, source => (Decoder.double levels source).map .value

def limits? (levels : Nat) (fields : Fields) : Option Limits := do
  let natural := Decoder.natural levels
  let double := Decoder.double levels
  return {
    format := ← fields.optional? "format" (Decoder.text levels)
    minLength := ← fields.optional? "minLength" natural
    maxLength := ← fields.optional? "maxLength" natural
    pattern := ← fields.optional? "pattern" (Decoder.text levels)
    minimum := ← fields.optional? "minimum" double
    maximum := ← fields.optional? "maximum" double
    exclusiveMinimum := ← fields.optional? "exclusiveMinimum" (exclusive? levels)
    exclusiveMaximum := ← fields.optional? "exclusiveMaximum" (exclusive? levels)
    multipleOf := ← fields.optional? "multipleOf" double
    minItems := ← fields.optional? "minItems" natural
    maxItems := ← fields.optional? "maxItems" natural
    uniqueItems := ← fields.optional? "uniqueItems" (Decoder.flag levels)
    minProperties := ← fields.optional? "minProperties" natural
    maxProperties := ← fields.optional? "maxProperties" natural }

def inexpressibleIn (fields : Fields) : List String :=
  inexpressible.filter fun name => match fields.lookup name with
    | none => false
    | some .null => false
    | some _ => true

def keywords? (schema : Decoder Schema) (levels : Nat) (fields : Fields) :
    Option (Keywords Schema) := do
  let text := Decoder.text levels
  let flag := Decoder.flag levels
  let schemas := Decoder.list schema levels
  return {
    ref := ← fields.optional? "$ref" text
    title := ← fields.optional? "title" text
    description := ← fields.optional? "description" text
    deprecated := ← fields.optional? "deprecated" flag
    nullable := ← fields.optional? "nullable" flag
    types := ← fields.optional? "type" (typeNames? levels)
    const := ← fields.optional? "const" (Decoder.value levels)
    enum := ← fields.optional? "enum" (Decoder.list .value levels)
    oneOf := ← fields.optional? "oneOf" schemas
    anyOf := ← fields.optional? "anyOf" schemas
    allOf := ← fields.optional? "allOf" schemas
    properties := ← fields.optional? "properties" (Decoder.map schema levels)
    required := ← fields.optional? "required" (Decoder.list .text levels)
    additional := ← fields.optional? "additionalProperties" (schema levels)
    items := ← fields.optional? "items" (schema levels)
    places := ← fields.optional? "prefixItems" schemas
    limits := ← limits? levels fields
    unsupported := inexpressibleIn fields }

def decode? : (fuel : Nat) → Decoder Schema
  | 0, _, _ => none
  | fuel + 1, levels, source =>
    match source with
    | .bool b => some (.bool b)
    | source =>
      Decoder.record (keywordNames.map fun name => ⟨name, false⟩)
        (fun levels fields => (keywords? (decode? fuel) levels fields).map .object) levels source

def decoder : Decoder Schema := fun levels source =>
  match source.toJson? levels with
  | none => none
  | some _ => decode? (levels + 1) levels source

def parse? (text : String) : Option Schema :=
  (Source.read? text).bind (decoder Json.nestingLimit)

end Schema

end ApiContract
