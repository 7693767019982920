import ApiContract.Document.Basic
import ApiContract.Schema.Reader

namespace ApiContract.Document

-- Everything but schemas is read only where the document is asked for it, so
-- an unknown field may hold anything that is JSON.

open Json (Decoder Fields FieldSpec)

def mediaType : Decoder (Option Schema) :=
  .record [⟨"schema", false⟩] fun levels fields => fields.optional? "schema" (Schema.decoder levels)

def content : Decoder Content := .map mediaType

def parameter : Decoder Parameter :=
  .record [⟨"name", false⟩, ⟨"in", false⟩, ⟨"required", true⟩, ⟨"style", false⟩, ⟨"explode", false⟩,
      ⟨"schema", false⟩, ⟨"content", false⟩, ⟨"description", false⟩, ⟨"deprecated", true⟩]
    fun levels fields => do
      return {
        name := ← fields.required? "name" (Decoder.text levels)
        location := ← fields.required? "in" (Decoder.text levels)
        required := ← fields.withDefault? "required" false (Decoder.flag levels)
        style := ← fields.optional? "style" (Decoder.text levels)
        explode := ← fields.optional? "explode" (Decoder.flag levels)
        schema := ← fields.optional? "schema" (Schema.decoder levels)
        content := ← fields.optional? "content" (content levels)
        description := ← fields.optional? "description" (Decoder.text levels)
        deprecated := ← fields.withDefault? "deprecated" false (Decoder.flag levels) }

def requestBody : Decoder RequestBody :=
  .record [⟨"required", true⟩, ⟨"description", false⟩, ⟨"content", true⟩] fun levels fields => do
    return {
      required := ← fields.withDefault? "required" false (Decoder.flag levels)
      description := ← fields.optional? "description" (Decoder.text levels)
      content := ← fields.withDefault? "content" [] (content levels) }

def response : Decoder Response :=
  .record [⟨"description", false⟩, ⟨"content", true⟩] fun levels fields => do
    return {
      description := ← fields.optional? "description" (Decoder.text levels)
      content := ← fields.withDefault? "content" [] (content levels) }

def operation : Decoder Operation :=
  .record [⟨"operationId", false⟩, ⟨"summary", false⟩, ⟨"description", false⟩, ⟨"tags", true⟩,
      ⟨"deprecated", true⟩, ⟨"parameters", true⟩, ⟨"requestBody", false⟩, ⟨"responses", true⟩]
    fun levels fields => do
      return {
        operationId := ← fields.optional? "operationId" (Decoder.text levels)
        summary := ← fields.optional? "summary" (Decoder.text levels)
        description := ← fields.optional? "description" (Decoder.text levels)
        tags := ← fields.withDefault? "tags" [] (Decoder.list .text levels)
        deprecated := ← fields.withDefault? "deprecated" false (Decoder.flag levels)
        parameters := ← fields.withDefault? "parameters" [] (Decoder.list parameter levels)
        requestBody := ← fields.optional? "requestBody" (requestBody levels)
        responses := ← fields.withDefault? "responses" [] (Decoder.map response levels) }

def operations? (levels : Nat) (fields : Fields) : Option (List (Method × Operation)) :=
  (Decoder.collect (fun method =>
    (fields.optional? method.key (operation levels)).map fun op => op.map fun op => (method, op))
    Method.all).map fun found => found.filterMap id

def pathItem : Decoder PathItem :=
  .record (Method.all.map (fun method => ⟨method.key, false⟩) ++ [⟨"parameters", true⟩])
    fun levels fields => do
      return {
        operations := ← operations? levels fields
        parameters := ← fields.withDefault? "parameters" [] (Decoder.list parameter levels) }

def components : Decoder (List (String × Schema)) :=
  .record [⟨"schemas", true⟩] fun levels fields =>
    fields.withDefault? "schemas" [] (Decoder.map Schema.decoder levels)

def decoder : Decoder Document :=
  .record [⟨"openapi", false⟩, ⟨"paths", true⟩, ⟨"components", false⟩] fun levels fields => do
    let _version ← fields.optional? "openapi" (Decoder.text levels)
    let paths ← fields.withDefault? "paths" [] (Decoder.map pathItem levels)
    let schemas ← fields.optional? "components" (components levels)
    return ⟨paths, schemas.getD []⟩

def parse? (text : String) : Option Document :=
  (Json.Source.read? text).bind (decoder Json.nestingLimit)

end ApiContract.Document
