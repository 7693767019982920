import ApiContract.Proofs.LoadedDescriptions

namespace ApiContract

-- What is read from text declares each property once, however deep the schema stands, and a schema
-- that does is lowered to a node that does.

namespace Json

section Decoders

variable {α β : Type} {P : α → Prop}

def Decoder.Gives (P : α → Prop) (decoder : Decoder α) : Prop :=
  ∀ levels source a, decoder levels source = some a → P a

theorem collect_all {f : β → Option α} (each : ∀ x a, f x = some a → P a) {xs : List β} {found : List α}
    (read : Decoder.collect f xs = some found) : ∀ a ∈ found, P a := by
  induction xs generalizing found with
  | nil =>
    cases read
    exact List.forall_mem_nil _
  | cons x rest ih =>
    unfold Decoder.collect at read
    split at read
    · cases read
    · rename_i a first
      obtain ⟨others, later, rfl⟩ := Option.map_eq_some_iff.mp read
      exact List.forall_mem_cons.mpr ⟨each x a first, ih later⟩

theorem list_gives {item : Decoder α} (each : item.Gives P) :
    (Decoder.list item).Gives fun found => ∀ a ∈ found, P a := by
  intro levels source found read
  unfold Decoder.list at read
  split at read
  · exact collect_all (each _) read
  · cases read

theorem map_gives {item : Decoder α} (each : item.Gives P) :
    (Decoder.map item).Gives fun found => (Keyed.keys found).Nodup ∧ ∀ entry ∈ found, P entry.2 := by
  intro levels source found read
  unfold Decoder.map at read
  split at read
  · obtain ⟨pairs, collected, rfl⟩ := Option.map_eq_some_iff.mp read
    refine ⟨nodup_keys_inserted pairs List.nodup_nil, fun entry member => ?_⟩
    rcases mem_inserted member with absent | inside
    · cases absent
    · refine collect_all (P := fun entry => P entry.2) ?_ collected entry inside
      intro field pair taken
      split at taken
      · rename_i key value _ decoded
        cases taken
        exact each _ _ _ decoded
      · cases taken
  · cases read

theorem record_gives {specs : List FieldSpec} {build : Nat → Fields → Option α}
    (each : ∀ levels fields a, build levels fields = some a → P a) :
    (Decoder.record specs build).Gives P := by
  intro levels source a read
  unfold Decoder.record at read
  split at read
  · obtain ⟨fields, _, built⟩ := Option.bind_eq_some_iff.mp read
    exact each _ fields a built
  · cases read

variable {fields : Fields} {name : String} {decode : Source → Option α}

theorem optional?_gives {Q : Option α → Prop} (absent : Q none)
    (present : ∀ source a, decode source = some a → Q (some a)) {found : Option α}
    (read : fields.optional? name decode = some found) : Q found := by
  unfold Fields.optional? at read
  split at read
  · cases read
    exact absent
  · cases read
    exact absent
  · obtain ⟨a, decoded, rfl⟩ := Option.map_eq_some_iff.mp read
    exact present _ a decoded

theorem withDefault?_gives {start found : α} (absent : P start)
    (present : ∀ source a, decode source = some a → P a)
    (read : fields.withDefault? name start decode = some found) : P found := by
  unfold Fields.withDefault? at read
  split at read
  · cases read
    exact absent
  · exact present _ found read

end Decoders

end Json

open Json (Decoder Fields)

-- The schemas that stand directly inside.
def Keywords.schemas (k : Keywords Schema) : List Schema :=
  k.oneOf.getD [] ++ k.anyOf.getD [] ++ k.allOf.getD [] ++ (k.properties.getD []).map Prod.snd
    ++ k.additional.toList ++ k.items.toList ++ k.places.getD []

namespace Schema

inductive Distinct : Schema → Prop where
  | bool (value : Bool) : Distinct (.bool value)
  | object {k : Keywords Schema} (names : (Keyed.keys (k.properties.getD [])).Nodup)
      (inside : ∀ schema ∈ k.schemas, Distinct schema) : Distinct (.object k)

section Reading

theorem listed_distinct {schema : Decoder Schema} (each : schema.Gives Distinct) {fields : Fields}
    {name : String} {levels : Nat} {found : Option (List Schema)}
    (read : fields.optional? name (Decoder.list schema levels) = some found) :
    ∀ schema ∈ found.getD [], schema.Distinct :=
  Json.optional?_gives (Q := fun found => ∀ schema ∈ found.getD [], Distinct schema)
    (List.forall_mem_nil _) (Json.list_gives each levels) read

theorem single_distinct {schema : Decoder Schema} (each : schema.Gives Distinct) {fields : Fields}
    {name : String} {levels : Nat} {found : Option Schema}
    (read : fields.optional? name (schema levels) = some found) :
    ∀ schema ∈ found.toList, schema.Distinct := by
  refine Json.optional?_gives (Q := fun found => ∀ schema ∈ Option.toList found, Distinct schema)
    (List.forall_mem_nil _) ?_ read
  exact fun source schema decoded => List.forall_mem_singleton.mpr (each levels source schema decoded)

theorem keywords?_distinct {schema : Decoder Schema} (each : schema.Gives Distinct) {levels : Nat}
    {fields : Fields} {k : Keywords Schema} (read : keywords? schema levels fields = some k) :
    Distinct (.object k) := by
  -- One keyword is read after the other.
  obtain ⟨_, _, read⟩ := Option.bind_eq_some_iff.mp read
  obtain ⟨_, _, read⟩ := Option.bind_eq_some_iff.mp read
  obtain ⟨_, _, read⟩ := Option.bind_eq_some_iff.mp read
  obtain ⟨_, _, read⟩ := Option.bind_eq_some_iff.mp read
  obtain ⟨_, _, read⟩ := Option.bind_eq_some_iff.mp read
  obtain ⟨_, _, read⟩ := Option.bind_eq_some_iff.mp read
  obtain ⟨_, _, read⟩ := Option.bind_eq_some_iff.mp read
  obtain ⟨_, _, read⟩ := Option.bind_eq_some_iff.mp read
  obtain ⟨oneOf, oneOfRead, read⟩ := Option.bind_eq_some_iff.mp read
  obtain ⟨anyOf, anyOfRead, read⟩ := Option.bind_eq_some_iff.mp read
  obtain ⟨allOf, allOfRead, read⟩ := Option.bind_eq_some_iff.mp read
  obtain ⟨properties, propertiesRead, read⟩ := Option.bind_eq_some_iff.mp read
  obtain ⟨_, _, read⟩ := Option.bind_eq_some_iff.mp read
  obtain ⟨additional, additionalRead, read⟩ := Option.bind_eq_some_iff.mp read
  obtain ⟨items, itemsRead, read⟩ := Option.bind_eq_some_iff.mp read
  obtain ⟨places, placesRead, read⟩ := Option.bind_eq_some_iff.mp read
  obtain ⟨_, _, read⟩ := Option.bind_eq_some_iff.mp read
  cases read
  have declared : (Keyed.keys (properties.getD [])).Nodup ∧
      ∀ entry ∈ properties.getD [], entry.2.Distinct :=
    Json.optional?_gives (Q := fun found => (Keyed.keys (found.getD [])).Nodup ∧
        ∀ entry ∈ found.getD [], Distinct entry.2)
      ⟨List.nodup_nil, List.forall_mem_nil _⟩ (Json.map_gives each levels) propertiesRead
  refine .object declared.1 ?_
  simp only [Keywords.schemas, List.forall_mem_append, List.forall_mem_map]
  exact ⟨⟨⟨⟨⟨⟨listed_distinct each oneOfRead, listed_distinct each anyOfRead⟩,
    listed_distinct each allOfRead⟩, declared.2⟩, single_distinct each additionalRead⟩,
    single_distinct each itemsRead⟩, listed_distinct each placesRead⟩

theorem decode?_distinct (fuel : Nat) : (decode? fuel).Gives Distinct := by
  induction fuel with
  | zero =>
    intro levels source schema read
    cases read
  | succ fuel ih =>
    intro levels source schema read
    unfold decode? at read
    split at read
    · cases read
      exact .bool _
    · refine Json.record_gives (P := Distinct) ?_ _ _ _ read
      intro levels fields schema built
      obtain ⟨k, found, rfl⟩ := Option.map_eq_some_iff.mp built
      exact keywords?_distinct ih found

theorem decoder_distinct : decoder.Gives Distinct := by
  intro levels source schema read
  unfold decoder at read
  split at read
  · cases read
  · exact decode?_distinct _ _ _ _ read

end Reading

end Schema

-- A step leaves what is distinct distinct, so lowering does.
section Lowering

def Shape.Distinct (shape : Shape Schema) : Prop :=
  (∀ o, shape = .object o → (Keyed.keys o.properties).Nodup) ∧ ∀ child ∈ shape.children, child.Distinct

namespace Keywords

theorem mergeProperties_nodup {base top : Option (List (String × Schema))}
    (first : (Keyed.keys (base.getD [])).Nodup) (second : (Keyed.keys (top.getD [])).Nodup) :
    (Keyed.keys ((mergeProperties base top).getD [])).Nodup := by
  cases base with
  | none => cases top <;> exact second
  | some base =>
    cases top with
    | none => exact first
    | some top => exact nodup_keys_inserted top first

theorem mem_mergeProperties {base top : Option (List (String × Schema))} {entry : String × Schema}
    (member : entry ∈ (mergeProperties base top).getD []) : entry ∈ base.getD [] ∨ entry ∈ top.getD [] := by
  cases base with
  | none => cases top <;> exact .inr member
  | some base =>
    cases top with
    | none => exact .inl member
    | some top => exact mem_inserted member

theorem mem_getD_or {α : Type} {first second : Option (List α)} {a : α}
    (member : a ∈ (first.or second).getD []) : a ∈ second.getD [] ∨ a ∈ first.getD [] := by
  cases first with
  | none => exact .inl member
  | some list => exact .inr member

theorem mem_toList_or {α : Type} {first second : Option α} {a : α}
    (member : a ∈ (first.or second).toList) : a ∈ second.toList ∨ a ∈ first.toList := by
  cases first with
  | none => exact .inl member
  | some value => exact .inr member

theorem overlay_distinct {base top : Keywords Schema} (first : Schema.Distinct (.object base))
    (second : Schema.Distinct (.object top)) : Schema.Distinct (.object (base.overlay top)) := by
  obtain ⟨⟩ | ⟨baseNames, baseInside⟩ := first
  obtain ⟨⟩ | ⟨topNames, topInside⟩ := second
  refine .object (mergeProperties_nodup baseNames topNames) ?_
  simp only [schemas, overlay, List.forall_mem_append, List.forall_mem_map] at baseInside topInside ⊢
  obtain ⟨⟨⟨⟨⟨⟨oneOf, anyOf⟩, allOf⟩, properties⟩, additional⟩, items⟩, places⟩ := baseInside
  obtain ⟨⟨⟨⟨⟨⟨oneOf', anyOf'⟩, allOf'⟩, properties'⟩, additional'⟩, items'⟩, places'⟩ := topInside
  refine ⟨⟨⟨⟨⟨⟨?_, ?_⟩, ?_⟩, ?_⟩, ?_⟩, ?_⟩, ?_⟩
  · exact fun schema member => (mem_getD_or member).elim (oneOf schema) (oneOf' schema)
  · exact fun schema member => (mem_getD_or member).elim (anyOf schema) (anyOf' schema)
  · exact fun schema member => (mem_getD_or member).elim (allOf schema) (allOf' schema)
  · exact fun entry member => (mem_mergeProperties member).elim (properties entry) (properties' entry)
  · exact fun schema member => (mem_toList_or member).elim (additional schema) (additional' schema)
  · exact fun schema member => (mem_toList_or member).elim (items schema) (items' schema)
  · exact fun schema member => (mem_getD_or member).elim (places schema) (places' schema)

theorem without_distinct {k : Keywords Schema} (distinct : Schema.Distinct (.object k)) (op : Composition) :
    Schema.Distinct (.object (k.siblings.without op)) := by
  obtain ⟨⟩ | ⟨names, inside⟩ := distinct
  have held : ∀ schema ∈ (k.siblings.without op).schemas, schema ∈ k.schemas := by
    intro schema member
    cases op <;> simp only [schemas, without, siblings, List.mem_append, Option.getD_none, List.not_mem_nil,
      or_false, false_or] at member ⊢ <;> tauto
  refine .object ?_ fun schema member => inside schema (held schema member)
  cases op <;> exact names

theorem inherit_distinct {base : Keywords Schema} (first : Schema.Distinct (.object base)) {branch : Schema}
    (second : branch.Distinct) : (base.inherit branch).Distinct := by
  unfold inherit
  split
  · split
    · exact .bool true
    · exact first
  · exact .bool false
  · split
    · exact second
    · exact overlay_distinct first second

theorem objectShape_distinct {k : Keywords Schema} (distinct : Schema.Distinct (.object k)) :
    k.objectShape.Distinct := by
  obtain ⟨⟩ | ⟨names, inside⟩ := distinct
  simp only [schemas, List.forall_mem_append] at inside
  obtain ⟨⟨⟨⟨_, properties⟩, additional⟩, _⟩, _⟩ := inside
  refine ⟨?_, List.forall_mem_append.mpr ⟨properties, List.forall_mem_singleton.mpr ?_⟩⟩
  · intro o equal
    cases equal
    exact names
  · cases declared : k.additional with
    | none => exact .bool true
    | some schema => exact additional schema (Option.mem_toList.mpr declared)

theorem arrayShape_distinct {k : Keywords Schema} (distinct : Schema.Distinct (.object k)) :
    k.arrayShape.Distinct := by
  obtain ⟨⟩ | ⟨_, inside⟩ := distinct
  simp only [schemas, List.forall_mem_append] at inside
  obtain ⟨⟨_, items⟩, places⟩ := inside
  refine ⟨fun o equal => (by cases equal), List.forall_mem_append.mpr ⟨places, List.forall_mem_singleton.mpr ?_⟩⟩
  cases declared : k.items with
  | none => exact .bool true
  | some schema => exact items schema (Option.mem_toList.mpr declared)

theorem leaf_distinct {shape : Shape Schema} (leaf : shape.children = []) (other : ∀ o, shape ≠ .object o) :
    shape.Distinct :=
  ⟨fun o equal => absurd equal (other o), leaf ▸ List.forall_mem_nil _⟩

theorem typedShape_distinct {k : Keywords Schema} (distinct : Schema.Distinct (.object k)) (name : Option String) :
    (k.typedShape name).Distinct := by
  unfold typedShape
  split
  · split
    · exact objectShape_distinct distinct
    · split
      · exact arrayShape_distinct distinct
      · split <;> exact leaf_distinct rfl (by simp)
  · split
    · exact leaf_distinct rfl (by simp)
    · split
      · exact objectShape_distinct distinct
      · split
        · exact arrayShape_distinct distinct
        · exact leaf_distinct rfl (by simp)

theorem plainShape_distinct {k : Keywords Schema} (distinct : Schema.Distinct (.object k)) :
    k.plainShape.Distinct := by
  unfold plainShape
  split
  · rename_i op branches found
    refine ⟨by simp, List.forall_mem_map.mpr fun branch member => ?_⟩
    refine inherit_distinct (without_distinct distinct op) ?_
    obtain ⟨⟩ | ⟨_, inside⟩ := distinct
    refine inside branch ?_
    have held := branches?_of_composition? found
    cases op <;> simp_all [schemas, branches?]
  · split
    · refine ⟨by simp, List.forall_mem_map.mpr fun name _ => ?_⟩
      obtain ⟨⟩ | ⟨names, inside⟩ := distinct
      exact .object names inside
    · split
      · exact leaf_distinct rfl (by simp)
      · exact leaf_distinct rfl (by simp)
      · exact typedShape_distinct distinct _

end Keywords

theorem Schema.step_distinct {schema : Schema} (distinct : schema.Distinct) {shape : Shape Schema}
    (stepped : schema.step = .ok shape) : shape.Distinct := by
  cases schema with
  | bool value =>
    cases stepped
    exact Keywords.leaf_distinct rfl (by simp)
  | object k =>
    simp only [Schema.step] at stepped
    split at stepped
    · obtain ⟨name, _, rfl⟩ := map_ok stepped
      exact Keywords.leaf_distinct rfl (by simp)
    · cases stepped
      exact Keywords.plainShape_distinct distinct

end Lowering

-- A node each of whose objects declares a property once.
namespace Node

def DistinctNames (node : Node) : Prop := ∀ names ∈ node.propertyOrder, names.Nodup

theorem distinctNames_iff {node : Node} :
    node.DistinctNames ↔ (∀ o, node.shape = .object o → (Keyed.keys o.properties).Nodup) ∧
      ∀ child ∈ node.children, child.DistinctNames := by
  have children : (∀ child ∈ node.children, child.DistinctNames) ↔
      ∀ names ∈ (node.shape.map propertyOrder).children.flatten, names.Nodup := by
    rw [Shape.children_map, ← List.flatMap_def, List.forall_mem_flatMap]
    rfl
  rw [children]
  unfold DistinctNames
  rw [propertyOrder, fold_eq, ← propertyOrder]
  cases found : node.shape with
  | object o =>
    have names : (o.properties.map fun property => (property.1, property.2.propertyOrder)).map Prod.fst
        = Keyed.keys o.properties := by
      rw [List.map_map]
      rfl
    simp only [Shape.map, List.forall_mem_cons, names]
    exact and_congr_left fun _ => ⟨fun once _ equal => Shape.object.inj equal ▸ once, fun all => all o rfl⟩
  | _ => simp [Shape.map]

end Node

theorem lower_distinctNames {schema : Schema} {node : Node} (lowered : schema.lower = .ok node) :
    schema.Distinct → node.DistinctNames := by
  refine Schema.lower_induction (P := fun schema node => schema.Distinct → node.DistinctNames) ?_ lowered
  intro schema shape inner stepped related distinct
  obtain ⟨names, children⟩ := Schema.step_distinct distinct stepped
  have kept : (schema.annotate inner).shape = inner := by cases schema <;> rfl
  refine Node.distinctNames_iff.mpr ⟨?_, ?_⟩
  · intro o equal
    cases (kept.symm.trans equal : inner = .object o)
    cases related with
    | object required low high each others =>
      rw [Keyed.keys, ← map_related each fun p q pair => pair.1]
      exact names _ rfl
  · intro child member
    rw [Node.children, kept] at member
    obtain ⟨source, given, below⟩ := related.child member
    exact below (children source given)

namespace Document

section Reading

open Json (list_gives map_gives record_gives optional?_gives withDefault?_gives)

def AllDistinct (schemas : List Schema) : Prop := ∀ schema ∈ schemas, schema.Distinct

theorem mediaType_distinct : mediaType.Gives fun found => AllDistinct found.toList :=
  record_gives fun _ _ _ read => Schema.single_distinct Schema.decoder_distinct read

theorem content_distinct : content.Gives fun found => AllDistinct (Content.schemas found) := by
  intro levels source found read schema member
  obtain ⟨entry, inside, present⟩ := List.mem_filterMap.mp member
  exact (map_gives mediaType_distinct _ _ _ read).2 entry inside schema (Option.mem_toList.mpr present)

theorem parameter_distinct : parameter.Gives fun p => AllDistinct p.schemas := by
  refine record_gives fun levels fields p read => ?_
  simp only [Option.bind_eq_bind, Option.bind_eq_some_iff, Option.pure_def] at read
  obtain ⟨name, -, location, -, required, -, style, -, explode, -, schema, schemaRead, media, mediaRead,
    description, -, deprecated, -, equal⟩ := read
  cases equal
  refine List.forall_mem_append.mpr ⟨Schema.single_distinct Schema.decoder_distinct schemaRead, ?_⟩
  exact optional?_gives (Q := fun found => AllDistinct (Content.schemas (found.getD [])))
    (List.forall_mem_nil _) (content_distinct levels) mediaRead

theorem media_distinct {fields : Json.Fields} {levels : Nat} {found : Content}
    (read : fields.withDefault? "content" [] (content levels) = some found) :
    AllDistinct (Content.schemas found) := by
  refine withDefault?_gives (P := fun found => AllDistinct (Content.schemas found)) ?_
    (content_distinct levels) read
  exact List.forall_mem_nil _

theorem requestBody_distinct : requestBody.Gives fun body => AllDistinct (Content.schemas body.content) := by
  refine record_gives fun levels fields body read => ?_
  simp only [Option.bind_eq_bind, Option.bind_eq_some_iff, Option.pure_def] at read
  obtain ⟨required, -, description, -, media, mediaRead, equal⟩ := read
  cases equal
  exact media_distinct mediaRead

theorem response_distinct : response.Gives fun found => AllDistinct (Content.schemas found.content) := by
  refine record_gives fun levels fields found read => ?_
  simp only [Option.bind_eq_bind, Option.bind_eq_some_iff, Option.pure_def] at read
  obtain ⟨description, -, media, mediaRead, equal⟩ := read
  cases equal
  exact media_distinct mediaRead

theorem parameters_distinct {fields : Json.Fields} {levels : Nat} {found : List Parameter}
    (read : fields.withDefault? "parameters" [] (Decoder.list parameter levels) = some found) :
    ∀ p ∈ found, AllDistinct p.schemas :=
  withDefault?_gives (P := fun found => ∀ p ∈ found, AllDistinct (Parameter.schemas p))
    (List.forall_mem_nil _) (list_gives parameter_distinct levels) read

theorem operation_distinct : operation.Gives fun op => AllDistinct op.schemas := by
  refine record_gives fun levels fields op read => ?_
  simp only [Option.bind_eq_bind, Option.bind_eq_some_iff, Option.pure_def] at read
  obtain ⟨operationId, -, summary, -, description, -, tags, -, deprecated, -, parameters, parametersRead, body,
    bodyRead, responses, responsesRead, equal⟩ := read
  cases equal
  refine List.forall_mem_append.mpr ⟨List.forall_mem_append.mpr ⟨?_, ?_⟩, ?_⟩
  · exact List.forall_mem_flatMap.mpr (parameters_distinct parametersRead)
  · refine List.forall_mem_flatMap.mpr ?_
    refine optional?_gives (Q := fun found => ∀ body ∈ Option.toList found,
      AllDistinct (Content.schemas (RequestBody.content body))) (List.forall_mem_nil _) ?_ bodyRead
    exact fun source body decoded => List.forall_mem_singleton.mpr (requestBody_distinct levels source body decoded)
  · refine List.forall_mem_flatMap.mpr ?_
    refine withDefault?_gives (P := fun found => ∀ entry ∈ found,
      AllDistinct (Content.schemas (Response.content (Prod.snd entry)))) (List.forall_mem_nil _) ?_ responsesRead
    exact fun source found decoded => (map_gives response_distinct levels source found decoded).2

-- The parameters and the operations of a path.
def PathItem.Distinct (item : PathItem) : Prop :=
  (∀ p ∈ item.parameters, AllDistinct p.schemas) ∧ ∀ entry ∈ item.operations, AllDistinct entry.2.schemas

theorem operations?_gives {P : Operation → Prop} (each : operation.Gives P) {levels : Nat} {fields : Json.Fields}
    {found : List (Method × Operation)} (read : operations? levels fields = some found) :
    ∀ entry ∈ found, P entry.2 := by
  obtain ⟨all, collected, rfl⟩ := Option.map_eq_some_iff.mp read
  intro entry member
  have present : some entry ∈ all := by simpa using member
  refine Json.collect_all (P := fun found => ∀ entry, found = some entry → P (Prod.snd entry)) ?_ collected _
    present entry rfl
  intro method found one entry equal
  obtain ⟨op, read, rfl⟩ := Option.map_eq_some_iff.mp one
  obtain ⟨inner, given, rfl⟩ := Option.map_eq_some_iff.mp equal
  exact optional?_gives (Q := fun found => ∀ op, found = some op → P op) nofun
    (fun source op decoded other equal => Option.some.inj equal ▸ each levels source op decoded)
    read inner given

theorem pathItem_distinct : pathItem.Gives PathItem.Distinct := by
  refine record_gives fun levels fields item read => ?_
  simp only [Option.bind_eq_bind, Option.bind_eq_some_iff, Option.pure_def] at read
  obtain ⟨operations, operationsRead, parameters, parametersRead, equal⟩ := read
  cases equal
  exact ⟨parameters_distinct parametersRead, operations?_gives operation_distinct operationsRead⟩

theorem components_distinct : components.Gives fun found => ∀ entry ∈ found, entry.2.Distinct := by
  refine record_gives fun levels fields found read => ?_
  exact withDefault?_gives (P := fun found => ∀ entry ∈ found, Schema.Distinct (Prod.snd entry))
    (List.forall_mem_nil _)
    (fun source found decoded => (map_gives Schema.decoder_distinct levels source found decoded).2) read

theorem paths_gives {P : PathItem → Prop} (each : pathItem.Gives P) {fields : Json.Fields} {levels : Nat}
    {found : List (String × PathItem)}
    (read : fields.withDefault? "paths" [] (Decoder.map pathItem levels) = some found) :
    ∀ entry ∈ found, P entry.2 :=
  withDefault?_gives (P := fun found => ∀ entry ∈ found, P (Prod.snd entry)) (List.forall_mem_nil _)
    (fun source found decoded => (map_gives each levels source found decoded).2) read

theorem decoder_distinct : decoder.Gives fun document =>
    (∀ entry ∈ document.paths, entry.2.Distinct) ∧ ∀ entry ∈ document.schemas, entry.2.Distinct := by
  refine record_gives fun levels fields document read => ?_
  simp only [Option.bind_eq_bind, Option.bind_eq_some_iff, Option.pure_def] at read
  obtain ⟨version, -, paths, pathsRead, schemas, schemasRead, equal⟩ := read
  cases equal
  refine ⟨paths_gives pathItem_distinct pathsRead, ?_⟩
  exact optional?_gives (Q := fun found => ∀ entry ∈ found.getD [], Schema.Distinct (Prod.snd entry))
    (List.forall_mem_nil _) (components_distinct levels) schemasRead

end Reading

theorem Lowered.distinctNames {schemas : List Schema} {node : Node} (source : Lowered schemas node)
    (distinct : AllDistinct schemas) : node.DistinctNames := by
  cases source with
  | schema given lowered => exact lower_distinctNames lowered (distinct _ given)
  | string => exact Node.distinctNames_iff.mpr ⟨nofun, List.forall_mem_nil _⟩
  | any => exact Node.distinctNames_iff.mpr ⟨nofun, List.forall_mem_nil _⟩

end Document

-- Every schema of a loaded description declares each property once.
theorem Description.load_distinctNames {text : String} {description : Description}
    (loaded : Description.load text = .ok description) :
    (∀ op ∈ description.operations, ∀ node ∈ op.schemas, node.DistinctNames) ∧
      ∀ entry ∈ description.schemas, entry.2.DistinctNames := by
  unfold Description.load at loaded
  split at loaded
  · cases loaded
  · rename_i document read
    obtain ⟨source, _, decoded⟩ := Option.bind_eq_some_iff.mp read
    obtain ⟨paths, named⟩ := Document.decoder_distinct _ _ _ decoded
    refine ⟨?_, ?_⟩
    · intro op member node inside
      obtain ⟨source, given, lowered⟩ := Document.lower_lowered loaded op member
      refine (lowered node inside).distinctNames ?_
      obtain ⟨entry, path, held⟩ := List.mem_flatMap.mp given
      obtain ⟨declared, inPath, rfl⟩ := List.mem_map.mp held
      obtain ⟨parameters, operations⟩ := paths entry path
      exact List.forall_mem_append.mpr ⟨List.forall_mem_flatMap.mpr parameters, operations declared inPath⟩
    · obtain ⟨schemas, schemasMade, next⟩ := bind_ok loaded
      obtain ⟨operations, _, next⟩ := bind_ok next
      cases next
      intro entry member
      obtain ⟨source, given, node, lowered, rfl⟩ := lowerSchemas_sources schemasMade entry member
      obtain ⟨own, children⟩ := Node.distinctNames_iff.mp (lower_distinctNames lowered (named source given))
      exact Node.distinctNames_iff.mpr ⟨own, children⟩

end ApiContract
