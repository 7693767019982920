import ApiContract.Document.Lowering
import ApiContract.Proofs.Collections

namespace ApiContract

-- What the description of a document can be relied on for, whatever the document.
structure Description.WellFormed (description : Description) : Prop where
  schemaNames : (Keyed.keys description.schemas).Nodup
  operationNames : (description.operations.map Operation.name).Nodup
  -- Only definitions have names; what an operation mentions refers to them.
  anonymous : ∀ op ∈ description.operations, ∀ node ∈ op.schemas, node.name = none

-- Two shapes that are alike but for their children, which are related one by one.
section Shapes

variable {ε N M : Type} {R : N → M → Prop}

inductive Shape.Related (R : N → M → Prop) : Shape N → Shape M → Prop where
  | bool (value : Bool) : Related R (.bool value) (.bool value)
  | ref (name : String) : Related R (.ref name) (.ref name)
  | scalar (s : Scalar) : Related R (.scalar s) (.scalar s)
  | array {items : N} {mapped : M} {places : Option (List N)} {results : Option (List M)} (low high : Option Nat)
      (unique : Bool) (last : R items mapped) (each : Option.Rel (List.Forall₂ R) places results) :
      Related R (.array ⟨items, places, low, high, unique⟩) (.array ⟨mapped, results, low, high, unique⟩)
  | object {properties : List (String × N)} {results : List (String × M)} {additional : N} {mapped : M}
      (required : List String) (low high : Option Nat)
      (each : List.Forall₂ (fun p q => p.1 = q.1 ∧ R p.2 q.2) properties results) (others : R additional mapped) :
      Related R (.object ⟨properties, required, additional, low, high⟩)
        (.object ⟨results, required, mapped, low, high⟩)
  | composition (op : Composition) {branches : List N} {results : List M} (each : List.Forall₂ R branches results) :
      Related R (.composition op branches) (.composition op results)
  | const (value : Json) : Related R (.const value) (.const value)
  | enum (values : List Json) : Related R (.enum values) (.enum values)

theorem Shape.traverse_related {f : N → Except ε M} {shape : Shape N} {result : Shape M}
    (made : shape.traverse f = .ok result) : Shape.Related (fun n m => f n = .ok m) shape result := by
  cases shape with
  | bool value => cases made; exact .bool value
  | ref name => cases made; exact .ref name
  | scalar s => cases made; exact .scalar s
  | array a =>
    obtain ⟨items, places, low, high, unique⟩ := a
    cases places with
    | none =>
      obtain ⟨mapped, last, rfl⟩ := map_ok made
      exact .array low high unique last .none
    | some places =>
      obtain ⟨mapped, last, next⟩ := bind_ok made
      obtain ⟨results, each, next⟩ := bind_ok next
      cases next
      exact .array low high unique last (.some (traverse_ok each))
  | object o =>
    obtain ⟨properties, required, additional, low, high⟩ := o
    obtain ⟨results, each, next⟩ := bind_ok made
    obtain ⟨mapped, others, next⟩ := bind_ok next
    cases next
    refine .object required low high (related_imp (traverse_ok each) ?_) others
    intro property _ result made
    obtain ⟨node, one, rfl⟩ := map_ok made
    exact ⟨rfl, one⟩
  | composition op branches =>
    obtain ⟨results, each, next⟩ := bind_ok made
    cases next
    exact .composition op (traverse_ok each)
  | const value => cases made; exact .const value
  | enum values => cases made; exact .enum values

theorem Shape.Related.imp {S : N → M → Prop} {shape : Shape N} {result : Shape M}
    (related : Shape.Related R shape result)
    (each : ∀ n ∈ shape.children, ∀ m ∈ result.children, R n m → S n m) : Shape.Related S shape result := by
  cases related with
  | bool value => exact .bool value
  | ref name => exact .ref name
  | scalar s => exact .scalar s
  | array low high unique last inPlaces =>
    have own {α : Type} (xs : List α) (x : α) : x ∈ xs ++ [x] := List.mem_append_right _ (List.mem_singleton_self x)
    refine .array low high unique (each _ (own _ _) _ (own _ _) last) ?_
    cases inPlaces with
    | none => exact .none
    | some inPlaces =>
      refine .some (related_imp_mem inPlaces fun n given m made => ?_)
      exact each n (List.mem_append_left _ given) m (List.mem_append_left _ made)
  | object required low high properties others =>
    have own {α : Type} (xs : List α) (x : α) : x ∈ xs ++ [x] := List.mem_append_right _ (List.mem_singleton_self x)
    refine .object required low high (related_imp_mem properties ?_) (each _ (own _ _) _ (own _ _) others)
    rintro property given result made ⟨named, one⟩
    exact ⟨named, each _ (List.mem_append_left _ (List.mem_map_of_mem given)) _
      (List.mem_append_left _ (List.mem_map_of_mem made)) one⟩
  | composition op branches => exact .composition op (related_imp_mem branches each)
  | const value => exact .const value
  | enum values => exact .enum values

theorem Shape.Related.children {shape : Shape N} {result : Shape M} (related : Shape.Related R shape result) :
    List.Forall₂ R shape.children result.children := by
  cases related with
  | bool | ref | scalar | const | enum => exact .nil
  | array low high unique last each =>
    cases each with
    | none => exact .cons last .nil
    | some each => exact List.rel_append each (.cons last .nil)
  | object required low high each others =>
    refine List.rel_append ?_ (.cons others .nil)
    rw [List.forall₂_map_left_iff, List.forall₂_map_right_iff]
    exact each.imp fun _ _ both => both.2
  | composition op each => exact each

theorem Shape.Related.child {shape : Shape N} {result : Shape M} (related : Shape.Related R shape result)
    {m : M} (member : m ∈ result.children) : ∃ n ∈ shape.children, R n m :=
  related_right related.children member

end Shapes

-- What holds of a node that is put together from children of which it holds is true of every lowered one.
theorem Schema.lower_induction {P : Schema → Node → Prop}
    (settle : ∀ schema shape inner, Schema.step schema = .ok shape →
      Shape.Related (fun child node => P child node) shape inner → P schema (schema.annotate inner))
    {schema : Schema} {node : Node} (lowered : schema.lower = .ok node) : P schema node := by
  rw [Schema.lower_eq] at lowered
  obtain ⟨shape, stepped, next⟩ := bind_ok lowered
  obtain ⟨inner, made, rfl⟩ := map_ok next
  refine settle schema shape inner stepped ((Shape.traverse_related made).imp ?_)
  exact fun child member node _ lowered => Schema.lower_induction settle lowered
termination_by schema.size
decreasing_by exact Schema.size_of_mem_step stepped member

-- How a schema that is written with one keyword is read.
namespace Schema

open Json (Fields Source)

variable {key : String} {source : Source} {levels : Nat}

theorem optional?_other {α : Type} {name : String} (other : (name == key) = false) (decode : Source → Option α) :
    Fields.optional? [(key, source)] name decode = some none := by
  unfold Fields.optional?
  rw [List.lookup_cons, other]
  rfl

theorem decoder_single {value : Json} {k : Keywords Schema} (known : key ∈ keywordNames)
    (read : source.toJson? levels = some value)
    (keywords : keywords? (decode? (levels + 1)) levels [(key, source)] = some k) :
    decoder (levels + 1) (.object [(some key, source)]) = some (.object k) := by
  have whole : (Source.object [(some key, source)]).toJson? (levels + 1) = some (.ofFields [(key, value)]) := by
    simp [Source.toJson?, Source.fieldsToJson?, read]
  have fields : Fields.read? (keywordNames.map fun name => ⟨name, false⟩) (.object [(some key, source)]) =
      some [(key, source)] := by
    simp [Fields.read?, Fields.ofObject?, known]
  unfold decoder
  rw [whole]
  show (Fields.read? _ (.object [(some key, source)])).bind _ = _
  rw [fields]
  show Option.map Schema.object (keywords? _ levels [(key, source)]) = _
  rw [keywords]
  rfl

end Schema

section Schemas

-- A named schema as it is defined.
def defined (entry : String × Node) : String × Node := (entry.1, { entry.2 with name := some entry.1 })

theorem lowerSchemas_defines {document : Document} {schemas : List (String × Node)}
    (made : document.lowerSchemas = .ok schemas) :
    ∃ nodes, traverse (fun entry : String × Schema => entry.2.lower.map fun node => (entry.1, node))
        document.schemas = .ok nodes ∧
      schemas = (nodes.map defined).foldl (fun map pair => Keyed.insert pair.1 pair.2 map) [] := by
  obtain ⟨nodes, lowered, rfl⟩ := map_ok made
  refine ⟨nodes, lowered, ?_⟩
  rw [List.foldl_map]
  rfl

theorem lowerSchemas_nodup {document : Document} {schemas : List (String × Node)}
    (made : document.lowerSchemas = .ok schemas) : (Keyed.keys schemas).Nodup := by
  obtain ⟨nodes, _, rfl⟩ := lowerSchemas_defines made
  exact nodup_keys_inserted _ List.nodup_nil

theorem lowerSchemas_sources {document : Document} {schemas : List (String × Node)}
    (made : document.lowerSchemas = .ok schemas) : ∀ entry ∈ schemas,
      ∃ source ∈ document.schemas, ∃ node, source.2.lower = .ok node ∧ entry = defined (source.1, node) := by
  obtain ⟨nodes, lowered, rfl⟩ := lowerSchemas_defines made
  intro entry member
  rcases mem_inserted member with absent | given
  · cases absent
  · obtain ⟨node, inside, rfl⟩ := List.mem_map.mp given
    obtain ⟨source, written, one⟩ := related_right (traverse_ok lowered) inside
    obtain ⟨node, lowered, rfl⟩ := map_ok one
    exact ⟨source, written, node, lowered, rfl⟩

theorem annotate_anonymous (schema : Schema) (shape : Shape Node) : (schema.annotate shape).name = none := by
  cases schema <;> rfl

theorem lower_anonymous {schema : Schema} {node : Node} (lowered : schema.lower = .ok node) :
    node.name = none := by
  rw [Schema.lower_eq] at lowered
  obtain ⟨shape, _, next⟩ := bind_ok lowered
  obtain ⟨inner, _, rfl⟩ := map_ok next
  exact annotate_anonymous schema inner

end Schemas

namespace Document

-- The schemas that the parts of a document hold.
section Parts

def Content.schemas (content : Content) : List Schema := content.filterMap Prod.snd

def Parameter.schemas (p : Parameter) : List Schema :=
  p.schema.toList ++ Content.schemas (p.content.getD [])

def Operation.schemas (op : Operation) : List Schema :=
  op.parameters.flatMap Parameter.schemas
    ++ (op.requestBody.toList.flatMap fun body => Content.schemas body.content)
    ++ op.responses.flatMap fun entry => Content.schemas entry.2.content

-- Where a node of an operation comes from: a schema of the document, or a place without one.
inductive Lowered (schemas : List Schema) : Node → Prop where
  | schema {schema : Schema} {node : Node} (given : schema ∈ schemas) (lowered : schema.lower = .ok node) :
      Lowered schemas node
  | string : Lowered schemas .string
  | any : Lowered schemas .any

theorem Lowered.mono {schemas all : List Schema} {node : Node} (source : Lowered schemas node)
    (held : schemas ⊆ all) : Lowered all node := by
  cases source with
  | schema given lowered => exact .schema (held given) lowered
  | string => exact .string
  | any => exact .any

theorem Lowered.anonymous {schemas : List Schema} {node : Node} (source : Lowered schemas node) :
    node.name = none := by
  cases source with
  | schema _ lowered => exact lower_anonymous lowered
  | string => rfl
  | any => rfl

end Parts

section Operations

theorem lowerParameter_lowered {p : Parameter} {parameter : ApiContract.Parameter}
    (made : lowerParameter p = .ok parameter) : Lowered p.schemas parameter.schema := by
  unfold lowerParameter at made
  split at made
  · cases made
  · obtain ⟨node, lowered, rfl⟩ := map_ok made
    unfold parameterNode at lowered
    split at lowered
    · rename_i schema found
      refine .schema (List.mem_append.mpr ?_) lowered
      rcases Option.or_eq_some_iff.mp found with own | ⟨_, first⟩
      · exact .inl (Option.mem_toList.mpr own)
      · obtain ⟨entry, inside, present⟩ := List.exists_of_findSome?_eq_some first
        exact .inr (List.mem_filterMap.mpr ⟨entry, inside, present⟩)
    · cases lowered
      exact .string

theorem mem_foldl_declare {own inherited : List ApiContract.Parameter} {p : ApiContract.Parameter}
    (member : p ∈ own.foldl declare inherited) : p ∈ inherited ∨ p ∈ own := by
  induction own generalizing inherited with
  | nil => exact .inl member
  | cons q rest ih =>
    rcases ih member with before | later
    · rcases List.mem_append.mp before with kept | added
      · exact .inl (List.mem_of_mem_filter kept)
      · exact .inr (List.mem_singleton.mp added ▸ List.mem_cons_self)
    · exact .inr (List.mem_cons_of_mem q later)

theorem lowerParameters_lowered {path : String} {method : Method} {own inherited : List Parameter}
    {parameters : List ApiContract.Parameter}
    (made : lowerParameters path method own inherited = .ok parameters) :
    ∀ p ∈ parameters, Lowered ((inherited ++ own).flatMap Parameter.schemas) p.schema := by
  obtain ⟨_, _, next⟩ := bind_ok made
  obtain ⟨_, _, next⟩ := bind_ok next
  obtain ⟨first, firstMade, next⟩ := bind_ok next
  obtain ⟨second, secondMade, next⟩ := bind_ok next
  cases next
  have source {sources : List Parameter} {made : List ApiContract.Parameter}
      (lowered : traverse lowerParameter sources = .ok made) (given : sources ⊆ inherited ++ own)
      {p : ApiContract.Parameter} (member : p ∈ made) :
      Lowered ((inherited ++ own).flatMap Parameter.schemas) p.schema := by
    obtain ⟨written, inside, one⟩ := related_right (traverse_ok lowered) member
    refine (lowerParameter_lowered one).mono fun schema held => ?_
    exact List.mem_flatMap.mpr ⟨written, given inside, held⟩
  intro p member
  rcases mem_foldl_declare member with kept | declared
  · exact source firstMade (List.subset_append_left _ _) kept
  · exact source secondMade (List.subset_append_right _ _) declared

theorem lowerBody_lowered {source : Option RequestBody} {body : ApiContract.RequestBody}
    (made : lowerBody? source = .ok (some body)) : ∀ entry ∈ body.content,
      Lowered (source.toList.flatMap fun body => Content.schemas body.content) entry.2 := by
  cases source with
  | none => cases made
  | some source =>
    obtain ⟨content, contentMade, next⟩ := bind_ok made
    have kept : (if content.isEmpty then none
        else some (⟨source.required, source.description, content⟩ : ApiContract.RequestBody)) = some body :=
      Except.ok.inj next
    split at kept
    · cases kept
    · cases kept
      intro entry member
      obtain ⟨written, inside, made⟩ := related_right (traverse_ok contentMade) member
      rw [Option.toList_some, List.flatMap_singleton]
      split at made
      · rename_i schema present
        obtain ⟨node, lowered, rfl⟩ := map_ok made
        exact .schema (List.mem_filterMap.mpr ⟨written, inside, present⟩) lowered
      · cases made
        exact .any

theorem lowerResponse_lowered {entry : String × Response} {response : ApiContract.Response}
    (made : lowerResponse entry = .ok response) :
    ∀ node ∈ response.content.filterMap Prod.snd, Lowered (Content.schemas entry.2.content) node := by
  obtain ⟨content, contentMade, next⟩ := bind_ok made
  cases next
  intro node member
  obtain ⟨case, inside, present⟩ := List.mem_filterMap.mp member
  obtain ⟨written, given, made⟩ := related_right (traverse_ok contentMade) inside
  split at made
  · rename_i schema declared
    obtain ⟨inner, lowered, rfl⟩ := map_ok made
    cases present
    exact .schema (List.mem_filterMap.mpr ⟨written, given, declared⟩) lowered
  · cases made
    cases present

-- The schemas that an operation takes from its path and declares itself.
def sourceSchemas (source : String × List Parameter × Method × Operation) : List Schema :=
  source.2.1.flatMap Parameter.schemas ++ source.2.2.2.schemas

theorem lowerOperation_lowered {source : String × List Parameter × Method × Operation}
    {op : ApiContract.Operation} (made : lowerOperation source.1 source.2.1 source.2.2 = .ok op) :
    ∀ node ∈ op.schemas, Lowered (sourceSchemas source) node := by
  obtain ⟨parameters, parametersMade, next⟩ := bind_ok made
  obtain ⟨requestBody, bodyMade, next⟩ := bind_ok next
  obtain ⟨responses, responsesMade, next⟩ := bind_ok next
  cases next
  refine List.forall_mem_append.mpr ⟨List.forall_mem_append.mpr ⟨?_, ?_⟩, ?_⟩
  · refine List.forall_mem_map.mpr fun p member => (lowerParameters_lowered parametersMade p member).mono ?_
    rw [List.flatMap_append]
    simp [sourceSchemas, Operation.schemas]
  · dsimp only
    split
    · exact List.forall_mem_nil _
    · refine List.forall_mem_map.mpr fun entry member => (lowerBody_lowered bodyMade entry member).mono ?_
      exact fun schema held => List.mem_append_right _ (List.mem_append_left _ (List.mem_append_right _ held))
  · refine List.forall_mem_flatMap.mpr ?_
    intro response member
    obtain ⟨written, given, lowered⟩ := related_right (traverse_ok responsesMade) member
    intro node inside
    refine (lowerResponse_lowered lowered node inside).mono ?_
    exact fun schema held => List.mem_append_right _ (List.mem_append_right _
      (List.mem_flatMap.mpr ⟨written, given, held⟩))

theorem lowerOperations_sources {names : List String}
    {sources : List (String × List Parameter × Method × Operation)} {ops : List ApiContract.Operation}
    (made : lowerOperations names sources = .ok ops) :
    (ops.map ApiContract.Operation.name).Nodup ∧ (∀ op ∈ ops, op.name ∉ names) ∧
      ∀ op ∈ ops, ∃ source ∈ sources, lowerOperation source.1 source.2.1 source.2.2 = .ok op := by
  induction sources generalizing names ops with
  | nil =>
    cases made
    exact ⟨List.nodup_nil, List.forall_mem_nil _, List.forall_mem_nil _⟩
  | cons source rest ih =>
    obtain ⟨op, first, next⟩ := bind_ok made
    split at next
    · cases next
    · rename_i fresh
      obtain ⟨others, later, next⟩ := bind_ok next
      cases next
      obtain ⟨distinct, unused, lowered⟩ := ih later
      refine ⟨List.nodup_cons.mpr ⟨?_, distinct⟩, List.forall_mem_cons.mpr ⟨?_, ?_⟩,
        List.forall_mem_cons.mpr ⟨⟨source, List.mem_cons_self, first⟩, ?_⟩⟩
      · intro member
        obtain ⟨other, inside, equal⟩ := List.mem_map.mp member
        exact unused other inside (equal ▸ List.mem_cons_self)
      · simpa using fresh
      · exact fun other member taken => unused other member (List.mem_cons_of_mem _ taken)
      · intro other member
        obtain ⟨source, given, made⟩ := lowered other member
        exact ⟨source, List.mem_cons_of_mem _ given, made⟩

theorem lower_lowered {document : Document} {description : Description}
    (loaded : document.lower = .ok description) : ∀ op ∈ description.operations,
      ∃ source ∈ document.operations, ∀ node ∈ op.schemas, Lowered (sourceSchemas source) node := by
  obtain ⟨schemas, schemasMade, next⟩ := bind_ok loaded
  obtain ⟨operations, operationsMade, next⟩ := bind_ok next
  cases next
  intro op member
  obtain ⟨source, given, lowered⟩ := (lowerOperations_sources operationsMade).2.2 op member
  exact ⟨source, given, lowerOperation_lowered lowered⟩

theorem lower_wellFormed {document : Document} {description : Description}
    (loaded : document.lower = .ok description) : description.WellFormed := by
  have lowered := lower_lowered loaded
  obtain ⟨schemas, schemasMade, next⟩ := bind_ok loaded
  obtain ⟨operations, operationsMade, next⟩ := bind_ok next
  cases next
  refine ⟨lowerSchemas_nodup schemasMade, (lowerOperations_sources operationsMade).1, ?_⟩
  intro op member node inside
  obtain ⟨source, _, sources⟩ := lowered op member
  exact (sources node inside).anonymous

end Operations

end Document

end ApiContract
