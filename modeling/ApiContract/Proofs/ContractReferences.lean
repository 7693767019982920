import ApiContract.Contract.OfOperation
import ApiContract.Proofs.SchemaReferences

namespace ApiContract

-- Which named schemas a contract needs. The parameters, the bodies and the answers bring names in;
-- whatever else a contract holds is made of their types and validators.

def BodyContract.types : BodyContract → List TypeExpr
  | single _ _ _ _ type _ => [type]
  | variants _ _ _ members type => type :: members.map BodyVariant.type

def BodyContract.validators : BodyContract → List Validator
  | single _ _ _ _ _ validator => [validator]
  | variants _ _ _ members _ => members.map BodyVariant.validator

namespace Contract

-- All types of a contract.
def types (contract : Contract) : List TypeExpr :=
  contract.parameters.toList.map ParameterContract.type
    ++ contract.requestBody.toList.flatMap BodyContract.types
    ++ contract.response.variants.map ResponseVariant.type
    ++ [contract.response.envelope, contract.response.result, contract.response.error]

-- All validators of a contract.
def validators (contract : Contract) : List Validator :=
  contract.parameters.toList.map ParameterContract.validator
    ++ contract.requestBody.toList.flatMap BodyContract.validators
    ++ contract.response.variants.filterMap ResponseVariant.validator
    ++ contract.response.validator.toList

def Mentions (name : String) (contract : Contract) : Prop :=
  (∃ type ∈ contract.types, type.Mentions name) ∨ ∃ v ∈ contract.validators, v.Mentions name

end Contract

section Parts

variable {P : String → Prop}

def BodyContract.MembersNamesIn (P : String → Prop) : BodyContract → Prop
  | single _ _ _ _ type validator => type.NamesIn P ∧ validator.NamesIn P
  | variants _ _ _ members _ => ∀ member ∈ members, member.type.NamesIn P ∧ member.validator.NamesIn P

def ResponseVariant.VariantNamesIn (P : String → Prop) (variant : ResponseVariant) : Prop :=
  variant.type.NamesIn P ∧ ∀ v, variant.validator = some v → v.NamesIn P

-- What brings names into a contract keeps to the property.
structure Contract.PartsNamesIn (P : String → Prop) (contract : Contract) : Prop where
  parameters : ∀ p ∈ contract.parameters.toList, p.type.NamesIn P ∧ p.validator.NamesIn P
  requestBody : ∀ body, contract.requestBody = some body → body.MembersNamesIn P
  variants : ∀ variant ∈ contract.response.variants, variant.VariantNamesIn P

theorem BodyContract.forall_references {body : BodyContract} :
    (∀ name ∈ body.references, P name) ↔ body.MembersNamesIn P := by
  cases body with
  | single argument mediaType required encoding type validator =>
    show (∀ name ∈ type.references ++ validator.references, P name) ↔ _
    rw [List.forall_mem_append, TypeExpr.forall_references, Validator.forall_references]
    rfl
  | variants discriminator defaultMediaType required members type =>
    show (∀ name ∈ members.flatMap fun member => member.type.references ++ member.validator.references,
      P name) ↔ _
    rw [List.forall_mem_flatMap]
    refine forall₂_congr fun member _ => ?_
    rw [List.forall_mem_append, TypeExpr.forall_references, Validator.forall_references]

theorem ResponseVariant.forall_references {variant : ResponseVariant} :
    (∀ name ∈ variant.type.references ++ (match variant.validator with
      | none => []
      | some validator => validator.references), P name) ↔ variant.VariantNamesIn P := by
  rw [List.forall_mem_append, TypeExpr.forall_references]
  refine and_congr_right fun _ => ?_
  cases variant.validator with
  | none => simp
  | some validator => simp [Validator.forall_references]

theorem Contract.forall_references {contract : Contract} :
    (∀ name ∈ contract.references, P name) ↔ contract.PartsNamesIn P := by
  unfold Contract.references
  rw [List.forall_mem_append, List.forall_mem_append, List.forall_mem_flatMap, List.forall_mem_flatMap]
  have parameters : (∀ p ∈ contract.parameters.toList, ∀ name ∈ p.type.references ++ p.validator.references,
      P name) ↔ ∀ p ∈ contract.parameters.toList, p.type.NamesIn P ∧ p.validator.NamesIn P := by
    refine forall₂_congr fun p _ => ?_
    rw [List.forall_mem_append, TypeExpr.forall_references, Validator.forall_references]
  constructor
  · rintro ⟨⟨first, second⟩, third⟩
    refine ⟨parameters.mp first, ?_,
      fun variant member => ResponseVariant.forall_references.mp (third variant member)⟩
    intro body present
    rw [present] at second
    exact BodyContract.forall_references.mp second
  · intro parts
    refine ⟨⟨parameters.mpr parts.parameters, ?_⟩,
      fun variant member => ResponseVariant.forall_references.mpr (parts.variants variant member)⟩
    split
    · exact List.forall_mem_nil _
    · rename_i body present
      exact BodyContract.forall_references.mpr (parts.requestBody body present)

end Parts

namespace Contract

variable {P : String → Prop} {contract : Contract}

theorem types_mention {type : TypeExpr} (member : type ∈ contract.types) :
    type.NamesIn fun name => contract.Mentions name :=
  fun _ mentioned => .inl ⟨type, member, mentioned⟩

theorem validators_mention {v : Validator} (member : v ∈ contract.validators) :
    v.NamesIn fun name => contract.Mentions name :=
  fun _ mentioned => .inr ⟨v, member, mentioned⟩

theorem body_mentions {body : BodyContract} (present : contract.requestBody = some body) :
    (∀ type ∈ body.types, type ∈ contract.types) ∧ ∀ v ∈ body.validators, v ∈ contract.validators := by
  unfold types validators
  rw [present]
  constructor
  · intro type member
    simp [member]
  · intro v member
    simp [member]

-- What is referenced is mentioned by the part that it was gathered from.
theorem mentions_of_mem_references {name : String} (member : name ∈ contract.references) :
    contract.Mentions name := by
  refine (forall_references (P := fun name => contract.Mentions name)).mpr ⟨?_, ?_, ?_⟩ name member
  · intro p inside
    refine ⟨types_mention ?_, validators_mention ?_⟩
    · simp [types, List.mem_map_of_mem (f := ParameterContract.type) inside]
    · simp [validators, List.mem_map_of_mem (f := ParameterContract.validator) inside]
  · intro body present
    obtain ⟨ownTypes, ownValidators⟩ := body_mentions present
    cases body with
    | single argument mediaType required encoding type validator =>
      exact ⟨types_mention (ownTypes _ (List.mem_singleton_self _)),
        validators_mention (ownValidators _ (List.mem_singleton_self _))⟩
    | variants discriminator defaultMediaType required members type =>
      intro variant inside
      exact ⟨types_mention (ownTypes _ (List.mem_cons_of_mem _ (List.mem_map_of_mem inside))),
        validators_mention (ownValidators _ (List.mem_map_of_mem inside))⟩
  · intro variant inside
    refine ⟨types_mention ?_, fun v validated => validators_mention ?_⟩
    · simp [types, List.mem_map_of_mem (f := ResponseVariant.type) inside]
    · have listed : v ∈ contract.response.variants.filterMap ResponseVariant.validator :=
        List.mem_filterMap.mpr ⟨variant, inside, validated⟩
      exact List.mem_append_left _ (List.mem_append_right _ listed)

end Contract

-- The types and validators that are put together bring in no name.
section Derived

variable {P : String → Prop} {index : ModelIndex} {settings : Settings} {op : Operation}

open TypeExpr (allNamesIn_cons allNamesIn_pair namesIn_literal namesIn_object namesIn_primitive)

theorem variantType_namesIn (defaultMediaType : Option String) {variant : BodyVariant}
    (named : variant.type.NamesIn P) : (BodyContract.variantType defaultMediaType variant).NamesIn P :=
  namesIn_object.mpr (List.forall_mem_cons.mpr ⟨namesIn_literal _, List.forall_mem_singleton.mpr named⟩)

theorem ofBody_namesIn {body : RequestBody} {contract : BodyContract}
    (made : BodyContract.ofBody index body = .ok contract) (named : contract.MembersNamesIn P) :
    (∀ type ∈ contract.types, type.NamesIn P) ∧ ∀ v ∈ contract.validators, v.NamesIn P := by
  unfold BodyContract.ofBody at made
  split at made
  · obtain ⟨occurrence, _, next⟩ := bind_ok made
    cases next
    exact ⟨List.forall_mem_singleton.mpr named.1, List.forall_mem_singleton.mpr named.2⟩
  · obtain ⟨variants, _, next⟩ := bind_ok made
    cases next
    refine ⟨List.forall_mem_cons.mpr ⟨TypeExpr.unionOf_namesIn (List.forall_mem_map.mpr ?_), ?_⟩, ?_⟩
    · exact fun variant member => variantType_namesIn _ (named variant member).1
    · exact List.forall_mem_map.mpr fun variant member => (named variant member).1
    · exact List.forall_mem_map.mpr fun variant member => (named variant member).2

theorem intoTable_namesIn {responses : ResponseTable} {variant : ResponseVariant}
    (all : Validator.TableNamesIn P responses) (named : variant.VariantNamesIn P) :
    Validator.TableNamesIn P (variant.intoTable responses) := by
  have body : (Validator.bodyOf variant.validator).NamesIn P := by
    cases validated : variant.validator with
    | none => exact Validator.namesIn_leaf (by simp [Validator.bodyOf]) rfl
    | some v => exact named.2 v validated
  have before : Validator.MediaNamesIn P ((responses.lookup variant.status).getD []) := by
    cases found : responses.lookup variant.status with
    | none => exact List.forall_mem_nil _
    | some media => exact all _ (lookup_mem found)
  intro entry member
  rcases mem_insert member with old | rfl
  · exact all entry old
  · dsimp only
    split
    · exact before
    · intro case inside
      rcases mem_insert inside with old | rfl
      · exact before case old
      · exact body

theorem table_namesIn {variants : List ResponseVariant}
    (all : ∀ variant ∈ variants, variant.VariantNamesIn P) :
    Validator.TableNamesIn P (ResponseContract.table variants) := by
  have run (responses : ResponseTable) (start : Validator.TableNamesIn P responses) :
      Validator.TableNamesIn P (variants.foldl ResponseVariant.intoTable responses) := by
    induction variants generalizing responses with
    | nil => exact start
    | cons variant rest ih =>
      obtain ⟨first, later⟩ := List.forall_mem_cons.mp all
      exact ih later _ (intoTable_namesIn start first)
  exact run [] (List.forall_mem_nil _)

theorem envelopeType_namesIn {variant : ResponseVariant} (named : variant.type.NamesIn P) :
    variant.envelope.NamesIn P := by
  unfold ResponseVariant.envelope
  refine namesIn_object.mpr ?_
  refine List.forall_mem_cons.mpr ⟨?_, List.forall_mem_cons.mpr ⟨?_, List.forall_mem_singleton.mpr named⟩⟩
  · dsimp only
    split
    · exact namesIn_literal _
    · exact namesIn_primitive _
  · dsimp only
    split
    · exact namesIn_literal _
    · split
      · exact namesIn_primitive _
      · exact namesIn_literal _

theorem types_namesIn {variants : List ResponseVariant}
    (all : ∀ variant ∈ variants, variant.VariantNamesIn P) (keep : ResponseVariant → Bool) :
    TypeExpr.AllNamesIn P ((variants.filter keep).map ResponseVariant.type) :=
  List.forall_mem_map.mpr fun variant member => (all variant (List.mem_of_mem_filter member)).1

theorem resultOf_namesIn {variants : List ResponseVariant}
    (all : ∀ variant ∈ variants, variant.VariantNamesIn P) :
    (ResponseContract.resultOf settings index op variants).1.NamesIn P := by
  have success : ∀ variant ∈ variants.filter ResponseVariant.success, variant.VariantNamesIn P :=
    fun variant member => all variant (List.mem_of_mem_filter member)
  have member (created : Bool) (field : String) (code : Nat) : TypeExpr.NamesIn P
      (.object [{ name := "created", type := .flag created },
        { name := field, type := ResponseContract.bodyUnder (variants.filter ResponseVariant.success) code }]) := by
    refine namesIn_object.mpr (List.forall_mem_cons.mpr ⟨namesIn_literal _, List.forall_mem_singleton.mpr ?_⟩)
    exact TypeExpr.unionOf_namesIn (types_namesIn success _)
  unfold ResponseContract.resultOf
  dsimp only
  split
  · exact namesIn_primitive _
  · split
    · exact TypeExpr.namesIn_union.mpr (allNamesIn_pair (member true _ 201) (member false _ 200))
    · exact TypeExpr.unionOf_namesIn (types_namesIn all _)

theorem errorOf_namesIn {variants : List ResponseVariant}
    (all : ∀ variant ∈ variants, variant.VariantNamesIn P) :
    (ResponseContract.errorOf variants).NamesIn P := by
  unfold ResponseContract.errorOf
  split
  · exact namesIn_primitive _
  · exact TypeExpr.unionOf_namesIn (types_namesIn all _)

theorem ofVariants_variants (variants : List ResponseVariant) :
    (ResponseContract.ofVariants settings index op variants).1.variants = variants := by
  unfold ResponseContract.ofVariants
  split
  · rename_i empty
    exact (List.isEmpty_iff.mp empty).symm
  · rfl

theorem ofVariants_namesIn {variants : List ResponseVariant} {response : ResponseContract}
    (all : ∀ variant ∈ variants, variant.VariantNamesIn P)
    (made : (ResponseContract.ofVariants settings index op variants).1 = response) :
    (∀ type ∈ [response.envelope, response.result, response.error], type.NamesIn P) ∧
      ∀ v ∈ response.validator.toList, v.NamesIn P := by
  unfold ResponseContract.ofVariants at made
  split at made
  · cases made
    refine ⟨?_, List.forall_mem_nil _⟩
    exact allNamesIn_cons.mpr ⟨namesIn_primitive _, allNamesIn_pair (namesIn_primitive _) (namesIn_primitive _)⟩
  · cases made
    refine ⟨allNamesIn_cons.mpr ⟨?_, allNamesIn_pair (resultOf_namesIn all) (errorOf_namesIn all)⟩, ?_⟩
    · refine TypeExpr.unionOf_namesIn (List.forall_mem_map.mpr ?_)
      exact fun variant member => envelopeType_namesIn (all variant (List.mem_of_mem_filter member)).1
    · dsimp only
      split
      · exact List.forall_mem_singleton.mpr (Validator.ofResponses_namesIn (table_namesIn all))
      · exact List.forall_mem_nil _

end Derived

section Operations

variable {index : ModelIndex} {settings : Settings} {op : Operation} {contract : Contract}

-- What the contract of an operation is made of.
structure Compiled (settings : Settings) (index : ModelIndex) (op : Operation) (contract : Contract)
    (parameters : List ParameterContract) (variants : List (List ResponseVariant)) : Prop where
  name : contract.name = op.name
  scope : contract.scope = Scope.ofTag op.primaryTag?
  parametersMade : ParameterContract.ofParameters index op [] op.parameters = .ok parameters
  parameters : contract.parameters = .ofList parameters
  requestBody : BodyContract.ofBody? index op.requestBody = .ok contract.requestBody
  variantsMade : traverse (ResponseVariant.ofResponse index op) op.responses = .ok variants
  response : (ResponseContract.ofVariants settings index op
    (ResponseVariant.settleSuccess variants.flatten)).1 = contract.response
  steps : (ResponseContract.ofVariants settings index op
    (ResponseVariant.settleSuccess variants.flatten)).2 = contract.steps

theorem ofOperation_compiled (compiled : Contract.ofOperation settings index op = .ok contract) :
    ∃ parameters variants, Compiled settings index op contract parameters variants := by
  obtain ⟨parameters, parametersMade, next⟩ := bind_ok compiled
  obtain ⟨requestBody, bodyMade, next⟩ := bind_ok next
  obtain ⟨response, responseMade, next⟩ := bind_ok next
  obtain ⟨variants, variantsMade, made⟩ := bind_ok responseMade
  cases made
  cases next
  exact ⟨parameters, variants, rfl, rfl, parametersMade, rfl, bodyMade, variantsMade, rfl, rfl⟩

theorem ofBody?_some {source : Option RequestBody} {contract : BodyContract}
    (made : BodyContract.ofBody? index source = .ok (some contract)) :
    ∃ body, source = some body ∧ BodyContract.ofBody index body = .ok contract := by
  unfold BodyContract.ofBody? at made
  split at made
  · cases made
  · rename_i body
    split at made
    · cases made
    · obtain ⟨inner, compiled, equal⟩ := map_ok made
      cases equal
      exact ⟨body, rfl, compiled⟩

theorem requestBody_namesIn {P : String → Prop} {source : Option RequestBody} {body : Option BodyContract}
    (made : BodyContract.ofBody? index source = .ok body)
    (named : ∀ contract, body = some contract → contract.MembersNamesIn P) :
    (∀ type ∈ body.toList.flatMap BodyContract.types, type.NamesIn P) ∧
      ∀ v ∈ body.toList.flatMap BodyContract.validators, v.NamesIn P := by
  cases body with
  | none => exact ⟨List.forall_mem_nil _, List.forall_mem_nil _⟩
  | some contract =>
    obtain ⟨inner, _, compiled⟩ := ofBody?_some made
    simp only [Option.toList_some, List.flatMap_singleton]
    exact ofBody_namesIn compiled (named contract rfl)

-- What keeps the names of the parts together keeps the names of the whole contract together.
theorem ofOperation_namesIn {P : String → Prop}
    (compiled : Contract.ofOperation settings index op = .ok contract) (parts : contract.PartsNamesIn P) :
    (∀ type ∈ contract.types, type.NamesIn P) ∧ ∀ v ∈ contract.validators, v.NamesIn P := by
  obtain ⟨parameters, variants, made⟩ := ofOperation_compiled compiled
  have kept : contract.response.variants = ResponseVariant.settleSuccess variants.flatten := by
    rw [← made.response, ofVariants_variants]
  obtain ⟨bodyTypes, bodyValidators⟩ := requestBody_namesIn made.requestBody parts.requestBody
  obtain ⟨responseTypes, responseValidators⟩ :=
    ofVariants_namesIn (fun variant member => parts.variants variant (kept ▸ member)) made.response
  refine ⟨?_, ?_⟩
  · refine List.forall_mem_append.mpr ⟨List.forall_mem_append.mpr ⟨List.forall_mem_append.mpr
      ⟨?_, bodyTypes⟩, ?_⟩, responseTypes⟩
    · exact List.forall_mem_map.mpr fun p member => (parts.parameters p member).1
    · exact List.forall_mem_map.mpr fun variant member => (parts.variants variant member).1
  · refine List.forall_mem_append.mpr ⟨List.forall_mem_append.mpr ⟨List.forall_mem_append.mpr
      ⟨?_, bodyValidators⟩, ?_⟩, responseValidators⟩
    · exact List.forall_mem_map.mpr fun p member => (parts.parameters p member).2
    · intro v member
      obtain ⟨variant, inside, validated⟩ := List.mem_filterMap.mp member
      exact (parts.variants variant inside).2 v validated

theorem mentions_iff_mem_references (compiled : Contract.ofOperation settings index op = .ok contract)
    {name : String} : contract.Mentions name ↔ name ∈ contract.references := by
  constructor
  · obtain ⟨types, validators⟩ := ofOperation_namesIn compiled
      ((Contract.forall_references (P := (· ∈ contract.references))).mp fun name member => member)
    rintro (⟨type, member, mentioned⟩ | ⟨v, member, mentioned⟩)
    · exact types type member name mentioned
    · exact validators v member name mentioned
  · exact Contract.mentions_of_mem_references

end Operations

-- Every name comes from a schema of the operation, and the index has it.
section Sources

variable {index : ModelIndex} {settings : Settings} {op : Operation} {contract : Contract}

def RefersTo (index : ModelIndex) (nodes : List Node) (name : String) : Prop :=
  index.contains name = true ∧ ∃ node ∈ nodes, name ∈ node.directReferences

theorem occurrence_namesIn {node : Node} {nodes : List Node} {occurrence : Occurrence}
    (made : Occurrence.ofNode index node = .ok occurrence) (anonymous : node.name = none)
    (inside : node ∈ nodes) :
    occurrence.type.NamesIn (RefersTo index nodes) ∧ occurrence.validator.NamesIn (RefersTo index nodes) := by
  obtain ⟨validator, compiled, next⟩ := bind_ok made
  split at next
  · cases next
  · rename_i allKnown
    cases next
    have known {name : String}
        (member : name ∈ (TypeExpr.ofNode node).references ++ validator.references) :
        index.contains name = true := by
      simpa using List.find?_eq_none.mp allKnown name member
    refine ⟨?_, ?_⟩
    · intro name mentioned
      refine ⟨known (List.mem_append_left _ (TypeExpr.mem_references.mpr mentioned)), node, inside, ?_⟩
      exact Node.occurrences_subset anonymous (ofNode_namesIn node name mentioned)
    · intro name mentioned
      refine ⟨known (List.mem_append_right _ (Validator.mem_references.mpr mentioned)), node, inside, ?_⟩
      exact compiled_expanded_namesIn index.contains node validator compiled name mentioned

theorem parameters_namesIn {nodes : List Node} {taken : List String} {parameters : List Parameter}
    {contracts : List ParameterContract}
    (made : ParameterContract.ofParameters index op taken parameters = .ok contracts)
    (sources : ∀ p ∈ parameters, p.schema ∈ nodes ∧ p.schema.name = none) :
    ∀ p ∈ contracts, p.type.NamesIn (RefersTo index nodes) ∧ p.validator.NamesIn (RefersTo index nodes) := by
  induction parameters generalizing taken contracts with
  | nil =>
    cases made
    exact List.forall_mem_nil _
  | cons p rest ih =>
    obtain ⟨⟨inside, anonymous⟩, later⟩ := List.forall_mem_cons.mp sources
    obtain ⟨contract, first, next⟩ := bind_ok made
    obtain ⟨others, remaining, next⟩ := bind_ok next
    cases next
    obtain ⟨_, _, first⟩ := bind_ok first
    obtain ⟨occurrence, occurs, first⟩ := bind_ok first
    cases first
    exact List.forall_mem_cons.mpr ⟨occurrence_namesIn occurs anonymous inside, ih remaining later⟩

theorem variantsOf_namesIn {nodes : List Node} {taken : List String} {content : List (String × Node)}
    {variants : List BodyVariant} (made : BodyContract.variantsOf index taken content = .ok variants)
    (sources : ∀ entry ∈ content, entry.2 ∈ nodes ∧ entry.2.name = none) :
    ∀ variant ∈ variants,
      variant.type.NamesIn (RefersTo index nodes) ∧ variant.validator.NamesIn (RefersTo index nodes) := by
  induction content generalizing taken variants with
  | nil =>
    cases made
    exact List.forall_mem_nil _
  | cons entry rest ih =>
    obtain ⟨⟨inside, anonymous⟩, later⟩ := List.forall_mem_cons.mp sources
    obtain ⟨occurrence, occurs, next⟩ := bind_ok made
    obtain ⟨others, remaining, next⟩ := bind_ok next
    cases next
    exact List.forall_mem_cons.mpr ⟨occurrence_namesIn occurs anonymous inside, ih remaining later⟩

theorem bodySource_namesIn {nodes : List Node} {body : RequestBody} {contract : BodyContract}
    (made : BodyContract.ofBody index body = .ok contract)
    (sources : ∀ entry ∈ body.content, entry.2 ∈ nodes ∧ entry.2.name = none) :
    contract.MembersNamesIn (RefersTo index nodes) := by
  unfold BodyContract.ofBody at made
  split at made
  · rename_i mediaType node single
    rw [single] at sources
    obtain ⟨inside, anonymous⟩ := sources _ (List.mem_singleton_self _)
    obtain ⟨occurrence, occurs, next⟩ := bind_ok made
    cases next
    exact occurrence_namesIn occurs anonymous inside
  · obtain ⟨variants, variantsMade, next⟩ := bind_ok made
    cases next
    exact variantsOf_namesIn variantsMade sources

-- Only JSON bodies that are there have a type and a validator of their own.
theorem bodyOf_namesIn {nodes : List Node} {status : Status} {representation : MediaType.Representation}
    {node : Option Node} {body : TypeExpr × Option Validator}
    (made : ResponseVariant.bodyOf index status representation node = .ok body)
    (sources : ∀ source, node = some source → source ∈ nodes ∧ source.name = none) :
    body.1.NamesIn (RefersTo index nodes) ∧ ∀ v, body.2 = some v → v.NamesIn (RefersTo index nodes) := by
  have plain (p : Primitive) : (TypeExpr.primitive p).NamesIn (RefersTo index nodes) ∧
      ∀ v, (none : Option Validator) = some v → v.NamesIn (RefersTo index nodes) :=
    ⟨TypeExpr.namesIn_primitive p, fun v absent => by cases absent⟩
  unfold ResponseVariant.bodyOf at made
  split at made
  · cases made
    exact plain .void
  · split at made
    · rename_i source
      obtain ⟨occurrence, occurs, rfl⟩ := map_ok made
      obtain ⟨inside, anonymous⟩ := sources source rfl
      obtain ⟨type, validator⟩ := occurrence_namesIn occurs anonymous inside
      refine ⟨type, fun v equal => ?_⟩
      cases equal
      exact validator
    · cases made
      exact plain .unknown
    · cases made
      exact plain .unknown
    · cases made
      exact plain .string
    · cases made
      exact plain .binary

-- The variants of a response: one where it has no content, else one for each media type.
theorem ofResponse_cases {response : Response} {variants : List ResponseVariant}
    (made : ResponseVariant.ofResponse index op response = .ok variants) :
    ∃ status, Status.parse? response.status = some status ∧
      ((response.content = [] ∧ variants = [.empty status]) ∨
        (response.content ≠ [] ∧ List.Forall₂ (fun entry variant =>
          ResponseVariant.ofContent index status entry = .ok variant) response.content variants)) := by
  unfold ResponseVariant.ofResponse at made
  split at made
  · cases made
  · rename_i status parsed
    refine ⟨status, parsed, ?_⟩
    split at made
    · rename_i empty
      exact .inl ⟨List.isEmpty_iff.mp empty, (Except.ok.inj made).symm⟩
    · rename_i some
      exact .inr ⟨fun empty => some (List.isEmpty_iff.mpr empty), traverse_ok made⟩

-- Every variant was made from a response of the operation.
theorem variant_source {groups : List (List ResponseVariant)}
    (made : traverse (ResponseVariant.ofResponse index op) op.responses = .ok groups) {variant : ResponseVariant}
    (member : variant ∈ groups.flatten) :
    ∃ response ∈ op.responses, ∃ group,
      ResponseVariant.ofResponse index op response = .ok group ∧ variant ∈ group := by
  obtain ⟨group, inside, member⟩ := List.mem_flatten.mp member
  obtain ⟨response, given, responded⟩ := related_right (traverse_ok made) inside
  exact ⟨response, given, group, responded, member⟩

theorem responseSource_namesIn {nodes : List Node} {response : Response} {variants : List ResponseVariant}
    (made : ResponseVariant.ofResponse index op response = .ok variants)
    (sources : ∀ node ∈ response.content.filterMap Prod.snd, node ∈ nodes ∧ node.name = none) :
    ∀ variant ∈ variants, variant.VariantNamesIn (RefersTo index nodes) := by
  unfold ResponseVariant.ofResponse at made
  split at made
  · cases made
  · split at made
    · cases made
      refine List.forall_mem_singleton.mpr ⟨TypeExpr.namesIn_primitive .void, fun v absent => ?_⟩
      cases absent
    · intro variant member
      obtain ⟨entry, inside, made⟩ := related_right (traverse_ok made) member
      obtain ⟨body, bodyMade, rfl⟩ := map_ok made
      refine bodyOf_namesIn bodyMade ?_
      intro source present
      exact sources source (List.mem_filterMap.mpr ⟨entry, inside, present⟩)

theorem settleSuccess_namesIn {P : String → Prop} {variants : List ResponseVariant}
    (all : ∀ variant ∈ variants, variant.VariantNamesIn P) :
    ∀ variant ∈ ResponseVariant.settleSuccess variants, variant.VariantNamesIn P := by
  unfold ResponseVariant.settleSuccess
  split
  · exact all
  · exact List.forall_mem_map.mpr all

theorem ofList_subset {parameters : List ParameterContract} {p : ParameterContract}
    (member : p ∈ (ParameterGroups.ofList parameters).toList) : p ∈ parameters := by
  rcases List.mem_append.mp member with pathOrQuery | header
  · rcases List.mem_append.mp pathOrQuery with path | query
    · exact List.mem_of_mem_filter path
    · exact List.mem_of_mem_filter query
  · exact List.mem_of_mem_filter header

theorem parameter_listed {p : Parameter} (given : p ∈ op.parameters) : p.schema ∈ op.schemas := by
  simp [Operation.schemas, List.mem_map_of_mem (f := Parameter.schema) given]

theorem content_listed {body : RequestBody} (given : op.requestBody = some body) {entry : String × Node}
    (inside : entry ∈ body.content) : entry.2 ∈ op.schemas := by
  simp only [Operation.schemas, given, List.mem_append]
  exact .inl (.inr (List.mem_map_of_mem inside))

theorem answer_listed {response : Response} (given : response ∈ op.responses) {node : Node}
    (found : node ∈ response.content.filterMap Prod.snd) : node ∈ op.schemas := by
  simp only [Operation.schemas, List.mem_append]
  exact .inr (List.mem_flatMap.mpr ⟨response, given, found⟩)

-- The names that a contract refers to are those of the schemas that its operation mentions.
theorem references_subset (compiled : Contract.ofOperation settings index op = .ok contract)
    (anonymous : ∀ node ∈ op.schemas, node.name = none) :
    ∀ name ∈ contract.references, RefersTo index op.schemas name := by
  obtain ⟨parameters, variants, made⟩ := ofOperation_compiled compiled
  refine Contract.forall_references.mpr ⟨?_, ?_, ?_⟩
  · rw [made.parameters]
    intro p member
    refine parameters_namesIn made.parametersMade ?_ p (ofList_subset member)
    exact fun source given => ⟨parameter_listed given, anonymous _ (parameter_listed given)⟩
  · intro body present
    have made := made.requestBody
    rw [present] at made
    obtain ⟨source, given, compiled⟩ := ofBody?_some made
    refine bodySource_namesIn compiled ?_
    exact fun entry inside => ⟨content_listed given inside, anonymous _ (content_listed given inside)⟩
  · rw [← made.response, ofVariants_variants]
    refine settleSuccess_namesIn ?_
    intro variant member
    obtain ⟨group, inside, member⟩ := List.mem_flatten.mp member
    obtain ⟨response, given, responded⟩ := related_right (traverse_ok made.variantsMade) inside
    refine responseSource_namesIn responded ?_ variant member
    exact fun node found => ⟨answer_listed given found, anonymous _ (answer_listed given found)⟩

end Sources

end ApiContract
