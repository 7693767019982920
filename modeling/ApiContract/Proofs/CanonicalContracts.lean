import ApiContract.Proofs.CanonicalTypes
import ApiContract.Proofs.ContractReferences
import ApiContract.Proofs.FreshNames

namespace ApiContract

open TypeExpr (Canonical canonical_literal canonical_object canonical_primitive unionOf_canonical)

section Parts

variable {index : ModelIndex} {op : Operation}

theorem occurrence_canonical {node : Node} {occurrence : Occurrence}
    (made : Occurrence.ofNode index node = .ok occurrence) (names : node.DistinctNames) :
    Canonical occurrence.type := by
  obtain ⟨validator, _, next⟩ := bind_ok made
  split at next
  · cases next
  · cases next
    exact TypeExpr.ofNode_canonical names

theorem parameters_canonical {taken : List String} {parameters : List Parameter}
    {contracts : List ParameterContract}
    (made : ParameterContract.ofParameters index op taken parameters = .ok contracts)
    (names : ∀ p ∈ parameters, p.schema.DistinctNames) : ∀ p ∈ contracts, Canonical p.type := by
  induction parameters generalizing taken contracts with
  | nil =>
    cases made
    exact List.forall_mem_nil _
  | cons p rest ih =>
    obtain ⟨own, later⟩ := List.forall_mem_cons.mp names
    obtain ⟨contract, first, next⟩ := bind_ok made
    obtain ⟨others, remaining, next⟩ := bind_ok next
    cases next
    obtain ⟨_, _, first⟩ := bind_ok first
    obtain ⟨occurrence, occurs, first⟩ := bind_ok first
    cases first
    exact List.forall_mem_cons.mpr ⟨occurrence_canonical occurs own, ih remaining later⟩

-- Each argument is new: it is none of the taken ones and none of those before it.
theorem variantsOf_arguments {taken : List String} {content : List (String × Node)} {variants : List BodyVariant}
    (made : BodyContract.variantsOf index taken content = .ok variants) :
    (variants.map BodyVariant.argument).Nodup ∧ ∀ variant ∈ variants, variant.argument ∉ taken := by
  have apart : Identifier.Apart (variants.map BodyVariant.argument) taken := by
    induction content generalizing taken variants with
    | nil =>
      cases made
      exact .nil taken
    | cons entry rest ih =>
      obtain ⟨occurrence, _, next⟩ := bind_ok made
      obtain ⟨others, remaining, next⟩ := bind_ok next
      cases next
      exact .cons (Identifier.fresh_notMem _ _) (ih remaining)
  have each := List.forall_mem_map.mp apart.free
  exact ⟨apart.distinct, each⟩

theorem variantsOf_canonical {taken : List String} {content : List (String × Node)} {variants : List BodyVariant}
    (made : BodyContract.variantsOf index taken content = .ok variants)
    (names : ∀ entry ∈ content, entry.2.DistinctNames) : ∀ variant ∈ variants, Canonical variant.type := by
  induction content generalizing taken variants with
  | nil =>
    cases made
    exact List.forall_mem_nil _
  | cons entry rest ih =>
    obtain ⟨own, later⟩ := List.forall_mem_cons.mp names
    obtain ⟨occurrence, occurs, next⟩ := bind_ok made
    obtain ⟨others, remaining, next⟩ := bind_ok next
    cases next
    exact List.forall_mem_cons.mpr ⟨occurrence_canonical occurs own, ih remaining later⟩

-- The argument of a variant is not the one that tells the variants apart.
theorem variantType_canonical (defaultMediaType : Option String) {variant : BodyVariant}
    (canonical : Canonical variant.type) (free : variant.argument ∉ [BodyContract.discriminator]) :
    Canonical (BodyContract.variantType defaultMediaType variant) := by
  refine canonical_object.mpr ⟨?_, List.forall_mem_cons.mpr
    ⟨canonical_literal _, List.forall_mem_singleton.mpr canonical⟩⟩
  have apart : BodyContract.discriminator ≠ variant.argument := fun equal => free (equal ▸ List.mem_singleton_self _)
  simpa using apart

theorem ofBody_canonical {body : RequestBody} {contract : BodyContract}
    (made : BodyContract.ofBody index body = .ok contract)
    (names : ∀ entry ∈ body.content, entry.2.DistinctNames) : ∀ type ∈ contract.types, Canonical type := by
  unfold BodyContract.ofBody at made
  split at made
  · rename_i mediaType node single
    rw [single] at names
    obtain ⟨occurrence, occurs, next⟩ := bind_ok made
    cases next
    exact List.forall_mem_singleton.mpr (occurrence_canonical occurs (names _ (List.mem_singleton_self _)))
  · obtain ⟨variants, variantsMade, next⟩ := bind_ok made
    cases next
    have each := variantsOf_canonical variantsMade names
    have free := (variantsOf_arguments variantsMade).2
    refine List.forall_mem_cons.mpr ⟨unionOf_canonical (List.forall_mem_map.mpr ?_), List.forall_mem_map.mpr each⟩
    exact fun variant member => variantType_canonical _ (each variant member) (free variant member)

theorem bodyOf_canonical {status : Status} {representation : MediaType.Representation} {node : Option Node}
    {body : TypeExpr × Option Validator}
    (made : ResponseVariant.bodyOf index status representation node = .ok body)
    (names : ∀ source, node = some source → source.DistinctNames) : Canonical body.1 := by
  unfold ResponseVariant.bodyOf at made
  split at made
  · cases made
    exact canonical_primitive _
  · split at made
    · obtain ⟨occurrence, occurs, rfl⟩ := map_ok made
      exact occurrence_canonical occurs (names _ rfl)
    all_goals
      cases made
      exact canonical_primitive _

theorem ofResponse_canonical {response : Response} {variants : List ResponseVariant}
    (made : ResponseVariant.ofResponse index op response = .ok variants)
    (names : ∀ node ∈ response.content.filterMap Prod.snd, node.DistinctNames) :
    ∀ variant ∈ variants, Canonical variant.type := by
  unfold ResponseVariant.ofResponse at made
  split at made
  · cases made
  · split at made
    · cases made
      exact List.forall_mem_singleton.mpr (canonical_primitive _)
    · intro variant member
      obtain ⟨entry, inside, made⟩ := related_right (traverse_ok made) member
      obtain ⟨body, bodyMade, rfl⟩ := map_ok made
      refine bodyOf_canonical bodyMade fun source present => ?_
      exact names source (List.mem_filterMap.mpr ⟨entry, inside, present⟩)

theorem settleSuccess_canonical {variants : List ResponseVariant}
    (all : ∀ variant ∈ variants, Canonical variant.type) :
    ∀ variant ∈ ResponseVariant.settleSuccess variants, Canonical variant.type := by
  unfold ResponseVariant.settleSuccess
  split
  · exact all
  · exact List.forall_mem_map.mpr all

end Parts

-- What is put together from the types of the answers.
section Responses

variable {settings : Settings} {index : ModelIndex} {op : Operation} {variants : List ResponseVariant}

theorem envelope_canonical {variant : ResponseVariant} (canonical : Canonical variant.type) :
    Canonical variant.envelope := by
  refine canonical_object.mpr ⟨?_, List.forall_mem_cons.mpr ⟨?_, List.forall_mem_cons.mpr
    ⟨?_, List.forall_mem_singleton.mpr canonical⟩⟩⟩
  · show ["status", "mediaType", "body"].Nodup
    decide
  · dsimp only
    split
    · exact canonical_literal _
    · exact canonical_primitive _
  · dsimp only
    split
    · exact canonical_literal _
    · split
      · exact canonical_primitive _
      · exact canonical_literal _

theorem bodies_canonical (all : ∀ variant ∈ variants, Canonical variant.type) (keep : ResponseVariant → Bool) :
    Canonical (.unionOf ((variants.filter keep).map ResponseVariant.type)) :=
  unionOf_canonical (List.forall_mem_map.mpr fun variant member => all variant (List.mem_of_mem_filter member))

theorem errorOf_canonical (all : ∀ variant ∈ variants, Canonical variant.type) :
    Canonical (ResponseContract.errorOf variants) := by
  unfold ResponseContract.errorOf
  split
  · exact canonical_primitive _
  · exact bodies_canonical all _

-- The result that tells a created resource from another is left as it is written.
theorem resultOf_canonical (all : ∀ variant ∈ variants, Canonical variant.type)
    (plain : ∀ field, .createdShortcut field ∉ (ResponseContract.resultOf settings index op variants).2) :
    Canonical (ResponseContract.resultOf settings index op variants).1 := by
  unfold ResponseContract.resultOf at plain ⊢
  dsimp only at plain ⊢
  split
  · exact canonical_primitive _
  · rename_i answered
    rw [if_neg answered] at plain
    split
    · rename_i created
      rw [if_pos created] at plain
      exact absurd (List.mem_append_right _ List.mem_cons_self) (plain _)
    · exact bodies_canonical all _

theorem ofVariants_canonical (all : ∀ variant ∈ variants, Canonical variant.type) {response : ResponseContract}
    {steps : List Step} (made : ResponseContract.ofVariants settings index op variants = (response, steps)) :
    Canonical response.envelope ∧ Canonical response.error ∧
      ((∀ field, .createdShortcut field ∉ steps) → Canonical response.result) := by
  unfold ResponseContract.ofVariants at made
  split at made
  · cases made
    exact ⟨canonical_primitive _, canonical_primitive _, fun _ => canonical_primitive _⟩
  · cases made
    refine ⟨unionOf_canonical (List.forall_mem_map.mpr ?_), errorOf_canonical all, resultOf_canonical all⟩
    exact fun variant member => envelope_canonical (all variant (List.mem_of_mem_filter member))

end Responses

namespace Contract

structure Canonical (contract : Contract) : Prop where
  parameters : ∀ p ∈ contract.parameters.toList, TypeExpr.Canonical p.type
  requestBody : ∀ type ∈ contract.requestBody.toList.flatMap BodyContract.types, TypeExpr.Canonical type
  answers : ∀ variant ∈ contract.response.variants, TypeExpr.Canonical variant.type
  envelope : TypeExpr.Canonical contract.response.envelope
  error : TypeExpr.Canonical contract.response.error
  result : (∀ field, .createdShortcut field ∉ contract.steps) → TypeExpr.Canonical contract.response.result

variable {settings : Settings} {index : ModelIndex} {op : Operation} {contract : Contract}

theorem ofOperation_canonical (compiled : Contract.ofOperation settings index op = .ok contract)
    (names : ∀ node ∈ op.schemas, node.DistinctNames) : contract.Canonical := by
  obtain ⟨parameters, variants, made⟩ := ofOperation_compiled compiled
  have answers : ∀ variant ∈ ResponseVariant.settleSuccess variants.flatten, TypeExpr.Canonical variant.type := by
    refine settleSuccess_canonical fun variant member => ?_
    obtain ⟨group, inside, member⟩ := List.mem_flatten.mp member
    obtain ⟨response, given, responded⟩ := related_right (traverse_ok made.variantsMade) inside
    exact ofResponse_canonical responded (fun node found => names node (answer_listed given found)) variant member
  obtain ⟨envelope, error, result⟩ := ofVariants_canonical answers (Prod.ext made.response made.steps)
  refine ⟨?_, ?_, ?_, envelope, error, result⟩
  · rw [made.parameters]
    intro p member
    refine parameters_canonical made.parametersMade ?_ p (ofList_subset member)
    exact fun source given => names _ (parameter_listed given)
  · have requestBody := made.requestBody
    cases present : contract.requestBody with
    | none => exact List.forall_mem_nil _
    | some body =>
      rw [present] at requestBody
      obtain ⟨source, given, compiled⟩ := ofBody?_some requestBody
      simp only [Option.toList_some, List.flatMap_singleton]
      exact ofBody_canonical compiled fun entry inside => names _ (content_listed given inside)
  · rw [← made.response, ofVariants_variants]
    exact answers

end Contract

open TypeExpr (unionOf intersectionOf)

-- Every type of the output is canonical, and simplifying what is canonical changes nothing.
theorem types_are_canonical :
    (∀ node : Node, node.DistinctNames →
      Canonical (TypeExpr.ofNode node) ∧ Canonical (TypeExpr.expanded node)) ∧
    (∀ text description, Description.load text = .ok description →
      (∀ definition ∈ description.schemas, Canonical (TypeExpr.expanded definition.2)) ∧
      ∀ op ∈ description.operations, ∀ settings index contract,
        Contract.ofOperation settings index op = .ok contract → contract.Canonical) ∧
    (∀ types, unionOf [unionOf types] = unionOf types ∧
      unionOf [unionOf types, unionOf types] = unionOf types) ∧
    (∀ types, intersectionOf [intersectionOf types] = intersectionOf types ∧
      intersectionOf [intersectionOf types, intersectionOf types] = intersectionOf types) := by
  refine ⟨?_, ?_, TypeExpr.unionOf_stable, TypeExpr.intersectionOf_stable⟩
  · exact fun node names => ⟨TypeExpr.ofNode_canonical names, TypeExpr.expanded_canonical names⟩
  · intro text description loaded
    obtain ⟨operations, definitions⟩ := Description.load_distinctNames loaded
    refine ⟨fun definition member => TypeExpr.expanded_canonical (definitions definition member), ?_⟩
    intro op member settings index contract compiled
    exact Contract.ofOperation_canonical compiled (operations op member)

-- Visits are listed by a mark that is a flag or a word. The text is that of
-- [paths: [/visits: [get: [parameters: [name: mark, in: query, schema: [enum: true, "late", false]]]]]].
def visitsText : String :=
  "\x7b\"paths\":\x7b\"/visits\":\x7b\"get\":\x7b\"parameters\":[\x7b\"name\":\"mark\",\"in\":\"query\"," ++
    "\"schema\":\x7b\"enum\":[true,\"late\",false]\x7d\x7d]\x7d\x7d\x7d\x7d"

-- A visit has an identifier and may have notes.
def visitNode : Node := .record [("id", .string), ("note", .list .string)] ["id"]

theorem visits_canonical :
    (visitNode.DistinctNames ∧ Canonical (TypeExpr.ofNode visitNode)) ∧
    ∃ description op contract, Description.load visitsText = .ok description ∧
      op ∈ description.operations ∧ Contract.ofOperation {} {} op = .ok contract ∧
      (contract.parameters.toList.map ParameterContract.type == [.union [.boolean, .text "late"]]) = true ∧
      contract.Canonical := by
  have names : visitNode.DistinctNames := by
    unfold Node.DistinctNames
    decide +kernel
  refine ⟨⟨names, (types_are_canonical.1 visitNode names).1⟩, ?_⟩
  have evaluated : ((Description.load visitsText).toOption.bind fun description =>
      description.operations.head?.bind fun op => (Contract.ofOperation {} {} op).toOption.map fun contract =>
        contract.parameters.toList.map ParameterContract.type == [.union [.boolean, .text "late"]]) = some true := by
    decide +kernel
  obtain ⟨description, lowered, rest⟩ := Option.bind_eq_some_iff.mp evaluated
  obtain ⟨op, first, rest⟩ := Option.bind_eq_some_iff.mp rest
  obtain ⟨contract, built, marked⟩ := Option.map_eq_some_iff.mp rest
  have loaded := toOption_some lowered
  have given := List.mem_of_mem_head? first
  have compiled := toOption_some built
  refine ⟨description, op, contract, loaded, given, compiled, marked, ?_⟩
  exact (types_are_canonical.2.1 visitsText description loaded).2 op given {} {} contract compiled

end ApiContract
