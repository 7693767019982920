import ApiContract.Pattern.Search
import ApiContract.Proofs.CheckErrors
import ApiContract.Proofs.ModuleImports

namespace ApiContract

-- Resolving is where a name without a definition is found. What is compiled or checked afterwards looks
-- up no other names than those that resolving has seen.

-- If the error is about a name, the name has the property.
def CompileError.About (P : String → Prop) : CompileError → Prop
  | unresolved name => P name
  | _ => True

section Schemas

variable {P : String → Prop} {known : String → Bool} {compile : Node → Validator.Compiled}

open Validator

theorem about_imp {α : Type} {Q : String → Prop} {result : Except CompileError α}
    (first : ErrorsIn (CompileError.About P) result) (step : ∀ name, P name → Q name) :
    ErrorsIn (CompileError.About Q) result := by
  intro e failed
  have holds := first e failed
  cases e with
  | unresolved name => exact step name holds
  | _ => trivial

theorem validatorOfReference_errors {name : String} (missing : known name = false → P name) :
    ErrorsIn (CompileError.About P) (ofReference known name) := by
  unfold ofReference
  split
  · exact errorsIn_ok _
  · rename_i unknown
    intro e equal
    cases equal
    exact missing (by simpa using unknown)

theorem validatorOfShape_errors {shape : Shape Node}
    (own : ∀ name, shape = .ref name → known name = false → P name)
    (children : ∀ child ∈ shape.children, ErrorsIn (CompileError.About P) (compile child)) :
    ErrorsIn (CompileError.About P)
      (Validator.ofShape known (shape.map fun child => (child, compile child))) := by
  have all {nodes : List Node} (each : ∀ node ∈ nodes, ErrorsIn (CompileError.About P) (compile node)) :
      ErrorsIn (CompileError.About P) (traverse Prod.snd (nodes.map fun node => (node, compile node))) :=
    errorsIn_traverse (List.forall_mem_map.mpr each)
  cases shape with
  | bool value => cases value <;> exact errorsIn_ok _
  | ref name => exact validatorOfReference_errors (own name rfl)
  | scalar scalar => exact errorsIn_ok _
  | array a =>
    obtain ⟨items, places, low, high, unique⟩ := a
    obtain ⟨inPlaces, inItems⟩ := List.forall_mem_append.mp children
    have last : ErrorsIn (CompileError.About P) (compile items) := inItems items (List.mem_singleton_self _)
    cases places with
    | none => exact errorsIn_bind last fun _ _ => errorsIn_ok _
    | some places =>
      refine errorsIn_bind (errorsIn_map (all inPlaces)) fun _ _ => ?_
      exact errorsIn_bind last fun _ _ => errorsIn_ok _
  | object o =>
    obtain ⟨declared, others⟩ := List.forall_mem_append.mp children
    refine errorsIn_bind (errorsIn_traverse ?_) fun _ _ =>
      errorsIn_bind (others _ (List.mem_singleton_self _)) fun _ _ => errorsIn_ok _
    refine List.forall_mem_map.mpr fun property member => errorsIn_map ?_
    exact declared property.2 (List.mem_map_of_mem member)
  | composition op branches => exact errorsIn_bind (all children) fun _ _ => errorsIn_ok _
  | const value => exact errorsIn_ok _
  | enum values => exact errorsIn_ok _

theorem ofAnnotated_errors {node : Node} {shape : Validator.Compiled}
    (inner : ErrorsIn (CompileError.About P) shape) :
    ErrorsIn (CompileError.About P) (ofAnnotated node shape) := by
  unfold ofAnnotated
  split
  · intro e equal
    cases equal
    trivial
  · exact errorsIn_map inner

theorem ofNode_errors (known : String → Bool) (node : Node) :
    ErrorsIn (CompileError.About fun name => name ∈ node.occurrences ∧ known name = false)
      (Validator.ofNode known node) := by
  induction node using Node.children_induction with
  | step node ih =>
    rw [Validator.ofNode, Node.foldPaired_eq]
    refine ofAnnotated_errors ?_
    rw [Node.occurrences_eq]
    cases target : node.target? with
    | some name => exact validatorOfReference_errors fun missing => ⟨List.mem_singleton_self name, missing⟩
    | none =>
      refine validatorOfShape_errors ?_ ?_
      · exact fun name equal => absurd target (Node.target?_ref equal)
      · intro child member
        refine about_imp (ih child member) ?_
        exact fun name found => ⟨List.mem_flatMap.mpr ⟨child, member, found.1⟩, found.2⟩

theorem expanded_errors (known : String → Bool) (node : Node) :
    ErrorsIn (CompileError.About fun name => name ∈ node.directReferences ∧ known name = false)
      (Validator.expanded known node) := by
  refine ofAnnotated_errors (validatorOfShape_errors ?_ ?_)
  · exact fun name equal missing => ⟨Node.mem_directReferences.mpr (.inl equal), missing⟩
  · intro child member
    refine about_imp (ofNode_errors known child) ?_
    exact fun name found => ⟨Node.mem_directReferences.mpr (.inr ⟨child, member, found.1⟩), found.2⟩

end Schemas

section Operations

variable {index : ModelIndex} {settings : Settings} {op : Operation} {nodes : List Node}

-- A name that one of the schemas refers to and the index does not have.
def Lacks (index : ModelIndex) (nodes : List Node) (name : String) : Prop :=
  index.contains name = false ∧ ∃ node ∈ nodes, name ∈ node.directReferences

theorem occurrence_errors {node : Node} (inside : node ∈ nodes) (anonymous : node.name = none) :
    ErrorsIn (CompileError.About (Lacks index nodes)) (Occurrence.ofNode index node) := by
  refine errorsIn_bind ?_ ?_
  · refine about_imp (expanded_errors index.contains node) ?_
    exact fun name found => ⟨found.2, node, inside, found.1⟩
  · intro validator compiled e equal
    split at equal
    · rename_i missing found
      cases equal
      have absent : index.contains missing = false := by simpa using List.find?_some found
      refine ⟨absent, node, inside, ?_⟩
      rcases List.mem_append.mp (List.mem_of_find?_eq_some found) with inType | inValidator
      · exact Node.occurrences_subset anonymous
          (ofNode_namesIn node missing (TypeExpr.mem_references.mp inType))
      · exact compiled_expanded_namesIn index.contains node validator compiled missing
          (Validator.mem_references.mp inValidator)
    · cases equal

theorem parameters_errors {taken : List String} {parameters : List Parameter}
    (sources : ∀ p ∈ parameters, p.schema ∈ nodes ∧ p.schema.name = none) :
    ErrorsIn (CompileError.About (Lacks index nodes))
      (ParameterContract.ofParameters index op taken parameters) := by
  induction parameters generalizing taken with
  | nil => exact errorsIn_ok _
  | cons p rest ih =>
    obtain ⟨⟨inside, anonymous⟩, later⟩ := List.forall_mem_cons.mp sources
    refine errorsIn_bind (errorsIn_bind ?_ fun _ _ => ?_) fun _ _ =>
      errorsIn_bind (ih later) fun _ _ => errorsIn_ok _
    · intro e equal
      cases checked : ParameterContract.checkSupported op p with
      | ok done => rw [checked] at equal; cases equal
      | error reason => rw [checked] at equal; cases equal; trivial
    · exact errorsIn_bind (occurrence_errors inside anonymous) fun _ _ => errorsIn_ok _

theorem variantsOf_errors {taken : List String} {content : List (String × Node)}
    (sources : ∀ entry ∈ content, entry.2 ∈ nodes ∧ entry.2.name = none) :
    ErrorsIn (CompileError.About (Lacks index nodes)) (BodyContract.variantsOf index taken content) := by
  induction content generalizing taken with
  | nil => exact errorsIn_ok _
  | cons entry rest ih =>
    obtain ⟨⟨inside, anonymous⟩, later⟩ := List.forall_mem_cons.mp sources
    exact errorsIn_bind (occurrence_errors inside anonymous) fun _ _ =>
      errorsIn_bind (ih later) fun _ _ => errorsIn_ok _

theorem ofBody?_errors {source : Option RequestBody}
    (sources : ∀ body, source = some body → ∀ entry ∈ body.content, entry.2 ∈ nodes ∧ entry.2.name = none) :
    ErrorsIn (CompileError.About (Lacks index nodes)) (BodyContract.ofBody? index source) := by
  cases source with
  | none => exact errorsIn_ok _
  | some body =>
    have each := sources body rfl
    unfold BodyContract.ofBody?
    dsimp only
    split
    · exact errorsIn_ok _
    · refine errorsIn_map ?_
      unfold BodyContract.ofBody
      split
      · rename_i mediaType node single
        rw [single] at each
        obtain ⟨inside, anonymous⟩ := each _ (List.mem_singleton_self _)
        exact errorsIn_bind (occurrence_errors inside anonymous) fun _ _ => errorsIn_ok _
      · exact errorsIn_bind (variantsOf_errors each) fun _ _ => errorsIn_ok _

theorem bodyOf_errors {status : Status} {representation : MediaType.Representation} {node : Option Node}
    (sources : ∀ source, node = some source → source ∈ nodes ∧ source.name = none) :
    ErrorsIn (CompileError.About (Lacks index nodes))
      (ResponseVariant.bodyOf index status representation node) := by
  unfold ResponseVariant.bodyOf
  split
  · exact errorsIn_ok _
  · split
    · rename_i source
      obtain ⟨inside, anonymous⟩ := sources source rfl
      exact errorsIn_map (occurrence_errors inside anonymous)
    all_goals exact errorsIn_ok _

theorem ofResponse_errors {response : Response}
    (sources : ∀ node ∈ response.content.filterMap Prod.snd, node ∈ nodes ∧ node.name = none) :
    ErrorsIn (CompileError.About (Lacks index nodes)) (ResponseVariant.ofResponse index op response) := by
  unfold ResponseVariant.ofResponse
  split
  · intro e equal
    cases equal
    trivial
  · split
    · exact errorsIn_ok _
    · refine errorsIn_traverse fun entry inside => errorsIn_map (bodyOf_errors ?_)
      exact fun source present => sources source (List.mem_filterMap.mpr ⟨entry, inside, present⟩)

-- A contract fails for a name only if a schema of the operation refers to it and it is not in the index.
theorem ofOperation_errors (anonymous : ∀ node ∈ op.schemas, node.name = none) :
    ErrorsIn (CompileError.About (Lacks index op.schemas)) (Contract.ofOperation settings index op) := by
  refine errorsIn_bind (parameters_errors ?_) fun _ _ => errorsIn_bind (ofBody?_errors ?_) fun _ _ =>
    errorsIn_bind (errorsIn_bind (errorsIn_traverse ?_) fun _ _ => errorsIn_ok _) fun _ _ => errorsIn_ok _
  · exact fun p given => ⟨parameter_listed given, anonymous _ (parameter_listed given)⟩
  · exact fun body given entry inside =>
      ⟨content_listed given inside, anonymous _ (content_listed given inside)⟩
  · exact fun response given => ofResponse_errors fun node found =>
      ⟨answer_listed given found, anonymous _ (answer_listed given found)⟩

end Operations

namespace Description

section Search

variable {schemas : List (String × Node)} {remaining pending found : List String}

-- The search stops at a name that it was led to and that has no definition.
theorem reach_errors {P : String → Prop} (start : ∀ name ∈ pending, P name)
    (step : ∀ parent, P parent → ∀ name ∈ referencesOf schemas parent, P name) :
    ErrorsIn (fun e => ∃ name, e = .unresolved name ∧ P name ∧ Keyed.contains name schemas = false)
      (reach schemas remaining pending) := by
  fun_induction reach schemas remaining pending with
  | case1 remaining => exact errorsIn_ok _
  | case2 remaining name rest _ ih =>
    obtain ⟨first, later⟩ := List.forall_mem_cons.mp start
    exact errorsIn_map (ih (List.forall_mem_append.mpr ⟨step name first, later⟩))
  | case3 remaining name rest _ _ ih => exact ih (List.forall_mem_cons.mp start).2
  | case4 remaining name rest _ undefined =>
    intro e equal
    cases equal
    exact ⟨name, rfl, start name List.mem_cons_self, by simpa using undefined⟩

theorem reach_remaining (ran : reach schemas remaining pending = .ok found) :
    ∀ name ∈ found, name ∈ remaining := by
  fun_induction reach schemas remaining pending generalizing found with
  | case1 remaining =>
    cases ran
    exact List.forall_mem_nil _
  | case2 remaining name rest present ih =>
    obtain ⟨others, searched, rfl⟩ := map_ok ran
    exact List.forall_mem_cons.mpr ⟨present, fun other member => List.mem_of_mem_erase (ih searched other member)⟩
  | case3 remaining name rest _ _ ih => exact ih ran
  | case4 => cases ran

end Search

section Resolving

variable {description : Description} {index : ModelIndex}

-- A name that a definition refers to, or that an operation leads to.
def Needs (description : Description) (name : String) : Prop :=
  (∃ definition ∈ description.schemas, name ∈ definition.2.directReferences) ∨
    ∃ op ∈ description.operations, ∃ node ∈ op.schemas, Reaches description.schemas node name

-- A name that is needed and has no definition.
def Dangling (description : Description) (name : String) : Prop :=
  description.Needs name ∧ name ∉ Keyed.keys description.schemas

theorem dangling_of_undefined {name : String} (needed : description.Needs name)
    (undefined : Keyed.contains name description.schemas = false) : description.Dangling name := by
  refine ⟨needed, fun listed => ?_⟩
  rw [contains_iff_mem.mpr listed] at undefined
  cases undefined

theorem reachedBy_errors (schemas : List (String × Node)) (op : Operation) :
    ErrorsIn (fun e => ∃ name, e = .unresolved name ∧ (∃ node ∈ op.schemas, Reaches schemas node name) ∧
      Keyed.contains name schemas = false) (reachedBy schemas op) := by
  refine reach_errors ?_ ?_
  · intro name member
    obtain ⟨node, inside, refers⟩ := List.mem_flatMap.mp member
    exact ⟨node, inside, .direct refers⟩
  · rintro parent ⟨node, inside, reached⟩ name refers
    obtain ⟨definition, defined, refers⟩ := mem_referencesOf.mp refers
    exact ⟨node, inside, .through reached defined refers⟩

theorem usage_errors (description : Description) :
    ErrorsIn (fun e => ∃ name, e = .unresolved name ∧ description.Dangling name) description.usage := by
  refine errorsIn_traverse fun op listed => errorsIn_map ?_
  intro e failed
  obtain ⟨name, equal, reached, undefined⟩ := reachedBy_errors description.schemas op e failed
  exact ⟨name, equal, dangling_of_undefined (.inr ⟨op, listed, reached⟩) undefined⟩

theorem entriesFrom_errors {known : String → Bool} {uses : List (Scope × List String)} {taken : List String}
    {schemas : List (String × Node)} :
    ErrorsIn (fun e => ∃ name, e = .unresolved name ∧ known name = false ∧
      ∃ definition ∈ schemas, name ∈ definition.2.directReferences)
      (entriesFrom known uses taken schemas) := by
  induction schemas generalizing taken with
  | nil => exact errorsIn_ok _
  | cons definition rest ih =>
    obtain ⟨name, node⟩ := definition
    unfold entriesFrom
    split
    · rename_i missing found
      intro e equal
      cases equal
      have absent : known missing = false := by simpa using List.find?_some found
      exact ⟨missing, rfl, absent, _, List.mem_cons_self, List.mem_of_find?_eq_some found⟩
    · refine errorsIn_map ?_
      intro e failed
      obtain ⟨missing, equal, absent, definition, member, refers⟩ := ih e failed
      exact ⟨missing, equal, absent, definition, List.mem_cons_of_mem _ member, refers⟩

theorem resolve_errors (description : Description) :
    ErrorsIn (fun e => ∃ name, e = .unresolved name ∧ description.Dangling name) description.resolve := by
  refine errorsIn_bind (usage_errors description) fun uses _ =>
    errorsIn_bind ?_ fun _ _ => errorsIn_ok _
  intro e failed
  obtain ⟨name, equal, undefined, needed⟩ := entriesFrom_errors e failed
  exact ⟨name, equal, dangling_of_undefined (.inl needed) undefined⟩

-- Once resolving has succeeded, every name that is needed has a definition.
theorem resolve_defines (resolved : description.resolve = .ok index) {name : String}
    (needed : description.Needs name) : name ∈ Keyed.keys description.schemas := by
  obtain ⟨uses, used, related⟩ := resolve_registered resolved
  rcases needed with ⟨definition, member, refers⟩ | ⟨op, listed, reached⟩
  · obtain ⟨row, _, registered⟩ := related_left related member
    rw [← registered.dependencies] at refers
    exact contains_iff_mem.mp (registered.known name refers)
  · obtain ⟨use, _, made⟩ := related_left (traverse_ok used) listed
    obtain ⟨found, searched, _⟩ := map_ok made
    exact reach_remaining searched name ((reachedBy_exact searched).mpr reached)

theorem resolve_keys (resolved : description.resolve = .ok index) :
    Keyed.keys description.schemas = Keyed.keys index.entries := by
  obtain ⟨uses, _, related⟩ := resolve_registered resolved
  exact map_related related fun _ _ registered => registered.key

theorem resolve_fails_iff (description : Description) :
    (∃ name, description.resolve = .error (.unresolved name)) ↔ ∃ name, description.Dangling name := by
  constructor
  · rintro ⟨name, failed⟩
    obtain ⟨missing, _, dangling⟩ := resolve_errors description _ failed
    exact ⟨missing, dangling⟩
  · rintro ⟨name, needed, undefined⟩
    cases ran : description.resolve with
    | ok index => exact absurd (resolve_defines ran needed) undefined
    | error e =>
      obtain ⟨missing, rfl, _⟩ := resolve_errors description e ran
      exact ⟨missing, rfl⟩

end Resolving

end Description

namespace Api

section Afterwards

variable {settings : Settings} {description : Description} {resolved index : ModelIndex}

theorem contains_listed {name : String} :
    index.contains name = true ↔ name ∈ Keyed.keys index.entries := contains_iff_mem

theorem ofEntry_errors (found : description.resolve = .ok resolved) {row : String × ModelEntry}
    (listed : row ∈ resolved.entries) :
    ErrorsIn (CompileError.About fun _ => False) (Model.ofEntry resolved row.2) := by
  obtain ⟨uses, _, related⟩ := Description.resolve_registered found
  obtain ⟨definition, member, registered⟩ := related_right related listed
  refine errorsIn_map (about_imp (expanded_errors resolved.contains row.2.schema) ?_)
  rintro name ⟨refers, absent⟩
  rw [registered.schema] at refers
  have defined := Description.resolve_defines found (.inl ⟨definition, member, refers⟩)
  rw [Description.resolve_keys found] at defined
  rw [contains_listed.mpr defined] at absent
  cases absent

theorem compileModels_errors (found : description.resolve = .ok resolved) :
    ErrorsIn (CompileError.About fun _ => False) (compileModels resolved) :=
  errorsIn_map (errorsIn_traverse fun _ listed => errorsIn_map (ofEntry_errors found listed))

theorem contract_errors (found : description.resolve = .ok resolved)
    (same : Keyed.keys index.entries = Keyed.keys resolved.entries) {op : Operation}
    (given : op ∈ description.operations) (anonymous : ∀ node ∈ op.schemas, node.name = none) :
    ErrorsIn (CompileError.About fun _ => False) (Contract.ofOperation settings index op) := by
  refine about_imp (ofOperation_errors anonymous) ?_
  rintro name ⟨absent, node, inside, refers⟩
  have defined := Description.resolve_defines found (.inr ⟨op, given, node, inside, .direct refers⟩)
  rw [Description.resolve_keys found, ← same] at defined
  rw [contains_listed.mpr defined] at absent
  cases absent

theorem keys_models (compiled : compileModels resolved = .ok index) :
    Keyed.keys index.models = Keyed.keys resolved.entries :=
  (map_related (compileModels_ok compiled).2 fun _ _ same => same.1).symm

theorem keys_validators (compiled : compileModels resolved = .ok index) :
    Keyed.keys index.validators = Keyed.keys resolved.entries := by
  rw [← keys_models compiled, Keyed.keys, ModelIndex.validators, List.map_map]
  rfl

theorem validators_closed (found : description.resolve = .ok resolved)
    (compiled : compileModels resolved = .ok index) : Validator.Closed index.validators := by
  obtain ⟨uses, _, related⟩ := Description.resolve_registered found
  obtain ⟨_, models⟩ := compileModels_ok compiled
  refine List.forall_mem_map.mpr ?_
  intro model member name mentioned
  obtain ⟨row, listed, _, made⟩ := related_right models member
  obtain ⟨definition, inside, registered⟩ := related_right related listed
  obtain ⟨validator, expanded, equal⟩ := map_ok made
  rw [← equal] at mentioned
  have refers := compiled_expanded_namesIn resolved.contains row.2.schema validator expanded name mentioned
  rw [registered.schema] at refers
  rw [keys_validators compiled, ← Description.resolve_keys found]
  exact Description.resolve_defines found (.inl ⟨definition, inside, refers⟩)

theorem contract_listed (compiled : compileModels resolved = .ok index) {op : Operation} {contract : Contract}
    (made : Contract.ofOperation settings index op = .ok contract)
    (anonymous : ∀ node ∈ op.schemas, node.name = none) {v : Validator} (member : v ∈ contract.validators) :
    v.NamesIn (· ∈ Keyed.keys index.validators) := by
  intro name mentioned
  have referenced := (mentions_iff_mem_references made).mp (.inr ⟨v, member, mentioned⟩)
  obtain ⟨known, _⟩ := references_subset made anonymous name referenced
  rw [keys_validators compiled, ← (compileModels_ok compiled).1]
  exact contains_listed.mp known

-- Resolving a loaded description fails exactly if a name that it needs is not defined, and names such a
-- one. After it has succeeded, nothing fails for a name again: no model, no contract and no check.
theorem resolve_bars_dangling_names [Pattern.Engine] {document : Document} {description : Description}
    (loaded : document.lower = .ok description) :
    ((∃ name, description.resolve = .error (.unresolved name)) ↔ ∃ name, description.Dangling name) ∧
    (∀ e, description.resolve = .error e → ∃ name, e = .unresolved name ∧ description.Dangling name) ∧
    ∀ resolved, description.resolve = .ok resolved →
      (∀ settings name, compile settings description ≠ .error (.unresolved name)) ∧
      (∀ entry ∈ resolved.allEntries, ∀ name, Model.ofEntry resolved entry ≠ .error (.unresolved name)) ∧
      ∀ index, compileModels resolved = .ok index →
        (∀ name ∈ Keyed.keys description.schemas, ∃ model, index.model? name = some model) ∧
        (∀ name model, index.model? name = some model → ∀ value missing,
          Validator.check index.validators model.validator value ≠ .error (.unresolved missing)) ∧
        ∀ settings, ∀ op ∈ description.operations,
          (∀ name, Contract.ofOperation settings index op ≠ .error (.unresolved name)) ∧
          ∀ contract, Contract.ofOperation settings index op = .ok contract → ∀ v ∈ contract.validators,
            ∀ value missing, Validator.check index.validators v value ≠ .error (.unresolved missing) := by
  have anonymous := (Document.lower_wellFormed loaded).anonymous
  refine ⟨Description.resolve_fails_iff description, Description.resolve_errors description, ?_⟩
  intro resolved found
  refine ⟨?_, ?_, ?_⟩
  · intro settings name failed
    rcases bind_error failed with unresolved | ⟨again, ran, failed⟩
    · rw [found] at unresolved
      cases unresolved
    · cases found.symm.trans ran
      rcases bind_error failed with failed | ⟨index, compiled, failed⟩
      · exact compileModels_errors found _ failed
      · rcases bind_error failed with failed | ⟨contracts, _, failed⟩
        · obtain ⟨op, given, failed⟩ := traverse_error failed
          have same := congrArg Keyed.keys (compileModels_ok compiled).1
          exact contract_errors found same given (anonymous op given) _ failed
        · cases failed
  · intro entry listed name failed
    obtain ⟨row, member, rfl⟩ := List.mem_map.mp listed
    exact ofEntry_errors found member _ failed
  · intro index compiled
    have closed := validators_closed found compiled
    have same := (compileModels_ok compiled).1
    refine ⟨?_, ?_, ?_⟩
    · intro name defined
      rw [Description.resolve_keys found, ← keys_models compiled, ← contains_iff_mem] at defined
      exact Option.isSome_iff_exists.mp defined
    · intro name model recorded value missing
      have listed := List.mem_map_of_mem (f := fun row => (row.1, row.2.validator)) (lookup_mem recorded)
      exact Validator.check_finds_references closed (closed _ listed) value missing
    · intro settings op given
      refine ⟨fun name => contract_errors found (congrArg Keyed.keys same) given (anonymous op given) _, ?_⟩
      intro contract made v member value missing
      exact Validator.check_finds_references closed
        (contract_listed compiled made (anonymous op given) member) value missing

-- The owner of a pet is not defined.
def strayDocument : Document where
  paths := [("/pets", getting "listPets" "pets" [("200", answers "Pet")])]
  schemas := [("Pet", .object { properties := some [("owner", refersTo "Owner")] })]

-- A person may have a parent, who is a person again.
def familyDocument : Document where
  paths := [("/people", getting "listPeople" "people" [("200", answers "Person")])]
  schemas := [("Person", .object { properties := some [("parent", refersTo "Person")] })]

theorem stray_barred_family_passes :
    (∃ description, strayDocument.lower = .ok description ∧ description.Dangling "Owner" ∧
      ∃ name, description.resolve = .error (.unresolved name)) ∧
    ∃ description resolved index op contract, familyDocument.lower = .ok description ∧
      description.resolve = .ok resolved ∧ compileModels resolved = .ok index ∧
      op ∈ description.operations ∧ Contract.ofOperation {} index op = .ok contract ∧
      (∃ model, index.model? "Person" = some model) ∧
      ∀ v ∈ contract.validators, ∀ value missing,
        Validator.check index.validators v value ≠ .error (.unresolved missing) := by
  constructor
  · have evaluated : strayDocument.lower.toOption.map (fun description =>
        description.schemas.map fun definition => (definition.1, definition.2.directReferences))
          = some [("Pet", ["Owner"])] := by decide +kernel
    obtain ⟨description, lowered, listed⟩ := Option.map_eq_some_iff.mp evaluated
    have loaded := toOption_some lowered
    have dangling : description.Dangling "Owner" := by
      constructor
      · obtain ⟨definition, member, equal⟩ :=
          List.mem_map.mp (listed ▸ List.mem_singleton_self ("Pet", ["Owner"]))
        refine .inl ⟨definition, member, ?_⟩
        rw [(Prod.mk.inj equal).2]
        exact List.mem_singleton_self _
      · have keys := congrArg (List.map Prod.fst) listed
        rw [List.map_map] at keys
        show "Owner" ∉ description.schemas.map Prod.fst
        rw [show description.schemas.map Prod.fst = ["Pet"] from keys]
        decide
    exact ⟨description, loaded, dangling, (resolve_bars_dangling_names loaded).1.mpr ⟨"Owner", dangling⟩⟩
  · have evaluated : (familyDocument.lower.toOption.bind fun description =>
        description.resolve.toOption.bind fun resolved => (compileModels resolved).toOption.bind fun index =>
          description.operations.head?.bind fun op => (Contract.ofOperation {} index op).toOption.map
            fun _ => description.schemas.map Prod.fst) = some ["Person"] := by decide +kernel
    obtain ⟨description, lowered, rest⟩ := Option.bind_eq_some_iff.mp evaluated
    obtain ⟨resolved, ran, rest⟩ := Option.bind_eq_some_iff.mp rest
    obtain ⟨index, made, rest⟩ := Option.bind_eq_some_iff.mp rest
    obtain ⟨op, first, rest⟩ := Option.bind_eq_some_iff.mp rest
    obtain ⟨contract, built, keys⟩ := Option.map_eq_some_iff.mp rest
    have loaded := toOption_some lowered
    have found := toOption_some ran
    have compiled := toOption_some made
    have given := List.mem_of_mem_head? first
    obtain ⟨_, _, afterwards⟩ := (resolve_bars_dangling_names loaded).2.2 resolved found
    obtain ⟨models, _, operations⟩ := afterwards index compiled
    have built := toOption_some built
    refine ⟨description, resolved, index, op, contract, loaded, found, compiled, given, built, ?_,
      (operations {} op given).2 contract built⟩
    refine models "Person" ?_
    show "Person" ∈ description.schemas.map Prod.fst
    rw [keys]
    exact List.mem_singleton_self _

end Afterwards

end Api

end ApiContract
