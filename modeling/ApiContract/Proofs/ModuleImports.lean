import ApiContract.Api.Basic
import ApiContract.Proofs.ContractReferences
import ApiContract.Proofs.LoadedDescriptions
import ApiContract.Proofs.ScopeAssignment
import Mathlib.Data.List.Nodup

namespace ApiContract

-- The modules of an API, read one by one: each holds the schemas of its scope, and imports from other
-- modules exactly what its schemas and operations need from there.

namespace ModelIndex

section Order

variable {index : ModelIndex} {scope : Scope}

-- What visiting schemas of one scope does: it forgets nothing, finishes whatever it newly meets, and
-- stays within the scope.
structure Visits (index : ModelIndex) (scope : Scope) (before after : Visit) : Prop where
  met : ∀ name ∈ before.met, name ∈ after.met
  done : ∀ name ∈ before.done, name ∈ after.done
  finished : ∀ name ∈ after.met, name ∈ before.met ∨ name ∈ after.done
  owned : ∀ name ∈ after.done, name ∈ before.done ∨ index.scopeOf? name = some scope

theorem Visits.refl (state : Visit) : Visits index scope state state :=
  ⟨fun _ member => member, fun _ member => member, fun _ member => .inl member, fun _ member => .inl member⟩

theorem Visits.trans {before middle after : Visit} (first : Visits index scope before middle)
    (second : Visits index scope middle after) : Visits index scope before after := by
  refine ⟨fun name member => second.met name (first.met name member),
    fun name member => second.done name (first.done name member), ?_, ?_⟩
  · intro name member
    rcases second.finished name member with old | finished
    · exact (first.finished name old).imp_right (second.done name)
    · exact .inr finished
  · intro name member
    rcases second.owned name member with old | owned
    · exact first.owned name old
    · exact .inr owned

theorem visits_all {visitOne : Visit → String → Visit} {names : List String}
    (step : ∀ state, ∀ name ∈ names, Visits index scope state (visitOne state name)) (state : Visit) :
    Visits index scope state (names.foldl visitOne state) := by
  induction names generalizing state with
  | nil => exact .refl state
  | cons name rest ih =>
    have first := step state name List.mem_cons_self
    exact first.trans (ih (fun state other member => step state other (List.mem_cons_of_mem _ member)) _)

theorem scopeOf?_some {name : String} :
    index.scopeOf? name = some scope ↔ ∃ entry, index.find? name = some entry ∧ entry.scope = scope :=
  Option.map_eq_some_iff

-- The schema itself is met before its dependencies are visited and done after them.
theorem visits_around {before after : Visit} {name : String} (owned : index.scopeOf? name = some scope)
    (inner : Visits index scope { before with met := name :: before.met } after) :
    Visits index scope before { after with done := after.done ++ [name] } := by
  refine ⟨?_, ?_, ?_, ?_⟩
  · exact fun other member => inner.met other (List.mem_cons_of_mem name member)
  · exact fun other member => List.mem_append_left _ (inner.done other member)
  · intro other member
    rcases inner.finished other member with old | finished
    · rcases List.mem_cons.mp old with rfl | old
      · exact .inr (List.mem_append_right _ (List.mem_singleton_self _))
      · exact .inl old
    · exact .inr (List.mem_append_left _ finished)
  · intro other member
    rcases List.mem_append.mp member with old | last
    · exact inner.owned other old
    · rw [List.mem_singleton.mp last]
      exact .inr owned

-- The depth that is left plays no part: a visit that is cut short has not met anything yet.
theorem visit_visits (depth : Nat) {name : String} (owned : index.scopeOf? name = some scope)
    (state : Visit) : Visits index scope state (visit index depth state name) := by
  induction depth generalizing name state with
  | zero => exact .refl state
  | succ depth ih =>
    unfold visit
    split
    · exact .refl state
    · obtain ⟨entry, found, equal⟩ := scopeOf?_some.mp owned
      rw [found]
      have step : ∀ state, ∀ other ∈ index.ownDependencies entry,
          Visits index scope state (visit index depth state other) := by
        intro state other member
        have same : index.scopeOf? other = some entry.scope := by
          simpa using (List.mem_filter.mp member).2
        exact ih (same.trans (congrArg some equal)) state
      exact visits_around owned (visits_all step _)

theorem visit_meets (depth : Nat) {name : String} (owned : index.scopeOf? name = some scope)
    (state : Visit) : name ∈ (visit index (depth + 1) state name).met := by
  unfold visit
  split
  · rename_i met
    exact List.contains_iff_mem.mp met
  · obtain ⟨entry, found, equal⟩ := scopeOf?_some.mp owned
    rw [found]
    have step : ∀ state, ∀ other ∈ index.ownDependencies entry,
        Visits index entry.scope state (visit index depth state other) := by
      intro state other member
      exact visit_visits depth (by simpa using (List.mem_filter.mp member).2) state
    exact (visits_all step _).met name List.mem_cons_self

theorem all_met (depth : Nat) {names : List String}
    (owned : ∀ name ∈ names, index.scopeOf? name = some scope) (state : Visit) :
    ∀ name ∈ names, name ∈ (names.foldl (visit index (depth + 1)) state).met := by
  induction names generalizing state with
  | nil => exact List.forall_mem_nil _
  | cons first rest ih =>
    obtain ⟨here, later⟩ := List.forall_mem_cons.mp owned
    refine List.forall_mem_cons.mpr ⟨?_, ih later _⟩
    have step : ∀ state, ∀ other ∈ rest, Visits index scope state (visit index (depth + 1) state other) :=
      fun state other member => visit_visits _ (later other member) state
    exact (visits_all step _).met first (visit_meets depth here state)

-- Every key finds its own entry, which bears the key as its name.
def Coherent (index : ModelIndex) : Prop :=
  ∀ row ∈ index.entries, index.find? row.1 = some row.2 ∧ row.2.schemaName = row.1

theorem find?_named (coherent : Coherent index) {name : String} {entry : ModelEntry}
    (found : index.find? name = some entry) : entry.schemaName = name :=
  (coherent _ (lookup_mem found)).2

theorem mem_inScope (coherent : Coherent index) {entry : ModelEntry} :
    entry ∈ index.inScope scope ↔ index.find? entry.schemaName = some entry ∧ entry.scope = scope := by
  unfold inScope allEntries
  rw [List.mem_filter, beq_iff_eq]
  refine and_congr ⟨?_, ?_⟩ Iff.rfl
  · intro listed
    obtain ⟨row, inside, rfl⟩ := List.mem_map.mp listed
    obtain ⟨found, named⟩ := coherent row inside
    rw [named]
    exact found
  · intro found
    exact List.mem_map.mpr ⟨_, lookup_mem found, rfl⟩

theorem mem_inScope_names (coherent : Coherent index) {name : String} :
    name ∈ (index.inScope scope).map ModelEntry.schemaName ↔ index.scopeOf? name = some scope := by
  constructor
  · intro member
    obtain ⟨entry, listed, rfl⟩ := List.mem_map.mp member
    exact scopeOf?_some.mpr ⟨entry, (mem_inScope coherent).mp listed⟩
  · intro owned
    obtain ⟨entry, found, equal⟩ := scopeOf?_some.mp owned
    have named := find?_named coherent found
    rw [← named] at found
    exact List.mem_map.mpr ⟨entry, (mem_inScope coherent).mpr ⟨found, equal⟩, named⟩

-- The order of dependencies leaves out no schema of the scope and takes in no other.
theorem mem_dependencyOrder (coherent : Coherent index) {name : String} :
    name ∈ index.dependencyOrder scope ↔ index.scopeOf? name = some scope := by
  have owned : ∀ name ∈ (index.inScope scope).map ModelEntry.schemaName, index.scopeOf? name = some scope :=
    fun _ => (mem_inScope_names coherent).mp
  have visited := visits_all (fun state name member =>
    visit_visits (index.entries.length + 1) (owned name member) state) {}
  unfold dependencyOrder
  rw [← List.foldl_map (f := ModelEntry.schemaName)]
  constructor
  · intro member
    rcases visited.owned name member with none | same
    · cases none
    · exact same
  · intro same
    have met := all_met index.entries.length owned {} name ((mem_inScope_names coherent).mpr same)
    rcases visited.finished name met with none | finished
    · cases none
    · exact finished

end Order

end ModelIndex

namespace OutputModule

section Imports

variable {settings : Settings} {index : ModelIndex} {scope : Scope}

-- The name stands among those that come from the module of that name.
def ImportedFrom (imports : List (String × List String)) (owner name : String) : Prop :=
  ∃ names, (owner, names) ∈ imports ∧ name ∈ names

theorem importedFrom_cons {first : String × List String} {rest : List (String × List String)}
    {owner name : String} :
    ImportedFrom (first :: rest) owner name ↔
      (owner = first.1 ∧ name ∈ first.2) ∨ ImportedFrom rest owner name := by
  constructor
  · rintro ⟨names, listed, member⟩
    rcases List.mem_cons.mp listed with rfl | later
    · exact .inl ⟨rfl, member⟩
    · exact .inr ⟨names, later, member⟩
  · rintro (⟨rfl, member⟩ | ⟨names, later, member⟩)
    · exact ⟨first.2, List.mem_cons_self, member⟩
    · exact ⟨names, List.mem_cons_of_mem first later, member⟩

theorem importedFrom_addImport {imports : List (String × List String)} {owner name other source : String} :
    ImportedFrom (addImport owner name imports) source other ↔
      ImportedFrom imports source other ∨ (source = owner ∧ other = name) := by
  induction imports with
  | nil => simp [addImport, ImportedFrom]
  | cons first rest ih =>
    obtain ⟨key, names⟩ := first
    unfold addImport
    split
    · rw [importedFrom_cons, List.mem_singleton, or_comm]
    · split
      · rename_i same
        subst same
        simp only [importedFrom_cons, List.mem_append, List.mem_singleton]
        tauto
      · simp only [importedFrom_cons, ih, or_assoc]

-- Taking in names one by one, each from the owner that it has if it has one.
theorem importedFrom_foldl {P : String → String → Prop}
    {take : List (String × List String) → String → List (String × List String)} {owner name : String}
    (step : ∀ imports next, ImportedFrom (take imports next) owner name ↔
      ImportedFrom imports owner name ∨ (name = next ∧ P owner name))
    (names : List String) (imports : List (String × List String)) :
    ImportedFrom (names.foldl take imports) owner name ↔
      ImportedFrom imports owner name ∨ (name ∈ names ∧ P owner name) := by
  induction names generalizing imports with
  | nil => simp
  | cons next rest ih => rw [List.foldl_cons, ih, step, List.mem_cons, or_assoc, ← or_and_right]

-- The owner of a name as a scope sees it from outside.
def ComesFrom (settings : Settings) (index : ModelIndex) (scope : Scope) (owner name : String) : Prop :=
  ∃ owning, index.scopeOf? name = some owning ∧ owning ≠ scope ∧
    owner = owning.moduleName settings.defaultScope

theorem importedFrom_importsOf {names : List String} {owner name : String} :
    ImportedFrom (importsOf settings index scope names) owner name ↔
      name ∈ names ∧ ComesFrom settings index scope owner name := by
  unfold importsOf
  rw [importedFrom_foldl (P := ComesFrom settings index scope), or_iff_right]
  · rintro ⟨_, listed, _⟩
    cases listed
  · intro imports next
    unfold ComesFrom
    split
    · rename_i unowned
      refine (or_iff_left ?_).symm
      rintro ⟨rfl, owning, owned, _⟩
      rw [unowned] at owned
      cases owned
    · rename_i owning owned
      split
      · rename_i same
        refine (or_iff_left ?_).symm
        rintro ⟨rfl, other, found, differs, _⟩
        rw [owned] at found
        cases found
        exact differs (beq_iff_eq.mp same)
      · rename_i differs
        rw [importedFrom_addImport]
        refine or_congr Iff.rfl ⟨?_, ?_⟩
        · rintro ⟨rfl, rfl⟩
          exact ⟨rfl, owning, owned, by simpa using differs, rfl⟩
        · rintro ⟨rfl, other, found, _, rfl⟩
          rw [owned] at found
          cases found
          exact ⟨rfl, rfl⟩

theorem mem_needs {contracts : List Contract} (coherent : index.Coherent) {name : String} :
    name ∈ needs index contracts scope ↔
      (∃ parent entry, index.find? parent = some entry ∧ entry.scope = scope ∧ name ∈ entry.dependencies) ∨
        ∃ contract ∈ contracts, contract.scope = scope ∧ name ∈ contract.references := by
  unfold needs
  rw [mem_ofStrings, List.mem_append, List.mem_flatMap, List.mem_flatMap]
  refine or_congr ⟨?_, ?_⟩ ?_
  · rintro ⟨entry, listed, refers⟩
    obtain ⟨found, equal⟩ := (ModelIndex.mem_inScope coherent).mp listed
    exact ⟨entry.schemaName, entry, found, equal, refers⟩
  · rintro ⟨parent, entry, found, equal, refers⟩
    rw [← ModelIndex.find?_named coherent found] at found
    exact ⟨entry, (ModelIndex.mem_inScope coherent).mpr ⟨found, equal⟩, refers⟩
  · simp only [List.mem_filter, beq_iff_eq, and_assoc]

end Imports

end OutputModule

namespace Api

section Assembly

-- What a compiled API is made of.
structure Assembled (settings : Settings) (description : Description) (uses : List (Scope × List String))
    (api : Api) : Prop where
  used : description.usage = .ok uses
  entries : List.Forall₂
    (Description.Registered (fun name => Keyed.contains name description.schemas) uses)
    description.schemas api.index.entries
  models : List.Forall₂ (fun entry model => entry.1 = model.1 ∧
    ∃ resolved, Model.ofEntry resolved entry.2 = .ok model.2) api.index.entries api.index.models
  contracts : List.Forall₂ (fun op contract => Contract.ofOperation settings api.index op = .ok contract)
    description.operations api.contracts
  modules : ∀ m ∈ api.modules, m = OutputModule.ofScope settings api.index api.contracts m.scope

theorem compileModels_ok {resolved index : ModelIndex} (compiled : compileModels resolved = .ok index) :
    index.entries = resolved.entries ∧
      List.Forall₂ (fun entry model => entry.1 = model.1 ∧ Model.ofEntry resolved entry.2 = .ok model.2)
        resolved.entries index.models := by
  obtain ⟨models, made, rfl⟩ := map_ok compiled
  refine ⟨rfl, List.Forall₂.imp ?_ (traverse_ok made)⟩
  intro entry model made
  obtain ⟨inner, compiled, rfl⟩ := map_ok made
  exact ⟨rfl, compiled⟩

theorem compile_assembled {settings : Settings} {description : Description} {api : Api}
    (compiled : compile settings description = .ok api) :
    ∃ uses, Assembled settings description uses api := by
  obtain ⟨resolved, found, next⟩ := bind_ok compiled
  obtain ⟨index, modelsMade, next⟩ := bind_ok next
  obtain ⟨contracts, contractsMade, next⟩ := bind_ok next
  cases next
  obtain ⟨uses, used, registered⟩ := Description.resolve_registered found
  obtain ⟨same, models⟩ := compileModels_ok modelsMade
  refine ⟨uses, used, ?_, ?_, traverse_ok contractsMade, ?_⟩
  · rw [same]
    exact registered
  · rw [same]
    exact models.imp fun entry model ⟨key, made⟩ => ⟨key, resolved, made⟩
  · intro m member
    obtain ⟨scope, _, rfl⟩ := List.mem_map.mp member
    rfl

variable {settings : Settings} {description : Description} {uses : List (Scope × List String)} {api : Api}

theorem assembled_coherent (assembled : Assembled settings description uses api)
    (distinct : (Keyed.keys description.schemas).Nodup) : api.index.Coherent := by
  have keys : Keyed.keys description.schemas = Keyed.keys api.index.entries :=
    map_related assembled.entries fun _ _ registered => registered.key
  rw [keys] at distinct
  intro row member
  obtain ⟨definition, _, registered⟩ := related_right assembled.entries member
  exact ⟨lookup_of_mem distinct member, registered.schemaName⟩

theorem contract?_of_mem (assembled : Assembled settings description uses api)
    (distinct : (description.operations.map Operation.name).Nodup) {contract : Contract}
    (member : contract ∈ api.contracts) : api.contract? contract.name = some contract := by
  have names : description.operations.map Operation.name = api.contracts.map Contract.name := by
    refine map_related assembled.contracts ?_
    intro op contract compiled
    obtain ⟨_, _, made⟩ := ofOperation_compiled compiled
    exact made.name.symm
  rw [names] at distinct
  unfold contract?
  cases found : api.contracts.find? fun other => other.name == contract.name with
  | none => simpa using List.find?_eq_none.mp found contract member
  | some other =>
    have named : other.name = contract.name := by simpa using List.find?_some found
    rw [List.inj_on_of_nodup_map distinct (List.mem_of_find?_eq_some found) member named]

theorem registered_of_find (assembled : Assembled settings description uses api) {name : String}
    {entry : ModelEntry} (found : api.index.find? name = some entry) :
    ∃ node, description.schemas.lookup name = some node ∧
      Description.Registered (fun name => Keyed.contains name description.schemas) uses
        (name, node) (name, entry) := by
  obtain ⟨node, defined, registered⟩ :=
    rel_some_right (Description.find?_registered assembled.entries name) found
  exact ⟨node, defined, registered⟩

theorem scope_of_name (assembled : Assembled settings description uses api) {name : String}
    (defined : Keyed.contains name description.schemas = true) :
    api.index.scopeOf? name = some (Description.scopeFrom uses name) :=
  Description.scopeOf?_eq assembled.entries (contains_iff_mem.mp defined)

theorem contains_of_find (assembled : Assembled settings description uses api) {name : String}
    (known : api.index.contains name = true) : Keyed.contains name description.schemas = true := by
  obtain ⟨entry, found⟩ := Option.isSome_iff_exists.mp known
  obtain ⟨node, defined, _⟩ := registered_of_find assembled found
  exact Option.isSome_iff_exists.mpr ⟨node, defined⟩

end Assembly

section Needs

variable {settings : Settings} {description : Description} {uses : List (Scope × List String)} {api : Api}

-- A need of a scope is a definition, and one that operations of the scope can reach if the scope is a
-- tag: the models of a tag are reached by its operations only, and pass this on to what they refer to.
theorem needed_defined (assembled : Assembled settings description uses api)
    (wellFormed : description.WellFormed) {scope : Scope} {name : String}
    (needed : name ∈ OutputModule.needs api.index api.contracts scope) :
    Keyed.contains name description.schemas = true ∧
      ∀ tag, scope = .tag tag → scope ∈ Description.users description name := by
  have coherent := assembled_coherent assembled wellFormed.schemaNames
  rcases (OutputModule.mem_needs coherent).mp needed with
    ⟨parent, entry, found, rfl, refers⟩ | ⟨contract, listed, rfl, refers⟩
  · obtain ⟨node, defined, registered⟩ := registered_of_find assembled found
    refine ⟨registered.known name refers, ?_⟩
    intro tag equal
    have assigned := registered.scope.symm.trans equal
    have only := (Description.scopeFrom_tag assembled.used parent tag).mp assigned
    rw [registered.dependencies] at refers
    rw [equal]
    have reached : Scope.tag tag ∈ Description.users description parent := only ▸ Set.mem_singleton _
    obtain ⟨op, given, first, source, inside, path⟩ := reached
    exact ⟨op, given, first, source, inside, .through path defined refers⟩
  · obtain ⟨op, given, compiled⟩ := related_right assembled.contracts listed
    obtain ⟨known, node, inside, direct⟩ := references_subset compiled (wellFormed.anonymous op given) name refers
    obtain ⟨_, _, made⟩ := ofOperation_compiled compiled
    refine ⟨contains_of_find assembled known, ?_⟩
    intro tag _
    exact ⟨op, given, made.scope.symm, node, inside, .direct direct⟩

-- What a tag needs and does not own is shared, so the default scope owns it.
theorem shared_default (assembled : Assembled settings description uses api) {name tag : String}
    (reached : .tag tag ∈ Description.users description name)
    (differs : Description.scopeFrom uses name ≠ .tag tag) : Description.scopeFrom uses name = .default := by
  refine Description.scopeFrom_default assembled.used ?_
  intro other only
  rw [only, Set.mem_singleton_iff] at reached
  rw [← reached] at only
  exact differs ((Description.scopeFrom_tag assembled.used name tag).mpr only)

end Needs

section Closure

variable {settings : Settings} {description : Description} {uses : List (Scope × List String)} {api : Api}
  {m : OutputModule} {name : String}

-- A module can use a name of its own, or one that it imports from the module of another scope.
def Available (settings : Settings) (index : ModelIndex) (m : OutputModule) (name : String) : Prop :=
  name ∈ m.models ∨ ∃ owning, index.scopeOf? name = some owning ∧ owning ≠ m.scope ∧
    OutputModule.ImportedFrom m.imports (owning.moduleName settings.defaultScope) name

theorem needed_available (assembled : Assembled settings description uses api)
    (wellFormed : description.WellFormed) (member : m ∈ api.modules)
    (needed : name ∈ OutputModule.needs api.index api.contracts m.scope) :
    Available settings api.index m name := by
  have made := assembled.modules m member
  have coherent := assembled_coherent assembled wellFormed.schemaNames
  have owned := scope_of_name assembled (needed_defined assembled wellFormed needed).1
  by_cases same : Description.scopeFrom uses name = m.scope
  · left
    rw [made]
    exact (ModelIndex.mem_dependencyOrder coherent).mpr (same ▸ owned)
  · right
    refine ⟨_, owned, same, ?_⟩
    rw [made]
    exact OutputModule.importedFrom_importsOf.mpr ⟨needed, _, owned, same, rfl⟩

theorem model_available (assembled : Assembled settings description uses api)
    (wellFormed : description.WellFormed) (member : m ∈ api.modules) {listed : String}
    (inside : listed ∈ m.models) :
    ∃ model, api.model? listed = some model ∧ ∀ name,
      model.declaration.Mentions name ∨ model.validator.Mentions name →
        Available settings api.index m name := by
  have coherent := assembled_coherent assembled wellFormed.schemaNames
  rw [assembled.modules m member] at inside
  obtain ⟨entry, found, equal⟩ :=
    ModelIndex.scopeOf?_some.mp ((ModelIndex.mem_dependencyOrder coherent).mp inside)
  obtain ⟨model, compiled, _, resolved, made⟩ :=
    rel_some (lookup_paired (fun _ _ same => same.1) assembled.models listed) found
  obtain ⟨validator, validated, rfl⟩ := map_ok made
  refine ⟨_, compiled, ?_⟩
  intro name mentioned
  obtain ⟨node, _, registered⟩ := registered_of_find assembled found
  have refers : name ∈ entry.dependencies := by
    rw [registered.dependencies, ← registered.schema]
    rcases mentioned with inType | inValidator
    · exact expanded_namesIn entry.schema name inType
    · exact compiled_expanded_namesIn _ entry.schema validator validated name inValidator
  exact needed_available assembled wellFormed member
    ((OutputModule.mem_needs coherent).mpr (.inl ⟨listed, entry, found, equal, refers⟩))

theorem mem_operations (assembled : Assembled settings description uses api) (member : m ∈ api.modules)
    {listed : String} :
    listed ∈ m.operations ↔ ∃ contract ∈ api.contracts, contract.scope = m.scope ∧ contract.name = listed := by
  have made : m.operations = (api.contracts.filter fun contract => contract.scope == m.scope).map Contract.name :=
    congrArg OutputModule.operations (assembled.modules m member)
  rw [made, List.mem_map]
  simp only [List.mem_filter, beq_iff_eq, and_assoc]

theorem contract_available (assembled : Assembled settings description uses api)
    (wellFormed : description.WellFormed) (member : m ∈ api.modules) {listed : String}
    (inside : listed ∈ m.operations) :
    ∃ contract, api.contract? listed = some contract ∧ ∀ name, contract.Mentions name →
      Available settings api.index m name := by
  have coherent := assembled_coherent assembled wellFormed.schemaNames
  obtain ⟨contract, given, equal, rfl⟩ := (mem_operations assembled member).mp inside
  obtain ⟨op, _, compiled⟩ := related_right assembled.contracts given
  refine ⟨contract, contract?_of_mem assembled wellFormed.operationNames given, ?_⟩
  intro name mentioned
  have refers := (mentions_iff_mem_references compiled).mp mentioned
  exact needed_available assembled wellFormed member
    ((OutputModule.mem_needs coherent).mpr (.inr ⟨contract, given, equal, refers⟩))

-- The model or the operation of a module that a name is imported for.
def UsedIn (api : Api) (m : OutputModule) (name : String) : Prop :=
  (∃ listed ∈ m.models, ∃ entry, api.index.find? listed = some entry ∧
      name ∈ entry.schema.directReferences) ∨
    ∃ listed ∈ m.operations, ∃ contract, api.contract? listed = some contract ∧ contract.Mentions name

theorem needed_used (assembled : Assembled settings description uses api)
    (wellFormed : description.WellFormed) (member : m ∈ api.modules)
    (needed : name ∈ OutputModule.needs api.index api.contracts m.scope) : UsedIn api m name := by
  have coherent := assembled_coherent assembled wellFormed.schemaNames
  rcases (OutputModule.mem_needs coherent).mp needed with
    ⟨parent, entry, found, equal, refers⟩ | ⟨contract, given, equal, refers⟩
  · obtain ⟨node, _, registered⟩ := registered_of_find assembled found
    rw [registered.dependencies, ← registered.schema] at refers
    refine .inl ⟨parent, ?_, entry, found, refers⟩
    rw [assembled.modules m member]
    exact (ModelIndex.mem_dependencyOrder coherent).mpr (ModelIndex.scopeOf?_some.mpr ⟨entry, found, equal⟩)
  · obtain ⟨op, _, compiled⟩ := related_right assembled.contracts given
    exact .inr ⟨contract.name, (mem_operations assembled member).mpr ⟨contract, given, equal, rfl⟩,
      contract, contract?_of_mem assembled wellFormed.operationNames given,
      (mentions_iff_mem_references compiled).mpr refers⟩

theorem imported_needed (assembled : Assembled settings description uses api) (member : m ∈ api.modules)
    {owner : String} (imported : OutputModule.ImportedFrom m.imports owner name) :
    name ∈ OutputModule.needs api.index api.contracts m.scope ∧
      OutputModule.ComesFrom settings api.index m.scope owner name := by
  rw [assembled.modules m member] at imported
  exact OutputModule.importedFrom_importsOf.mp imported

theorem imported_default (assembled : Assembled settings description uses api)
    (wellFormed : description.WellFormed) (member : m ∈ api.modules) {tag owner : String}
    (tagged : m.scope = .tag tag) (imported : OutputModule.ImportedFrom m.imports owner name) :
    api.index.scopeOf? name = some .default := by
  obtain ⟨needed, owning, owned, differs, _⟩ := imported_needed assembled member imported
  obtain ⟨defined, reached⟩ := needed_defined assembled wellFormed needed
  have assigned := scope_of_name assembled defined
  rw [assigned, Option.some.injEq] at owned
  rw [assigned, shared_default assembled (tagged ▸ reached tag tagged)]
  rw [owned, ← tagged]
  exact differs

-- Every name that the declarations, validators and contracts of a module use is at hand there, and
-- every import of a module is one that it uses and does not own. Tags share only what is the default
-- scope's.
theorem modules_import_what_they_use {settings : Settings} {document : Document}
    {description : Description} {api : Api} (loaded : document.lower = .ok description)
    (compiled : compile settings description = .ok api) {m : OutputModule} (member : m ∈ api.modules) :
    (∀ listed ∈ m.models, ∃ model, api.model? listed = some model ∧ ∀ name,
      model.declaration.Mentions name ∨ model.validator.Mentions name →
        Available settings api.index m name) ∧
    (∀ listed ∈ m.operations, ∃ contract, api.contract? listed = some contract ∧ ∀ name,
      contract.Mentions name → Available settings api.index m name) ∧
    (∀ owner name, OutputModule.ImportedFrom m.imports owner name →
      OutputModule.ComesFrom settings api.index m.scope owner name ∧ UsedIn api m name) ∧
    ∀ tag, m.scope = .tag tag → ∀ owner name, OutputModule.ImportedFrom m.imports owner name →
      api.index.scopeOf? name = some .default := by
  have wellFormed := Document.lower_wellFormed loaded
  obtain ⟨uses, assembled⟩ := compile_assembled compiled
  refine ⟨?_, ?_, ?_, ?_⟩
  · exact fun listed inside => model_available assembled wellFormed member inside
  · exact fun listed inside => contract_available assembled wellFormed member inside
  · intro owner name imported
    obtain ⟨needed, comes⟩ := imported_needed assembled member imported
    exact ⟨comes, needed_used assembled wellFormed member needed⟩
  · exact fun tag tagged owner name imported =>
      imported_default assembled wellFormed member tagged imported

def refersTo (name : String) : Schema := .object { ref := some ("#/components/schemas/" ++ name) }

def answers (name : String) : Document.Response := ⟨none, [("application/json", some (refersTo name))]⟩

def getting (id tag : String) (responses : List (String × Document.Response)) : Document.PathItem :=
  ⟨[(.get, ⟨some id, none, none, [tag], false, [], none, responses⟩)], []⟩

def petDocument : Document where
  paths :=
    [("/pets", getting "listPets" "pets" [("200", answers "Pet"), ("404", answers "Failure")]),
      ("/ping", getting "ping" "health" [("default", answers "Failure")])]
  schemas :=
    [("Pet", .object { properties := some [("friend", refersTo "Pet"), ("failure", refersTo "Failure")] }),
      ("Failure", .object { types := some (.single "string") })]

-- The module of a tag that owns one definition and shares another.
theorem pets_import_failure : ∃ description api m,
    petDocument.lower = .ok description ∧ compile {} description = .ok api ∧ m ∈ api.modules ∧
      m.scope = .tag "pets" ∧ m.imports = [("common", ["Failure"])] ∧
      (∃ model, api.model? "Pet" = some model ∧ ∀ name,
        model.declaration.Mentions name ∨ model.validator.Mentions name → Available {} api.index m name) ∧
      (∃ contract, api.contract? "listPets" = some contract ∧ ∀ name, contract.Mentions name →
        Available {} api.index m name) ∧
      UsedIn api m "Failure" ∧ api.index.scopeOf? "Failure" = some .default := by
  have evaluated : ((petDocument.lower.toOption.bind fun description =>
      (compile {} description).toOption.bind fun api => api.module? (.tag "pets")).map
        fun m => (m.models, m.operations, m.imports)) =
      some (["Pet"], ["listPets"], [("common", ["Failure"])]) := by decide +kernel
  obtain ⟨m, located, parts⟩ := Option.map_eq_some_iff.mp evaluated
  obtain ⟨description, lowered, located⟩ := Option.bind_eq_some_iff.mp located
  obtain ⟨api, made, located⟩ := Option.bind_eq_some_iff.mp located
  have loaded := toOption_some lowered
  have compiled := toOption_some made
  have member : m ∈ api.modules := List.mem_of_find?_eq_some located
  have tagged : m.scope = .tag "pets" := by simpa using List.find?_some located
  obtain ⟨models, operations, imports⟩ : m.models = ["Pet"] ∧ m.operations = ["listPets"] ∧
      m.imports = [("common", ["Failure"])] := by simpa using parts
  obtain ⟨inModels, inContracts, imported, shared⟩ := modules_import_what_they_use loaded compiled member
  have listed : OutputModule.ImportedFrom m.imports "common" "Failure" :=
    ⟨["Failure"], imports ▸ List.mem_singleton_self _, List.mem_singleton_self _⟩
  exact ⟨description, api, m, loaded, compiled, member, tagged, imports,
    inModels "Pet" (models ▸ List.mem_singleton_self _),
    inContracts "listPets" (operations ▸ List.mem_singleton_self _),
    (imported _ _ listed).2, shared "pets" tagged _ _ listed⟩

end Closure

end Api

end ApiContract
