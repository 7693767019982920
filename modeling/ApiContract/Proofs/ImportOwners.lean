import ApiContract.Proofs.ModuleOrder

namespace ApiContract

-- Imports are kept under the name of a module, while schemas belong to scopes. Here the scope is found
-- again from the name, and it is told when the name alone does not do.

-- What a module imports under a name belongs to this scope: tags import from the default scope only,
-- and the default scope from tags only.
def Scope.importedUnder (owner : String) : Scope → Scope
  | default => tag owner
  | tag _ => default

theorem Scope.importedUnder_ne (owner : String) (scope : Scope) : scope.importedUnder owner ≠ scope := by
  cases scope <;> simp [importedUnder]

namespace OutputModule

theorem addImport_named {imports : List (String × List String)} {owner name : String}
    (named : ∀ entry ∈ imports, entry.2 ≠ []) : ∀ entry ∈ addImport owner name imports, entry.2 ≠ [] := by
  induction imports with
  | nil => exact List.forall_mem_singleton.mpr (List.cons_ne_nil _ _)
  | cons first rest ih =>
    obtain ⟨own, later⟩ := List.forall_mem_cons.mp named
    obtain ⟨key, names⟩ := first
    unfold addImport
    split
    · exact List.forall_mem_cons.mpr ⟨List.cons_ne_nil _ _, named⟩
    · split
      · exact List.forall_mem_cons.mpr ⟨List.append_ne_nil_of_right_ne_nil _ (List.cons_ne_nil _ _), later⟩
      · exact List.forall_mem_cons.mpr ⟨own, ih later⟩

-- A module stands among the imports only for a name that comes from it.
theorem importsOf_named (settings : Settings) (index : ModelIndex) (scope : Scope) (names : List String) :
    ∀ entry ∈ importsOf settings index scope names, entry.2 ≠ [] := by
  unfold importsOf
  generalize start : ([] : List (String × List String)) = imports
  have named : ∀ entry ∈ imports, entry.2 ≠ [] := start ▸ List.forall_mem_nil _
  clear start
  induction names generalizing imports with
  | nil => exact named
  | cons name rest ih =>
    rw [List.foldl_cons]
    apply ih
    split
    · exact named
    · split
      · exact named
      · exact addImport_named named

end OutputModule

namespace Api

section Modules

variable {settings : Settings} {document : Document} {description : Description} {api : Api}
  {m n : OutputModule} {name owner : String}

theorem module_named (compiled : compile settings description = .ok api) (member : m ∈ api.modules) :
    m.moduleName = m.scope.moduleName settings.defaultScope := by
  obtain ⟨uses, assembled⟩ := compile_assembled compiled
  exact congrArg OutputModule.moduleName (assembled.modules m member)

theorem module_unique (compiled : compile settings description = .ok api) (first : m ∈ api.modules)
    (second : n ∈ api.modules) (same : m.scope = n.scope) : m = n := by
  obtain ⟨uses, assembled⟩ := compile_assembled compiled
  rw [assembled.modules m first, assembled.modules n second, same]

theorem mem_models (loaded : document.lower = .ok description)
    (compiled : compile settings description = .ok api) (member : m ∈ api.modules) :
    name ∈ m.models ↔ api.index.scopeOf? name = some m.scope := by
  obtain ⟨uses, assembled⟩ := compile_assembled compiled
  have coherent := assembled_coherent assembled (Document.lower_wellFormed loaded).schemaNames
  rw [assembled.modules m member]
  exact ModelIndex.mem_dependencyOrder coherent

theorem exists_module_iff (compiled : compile settings description = .ok api) {scope : Scope} :
    (∃ m ∈ api.modules, m.scope = scope) ↔ scope ∈ OutputModule.scopes api.index api.contracts := by
  rw [compile_modules compiled]
  constructor
  · rintro ⟨m, member, rfl⟩
    obtain ⟨scope, listed, rfl⟩ := List.mem_map.mp member
    exact listed
  · intro listed
    exact ⟨_, List.mem_map_of_mem listed, rfl⟩

-- A tag has a module just if it is the first tag of an operation.
theorem tag_module_iff (compiled : compile settings description = .ok api) {tag : String} :
    (∃ m ∈ api.modules, m.scope = .tag tag) ↔ ∃ op ∈ description.operations, op.primaryTag? = some tag := by
  obtain ⟨uses, assembled⟩ := compile_assembled compiled
  have first {op : Operation} (tagged : Scope.ofTag op.primaryTag? = .tag tag) : op.primaryTag? = some tag := by
    cases present : op.primaryTag? with
    | none => rw [present] at tagged; cases tagged
    | some other => rw [present] at tagged; cases tagged; rfl
  rw [exists_module_iff compiled, OutputModule.scopes, Scope.mem_sorted, List.mem_append, List.mem_map,
    List.mem_map]
  constructor
  · rintro (⟨entry, listed, tagged⟩ | ⟨contract, listed, tagged⟩)
    · obtain ⟨row, inside, rfl⟩ := List.mem_map.mp listed
      obtain ⟨definition, _, registered⟩ := related_right assembled.entries inside
      have only := (Description.scopeFrom_tag assembled.used row.1 tag).mp (registered.scope.symm.trans tagged)
      have used : Scope.tag tag ∈ Description.users description row.1 := only ▸ Set.mem_singleton _
      obtain ⟨op, given, owned, _⟩ := used
      exact ⟨op, given, first owned⟩
    · obtain ⟨op, given, made⟩ := related_right assembled.contracts listed
      obtain ⟨_, _, made⟩ := ofOperation_compiled made
      exact ⟨op, given, first (made.scope.symm.trans tagged)⟩
  · rintro ⟨op, given, tagged⟩
    obtain ⟨contract, listed, made⟩ := related_left assembled.contracts given
    obtain ⟨_, _, made⟩ := ofOperation_compiled made
    exact .inr ⟨contract, listed, by rw [made.scope, tagged]; rfl⟩

theorem imported_scope (loaded : document.lower = .ok description)
    (compiled : compile settings description = .ok api) (member : m ∈ api.modules)
    (imported : OutputModule.ImportedFrom m.imports owner name) :
    api.index.scopeOf? name = some (m.scope.importedUnder owner) ∧
      (m.scope.importedUnder owner).moduleName settings.defaultScope = owner := by
  have wellFormed := Document.lower_wellFormed loaded
  obtain ⟨uses, assembled⟩ := compile_assembled compiled
  obtain ⟨_, owning, owned, differs, rfl⟩ := imported_needed assembled member imported
  cases here : m.scope with
  | default =>
    cases owning with
    | default => exact absurd here.symm differs
    | tag tag => exact ⟨owned, rfl⟩
  | tag tag =>
    have shared := imported_default assembled wellFormed member here imported
    rw [shared] at owned
    cases owned
    exact ⟨shared, rfl⟩

theorem imports_named (compiled : compile settings description = .ok api) (member : m ∈ api.modules) :
    ∀ entry ∈ m.imports, entry.2 ≠ [] := by
  obtain ⟨uses, assembled⟩ := compile_assembled compiled
  rw [assembled.modules m member]
  exact OutputModule.importsOf_named _ _ _ _

-- The module that an entry of the imports is about.
theorem imported_source (loaded : document.lower = .ok description)
    (compiled : compile settings description = .ok api) (member : m ∈ api.modules)
    (imported : OutputModule.ImportedFrom m.imports owner name) :
    ∃ source ∈ api.modules, source.scope = m.scope.importedUnder owner ∧ source.moduleName = owner := by
  obtain ⟨owned, renders⟩ := imported_scope loaded compiled member imported
  obtain ⟨source, listed, scope⟩ := (exists_module_iff compiled).mpr (owner_listed owned)
  exact ⟨source, listed, scope, by rw [module_named compiled listed, scope, renders]⟩

-- Two scopes have one name only if they are the default scope and a tag that is spelt like it.
theorem moduleName_eq_iff {scope other : Scope} {shared : String} (differ : other ≠ scope) :
    other.moduleName shared = scope.moduleName shared ↔
      (scope = .default ∧ other = .tag shared) ∨ (scope = .tag shared ∧ other = .default) := by
  cases scope with
  | default =>
    cases other with
    | default => exact absurd rfl differ
    | tag name => simp [Scope.moduleName]
  | tag name =>
    cases other with
    | default => simp [Scope.moduleName, eq_comm]
    | tag other =>
      have apart : other ≠ name := fun equal => differ (congrArg Scope.tag equal)
      simp [Scope.moduleName, apart]

theorem namesake_iff (compiled : compile settings description = .ok api) (listed : m ∈ api.modules) :
    (∃ other ∈ api.modules, other.moduleName = m.moduleName ∧ other ≠ m) ↔
      m.moduleName = settings.defaultScope ∧ (∃ shared ∈ api.modules, shared.scope = .default) ∧
        ∃ op ∈ description.operations, op.primaryTag? = some settings.defaultScope := by
  rw [← tag_module_iff compiled]
  constructor
  · rintro ⟨other, also, same, differ⟩
    have apart : other.scope ≠ m.scope := fun equal => differ (module_unique compiled also listed equal)
    rw [module_named compiled also, module_named compiled listed, moduleName_eq_iff apart] at same
    rw [module_named compiled listed]
    rcases same with ⟨here, there⟩ | ⟨here, there⟩
    · exact ⟨by rw [here]; rfl, ⟨m, listed, here⟩, other, also, there⟩
    · exact ⟨by rw [here]; rfl, ⟨other, also, there⟩, m, listed, here⟩
  · rintro ⟨spelt, ⟨shared, first, default⟩, tagged, second, tag⟩
    rw [spelt]
    by_cases same : shared = m
    · refine ⟨tagged, second, by rw [module_named compiled second, tag]; rfl, ?_⟩
      rintro rfl
      rw [same, tag] at default
      cases default
    · exact ⟨shared, first, by rw [module_named compiled first, default]; rfl, same⟩

-- Every entry of the imports is about one other module, which has the name of the entry and lists what
-- is imported. It is the only module of that name unless an operation is tagged with the name of the
-- default scope: the default module and the module of that tag then have one name, and import from
-- each other under it.
theorem imports_identify_owner {settings : Settings} {document : Document} {description : Description}
    {api : Api} {m : OutputModule} {owner : String} {names : List String}
    (loaded : document.lower = .ok description) (compiled : compile settings description = .ok api)
    (member : m ∈ api.modules) (entry : (owner, names) ∈ m.imports) :
    names ≠ [] ∧ ∃ source ∈ api.modules, source ≠ m ∧ source.moduleName = owner ∧
      (∀ name ∈ names, name ∈ source.models) ∧
      (∀ other ∈ api.modules, ∀ name ∈ names, name ∈ other.models → other = source) ∧
      ((∀ other ∈ api.modules, other.moduleName = owner → other = source) ↔
        ¬ (owner = settings.defaultScope ∧ ∃ op ∈ description.operations, op.primaryTag? = some owner)) := by
  have named := imports_named compiled member _ entry
  obtain ⟨first, inside⟩ := List.exists_mem_of_ne_nil _ named
  have imported {name : String} (inside : name ∈ names) : OutputModule.ImportedFrom m.imports owner name :=
    ⟨names, entry, inside⟩
  obtain ⟨source, listed, scope, spelt⟩ := imported_source loaded compiled member (imported inside)
  have owned {name : String} (inside : name ∈ names) : api.index.scopeOf? name = some source.scope := by
    rw [scope]
    exact (imported_scope loaded compiled member (imported inside)).1
  refine ⟨named, source, listed, ?_, spelt, ?_, ?_, ?_⟩
  · rintro rfl
    exact Scope.importedUnder_ne owner _ scope.symm
  · exact fun name inside => (mem_models loaded compiled listed).mpr (owned inside)
  · intro other also name inside there
    rw [mem_models loaded compiled also, owned inside] at there
    exact module_unique compiled also listed (Option.some.inj there).symm
  · have shared : ∃ shared ∈ api.modules, shared.scope = .default := by
      cases here : m.scope with
      | default => exact ⟨m, member, here⟩
      | tag tag => exact ⟨source, listed, by rw [scope, here]; rfl⟩
    have clash := namesake_iff compiled listed
    rw [spelt, and_iff_right shared] at clash
    rw [← not_iff_not, not_not]
    push Not
    refine clash.trans (and_congr_right fun same => ?_)
    rw [same]

-- Pets are tagged with the name that the default scope has anyway.
def commonDocument : Document where
  paths :=
    [("/pets", getting "listPets" "common" [("200", answers "Pet"), ("404", answers "Failure")]),
      ("/ping", getting "ping" "health" [("default", answers "Failure")])]
  schemas :=
    [("Pet", .object { types := some (.single "object") }),
      ("Failure", .object { types := some (.single "string") })]

theorem common_imports_common : ∃ description api m,
    commonDocument.lower = .ok description ∧ compile {} description = .ok api ∧ m ∈ api.modules ∧
      m.moduleName = "common" ∧ m.imports = [("common", ["Failure"])] ∧
      ∃ source ∈ api.modules, source ≠ m ∧ source.moduleName = "common" ∧ "Failure" ∈ source.models := by
  have evaluated : (commonDocument.lower.toOption.bind fun description =>
      (compile {} description).toOption.bind fun api => (api.module? (.tag "common")).map fun m =>
        (m.moduleName, m.imports)) = some ("common", [("common", ["Failure"])]) := by decide +kernel
  obtain ⟨description, lowered, rest⟩ := Option.bind_eq_some_iff.mp evaluated
  obtain ⟨api, made, rest⟩ := Option.bind_eq_some_iff.mp rest
  obtain ⟨m, located, parts⟩ := Option.map_eq_some_iff.mp rest
  obtain ⟨spelt, imports⟩ := Prod.mk.inj parts
  have loaded := toOption_some lowered
  have compiled := toOption_some made
  have member : m ∈ api.modules := List.mem_of_find?_eq_some located
  obtain ⟨_, source, listed, differs, same, models, _⟩ :=
    imports_identify_owner loaded compiled member (imports ▸ List.mem_singleton_self _)
  exact ⟨description, api, m, loaded, compiled, member, spelt, imports, source, listed, differs, same,
    models "Failure" (List.mem_singleton_self _)⟩

end Modules

end Api

end ApiContract
