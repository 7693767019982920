import ApiContract.Proofs.ImportOwners

namespace ApiContract

-- The modules as a graph. Tags need the default module only, so every way back leads through it, and
-- what it needs from tags is decided by the definitions that no operation reaches.

namespace Description

-- A definition that no operation reaches refers to one that only operations of this tag reach.
def Stray (description : Description) (tag name : String) : Prop :=
  users description name = {.tag tag} ∧ ∃ parent node, description.schemas.lookup parent = some node ∧
    users description parent = ∅ ∧ name ∈ node.directReferences

theorem users_subset {description : Description} {parent name : String} {node : Node}
    (defined : description.schemas.lookup parent = some node) (refers : name ∈ node.directReferences) :
    users description parent ⊆ users description name := by
  rintro scope ⟨op, given, first, source, inside, path⟩
  exact ⟨op, given, first, source, inside, .through path defined refers⟩

end Description

namespace Api

section Defaults

variable {settings : Settings} {document : Document} {description : Description}
  {uses : List (Scope × List String)} {api : Api} {m : OutputModule} {owner name : String}

theorem unreached_default (assembled : Assembled settings description uses api) {parent : String} {node : Node}
    (defined : description.schemas.lookup parent = some node) (free : Description.users description parent = ∅) :
    ∃ entry, api.index.find? parent = some entry ∧ entry.scope = .default ∧
      entry.dependencies = node.directReferences ∧
      ∀ name ∈ entry.dependencies, Keyed.contains name description.schemas = true := by
  obtain ⟨entry, found, registered⟩ := rel_some (Description.find?_registered assembled.entries parent) defined
  refine ⟨entry, found, ?_, registered.dependencies, registered.known⟩
  rw [registered.scope]
  refine Description.scopeFrom_default assembled.used fun tag only => ?_
  rw [free] at only
  exact Set.singleton_ne_empty _ only.symm

-- What a definition of the default scope refers to in a tag is reached through no other definition.
theorem parent_unreached (assembled : Assembled settings description uses api) {parent : String}
    {entry : ModelEntry} (found : api.index.find? parent = some entry) (shared : entry.scope = .default)
    (refers : name ∈ entry.dependencies) (only : Description.users description name = {.tag owner}) :
    Description.Stray description owner name := by
  obtain ⟨node, defined, registered⟩ := registered_of_find assembled found
  rw [registered.dependencies] at refers
  refine ⟨only, parent, node, defined, ?_, refers⟩
  have subset := Description.users_subset defined refers
  rw [only] at subset
  rcases Set.subset_singleton_iff_eq.mp subset with free | tagged
  · exact free
  · have assigned := (Description.scopeFrom_tag assembled.used parent owner).mpr tagged
    rw [← registered.scope, shared] at assigned
    cases assigned

theorem default_imports_iff (loaded : document.lower = .ok description)
    (compiled : compile settings description = .ok api) (member : m ∈ api.modules) (shared : m.scope = .default) :
    OutputModule.ImportedFrom m.imports owner name ↔ Description.Stray description owner name := by
  have wellFormed := Document.lower_wellFormed loaded
  obtain ⟨uses, assembled⟩ := compile_assembled compiled
  have coherent := assembled_coherent assembled wellFormed.schemaNames
  constructor
  · intro imported
    have owned := (imported_scope loaded compiled member imported).1
    obtain ⟨needed, _⟩ := imported_needed assembled member imported
    rw [shared] at owned needed
    have assigned := scope_of_name assembled (needed_defined assembled wellFormed needed).1
    rw [owned] at assigned
    have only := (Description.scopeFrom_tag assembled.used name owner).mp (Option.some.inj assigned).symm
    rcases (OutputModule.mem_needs coherent).mp needed with
      ⟨parent, entry, found, scope, refers⟩ | ⟨contract, listed, scope, refers⟩
    · exact parent_unreached assembled found scope refers only
    · -- An operation without tags would be a user of its own.
      obtain ⟨op, given, made⟩ := related_right assembled.contracts listed
      obtain ⟨_, node, inside, direct⟩ := references_subset made (wellFormed.anonymous op given) name refers
      obtain ⟨_, _, made⟩ := ofOperation_compiled made
      have used : Scope.default ∈ Description.users description name :=
        ⟨op, given, made.scope.symm.trans scope, node, inside, .direct direct⟩
      rw [only] at used
      cases used
  · rintro ⟨only, parent, node, defined, free, refers⟩
    obtain ⟨entry, found, scope, dependencies, known⟩ := unreached_default assembled defined free
    rw [← dependencies] at refers
    have assigned := scope_of_name assembled (known name refers)
    rw [(Description.scopeFrom_tag assembled.used name owner).mpr only] at assigned
    rw [assembled.modules m member, shared]
    refine OutputModule.importedFrom_importsOf.mpr ⟨?_, .tag owner, assigned, by simp, rfl⟩
    exact (OutputModule.mem_needs coherent).mpr (.inl ⟨parent, entry, found, scope, refers⟩)

theorem stray_default (compiled : compile settings description = .ok api)
    (stray : Description.Stray description owner name) : ∃ m ∈ api.modules, m.scope = .default := by
  obtain ⟨uses, assembled⟩ := compile_assembled compiled
  obtain ⟨_, parent, node, defined, free, _⟩ := stray
  obtain ⟨entry, found, scope, _⟩ := unreached_default assembled defined free
  exact (exists_module_iff compiled).mpr (owner_listed (ModelIndex.scopeOf?_some.mpr ⟨entry, found, scope⟩))

theorem imports_eq_nil_iff (compiled : compile settings description = .ok api) (member : m ∈ api.modules) :
    m.imports = [] ↔ ∀ owner name, ¬ OutputModule.ImportedFrom m.imports owner name := by
  constructor
  · rintro empty owner name ⟨names, listed, _⟩
    rw [empty] at listed
    cases listed
  · intro free
    rw [List.eq_nil_iff_forall_not_mem]
    rintro ⟨owner, names⟩ listed
    obtain ⟨name, inside⟩ := List.exists_mem_of_ne_nil _ (imports_named compiled member _ listed)
    exact free owner name ⟨names, listed, inside⟩

end Defaults

section Cycles

variable {settings : Settings} {document : Document} {description : Description} {api : Api}
  {m n : OutputModule}

-- One module imports a model of another.
def Depends (api : Api) (m n : OutputModule) : Prop :=
  m ∈ api.modules ∧ n ∈ api.modules ∧ ∃ name ∈ n.models, OutputModule.ImportedFrom m.imports n.moduleName name

theorem depends_scope (loaded : document.lower = .ok description)
    (compiled : compile settings description = .ok api) (depends : Depends api m n) :
    n.scope = m.scope.importedUnder n.moduleName := by
  obtain ⟨first, second, name, inside, imported⟩ := depends
  have owned := (mem_models loaded compiled second).mp inside
  rw [(imported_scope loaded compiled first imported).1] at owned
  exact (Option.some.inj owned).symm

-- A walk goes from tags to the default module and back.
theorem depends_alternate (loaded : document.lower = .ok description)
    (compiled : compile settings description = .ok api) (depends : Depends api m n) :
    m.scope = .default ↔ n.scope ≠ .default := by
  rw [depends_scope loaded compiled depends]
  cases m.scope <;> simp [Scope.importedUnder]

theorem default_unique (compiled : compile settings description = .ok api) (first : m ∈ api.modules)
    (second : n ∈ api.modules) (here : m.scope = .default) (there : n.scope = .default) : m = n :=
  module_unique compiled first second (here.trans there.symm)

-- The shortest walk that comes back to the default module has two steps.
theorem two_steps (loaded : document.lower = .ok description)
    (compiled : compile settings description = .ok api) (default : m.scope = .default)
    (walk : Relation.TransGen (Depends api) m m) : ∃ n, Depends api m n ∧ Depends api n m := by
  obtain ⟨n, first, rest⟩ := Relation.TransGen.head'_iff.mp walk
  have tagged := (depends_alternate loaded compiled first).mp default
  rcases Relation.ReflTransGen.cases_head rest with same | ⟨k, second, _⟩
  · rw [same] at tagged
    exact absurd default tagged
  · have back : k.scope = .default := by
      by_contra elsewhere
      exact tagged ((depends_alternate loaded compiled second).mpr elsewhere)
    obtain rfl := default_unique compiled first.1 second.2.1 default back
    exact ⟨n, first, second⟩

theorem cycle_iff (loaded : document.lower = .ok description)
    (compiled : compile settings description = .ok api) :
    (∃ m, Relation.TransGen (Depends api) m m) ↔
      ∃ shared m, shared.scope = .default ∧ Depends api shared m ∧ Depends api m shared := by
  constructor
  · rintro ⟨m, walk⟩
    by_cases default : m.scope = .default
    · obtain ⟨n, there, back⟩ := two_steps loaded compiled default walk
      exact ⟨m, n, default, there, back⟩
    · -- The walk of a tag passes through the default module, and can as well start there.
      obtain ⟨shared, first, rest⟩ := Relation.TransGen.head'_iff.mp walk
      have here : shared.scope = .default := by
        by_contra elsewhere
        exact default ((depends_alternate loaded compiled first).mpr elsewhere)
      obtain ⟨n, there, back⟩ := two_steps loaded compiled here (Relation.TransGen.tail' rest first)
      exact ⟨shared, n, here, there, back⟩
  · rintro ⟨shared, m, _, there, back⟩
    exact ⟨shared, .tail (.single there) back⟩

-- A tag that imports anything depends on the default module.
theorem tag_depends (loaded : document.lower = .ok description)
    (compiled : compile settings description = .ok api) (member : m ∈ api.modules) {tag : String}
    (tagged : m.scope = .tag tag) (shared : n ∈ api.modules) (default : n.scope = .default) :
    Depends api m n ↔ m.imports ≠ [] := by
  rw [Ne, imports_eq_nil_iff compiled member]
  push Not
  constructor
  · rintro ⟨_, _, name, _, imported⟩
    exact ⟨_, name, imported⟩
  · rintro ⟨owner, name, imported⟩
    obtain ⟨owned, renders⟩ := imported_scope loaded compiled member imported
    rw [tagged] at owned renders
    have spelt : n.moduleName = owner := by
      rw [module_named compiled shared, default]
      exact renders
    refine ⟨member, shared, name, (mem_models loaded compiled shared).mpr (default ▸ owned), ?_⟩
    rw [spelt]
    exact imported

theorem default_depends (loaded : document.lower = .ok description)
    (compiled : compile settings description = .ok api) (member : m ∈ api.modules) {tag : String}
    (tagged : m.scope = .tag tag) (shared : n ∈ api.modules) (default : n.scope = .default) :
    Depends api n m ↔ ∃ name, Description.Stray description tag name := by
  have spelt : m.moduleName = tag := by
    rw [module_named compiled member, tagged]
    rfl
  constructor
  · rintro ⟨_, _, name, _, imported⟩
    rw [spelt] at imported
    exact ⟨name, (default_imports_iff loaded compiled shared default).mp imported⟩
  · rintro ⟨name, stray⟩
    have imported := (default_imports_iff loaded compiled shared default).mpr stray
    have owned := (imported_scope loaded compiled shared imported).1
    rw [default] at owned
    refine ⟨shared, member, name, (mem_models loaded compiled member).mpr (tagged ▸ owned), ?_⟩
    rw [spelt]
    exact imported

-- The default module imports what a definition that no operation reaches takes from a tag, and nothing
-- else. It has no imports just if there is no such definition, and modules import in a circle just if
-- a tag that it imports from has imports itself.
theorem default_imports_are_strays {settings : Settings} {document : Document} {description : Description}
    {api : Api} (loaded : document.lower = .ok description) (compiled : compile settings description = .ok api) :
    (∀ m ∈ api.modules, m.scope = .default → ∀ owner name,
      OutputModule.ImportedFrom m.imports owner name ↔ description.Stray owner name) ∧
    ((∀ m ∈ api.modules, m.scope = .default → m.imports = []) ↔ ∀ tag name, ¬ description.Stray tag name) ∧
    ((∀ m, ¬ Relation.TransGen (Depends api) m m) ↔ ∀ tag name, description.Stray tag name →
      ∀ m ∈ api.modules, m.scope = .tag tag → m.imports = []) := by
  refine ⟨fun m member shared owner name => default_imports_iff loaded compiled member shared, ⟨?_, ?_⟩, ?_⟩
  · intro none tag name stray
    obtain ⟨m, member, shared⟩ := stray_default compiled stray
    refine (imports_eq_nil_iff compiled member).mp (none m member shared) tag name ?_
    exact (default_imports_iff loaded compiled member shared).mpr stray
  · intro free m member shared
    refine (imports_eq_nil_iff compiled member).mpr fun owner name imported => ?_
    exact free owner name ((default_imports_iff loaded compiled member shared).mp imported)
  · rw [← not_exists, cycle_iff loaded compiled]
    constructor
    · intro acyclic tag name stray m member tagged
      obtain ⟨shared, listed, default⟩ := stray_default compiled stray
      by_contra some
      refine acyclic ⟨shared, m, default, ?_, ?_⟩
      · exact (default_depends loaded compiled member tagged listed default).mpr ⟨name, stray⟩
      · exact (tag_depends loaded compiled member tagged listed default).mpr some
    · rintro none ⟨shared, m, default, there, back⟩
      have tagged := depends_scope loaded compiled there
      rw [default] at tagged
      obtain ⟨name, stray⟩ := (default_depends loaded compiled back.1 tagged back.2.1 default).mp there
      refine (tag_depends loaded compiled back.1 tagged back.2.1 default).mp back ?_
      exact none _ name stray m back.1 tagged

-- Operations reach all definitions.
theorem pets_acyclic : ∃ description api,
    petDocument.lower = .ok description ∧ compile {} description = .ok api ∧
      (∃ m ∈ api.modules, m.scope = .default) ∧ (∀ tag name, ¬ description.Stray tag name) ∧
      ∀ m, ¬ Relation.TransGen (Depends api) m m := by
  have evaluated : (petDocument.lower.toOption.bind fun description =>
      (compile {} description).toOption.map fun api => api.modules.map fun m => (m.scope, m.imports)) =
      some [(.default, []), (.tag "health", [("common", ["Failure"])]),
        (.tag "pets", [("common", ["Failure"])])] := by
    decide +kernel
  obtain ⟨description, lowered, rest⟩ := Option.bind_eq_some_iff.mp evaluated
  obtain ⟨api, made, rows⟩ := Option.map_eq_some_iff.mp rest
  have loaded := toOption_some lowered
  have compiled := toOption_some made
  obtain ⟨_, emptied, cycles⟩ := default_imports_are_strays loaded compiled
  obtain ⟨shared, listed, row⟩ := List.mem_map.mp (rows ▸ List.mem_cons_self)
  have free : ∀ tag name, ¬ description.Stray tag name := by
    refine emptied.mp fun m member default => ?_
    rw [default_unique compiled member listed default (congrArg Prod.fst row)]
    exact congrArg Prod.snd row
  refine ⟨description, api, loaded, compiled, ⟨shared, listed, congrArg Prod.fst row⟩, free, ?_⟩
  exact cycles.mpr fun tag name stray => absurd stray (free tag name)

-- No operation reaches the archive, which refers to pets.
def archiveDocument : Document where
  paths := petDocument.paths
  schemas := petDocument.schemas ++ [("Archive", .object { properties := some [("pet", refersTo "Pet")] })]

theorem archive_imports_pets : ∃ description api m,
    archiveDocument.lower = .ok description ∧ compile {} description = .ok api ∧ m ∈ api.modules ∧
      m.scope = .default ∧ m.imports = [("pets", ["Pet"])] ∧ Relation.TransGen (Depends api) m m := by
  have evaluated : (archiveDocument.lower.toOption.bind fun description =>
      (compile {} description).toOption.bind fun api => (api.module? .default).bind fun shared =>
        (api.module? (.tag "pets")).map fun m =>
          [shared, m].map fun part => (part.moduleName, part.models, part.imports)) =
      some [("common", ["Failure", "Archive"], [("pets", ["Pet"])]),
        ("pets", ["Pet"], [("common", ["Failure"])])] := by decide +kernel
  obtain ⟨description, lowered, rest⟩ := Option.bind_eq_some_iff.mp evaluated
  obtain ⟨api, made, rest⟩ := Option.bind_eq_some_iff.mp rest
  obtain ⟨shared, located, rest⟩ := Option.bind_eq_some_iff.mp rest
  obtain ⟨m, found, parts⟩ := Option.map_eq_some_iff.mp rest
  obtain ⟨⟨spelt, models, imports⟩, called, listed, needs⟩ :
      (shared.moduleName = "common" ∧ shared.models = ["Failure", "Archive"] ∧
        shared.imports = [("pets", ["Pet"])]) ∧
      m.moduleName = "pets" ∧ m.models = ["Pet"] ∧ m.imports = [("common", ["Failure"])] := by
    simpa using parts
  have first : shared ∈ api.modules := List.mem_of_find?_eq_some located
  have second : m ∈ api.modules := List.mem_of_find?_eq_some found
  have there : Depends api shared m := by
    refine ⟨first, second, "Pet", listed ▸ List.mem_singleton_self _, ["Pet"], ?_, List.mem_singleton_self _⟩
    rw [imports, called]
    exact List.mem_singleton_self _
  have back : Depends api m shared := by
    refine ⟨second, first, "Failure", models ▸ List.mem_cons_self, ["Failure"], ?_, List.mem_singleton_self _⟩
    rw [needs, spelt]
    exact List.mem_singleton_self _
  exact ⟨description, api, shared, toOption_some lowered, toOption_some made, first,
    by simpa using List.find?_some located, imports, .tail (.single there) back⟩

end Cycles

end Api

end ApiContract
