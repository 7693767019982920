import ApiContract.Proofs.ModuleImports
import Mathlib.Data.List.Nodup
import Mathlib.Data.List.Perm.Subperm
import Mathlib.Logic.Relation

namespace ApiContract

-- The modules of an API, taken together: every schema and every operation stands in one of them, and
-- in each module a schema comes after the schemas that it needs there, unless they need it in turn.

namespace ModelIndex

section Finishing

variable {index : ModelIndex} {scope : Scope}

-- A schema refers to another one that its own scope owns.
def DependsOn (index : ModelIndex) (later earlier : String) : Prop :=
  ∃ entry, index.find? later = some entry ∧ earlier ∈ entry.dependencies ∧
    index.scopeOf? earlier = some entry.scope

-- Such references, followed any number of times.
def LeadsTo (index : ModelIndex) : String → String → Prop := Relation.ReflTransGen (DependsOn index)

theorem mem_ownDependencies {name other : String} {entry : ModelEntry}
    (found : index.find? name = some entry) :
    other ∈ index.ownDependencies entry ↔ DependsOn index name other := by
  unfold ownDependencies
  rw [List.mem_filter, beq_iff_eq]
  constructor
  · rintro ⟨refers, same⟩
    exact ⟨entry, found, refers, same⟩
  · rintro ⟨other, again, refers, same⟩
    rw [found] at again
    cases again
    exact ⟨refers, same⟩

-- What holds of the schemas that have been met and of those that are done, whenever a visit ends.
structure Ordered (index : ModelIndex) (state : Visit) : Prop where
  known : ∀ name ∈ state.met, name ∈ Keyed.keys index.entries
  metOnce : state.met.Nodup
  doneMet : ∀ name ∈ state.done, name ∈ state.met
  doneOnce : state.done.Nodup
  ordered : ∀ later ∈ state.done, ∀ earlier, DependsOn index later earlier →
    ¬ LeadsTo index earlier later → [earlier, later].Sublist state.done

theorem ordered_start : Ordered index {} :=
  ⟨List.forall_mem_nil _, List.nodup_nil, List.forall_mem_nil _, List.nodup_nil, List.forall_mem_nil _⟩

theorem Ordered.met_length {state : Visit} (ordered : Ordered index state) :
    state.met.length ≤ index.entries.length := by
  have fits := (List.subperm_of_subset ordered.metOnce ordered.known).length_le
  rwa [Keyed.keys, List.length_map] at fits

theorem Ordered.meet {state : Visit} (ordered : Ordered index state) {name : String} {entry : ModelEntry}
    (found : index.find? name = some entry) (new : name ∉ state.met) :
    Ordered index { state with met := name :: state.met } := by
  refine ⟨?_, List.nodup_cons.mpr ⟨new, ordered.metOnce⟩, ?_, ordered.doneOnce, ordered.ordered⟩
  · exact List.forall_mem_cons.mpr ⟨List.mem_map_of_mem (lookup_mem found), ordered.known⟩
  · exact fun other member => List.mem_cons_of_mem name (ordered.doneMet other member)

-- A schema that has been met and is not done: its visit is still going on.
def Open (state : Visit) (name : String) : Prop := name ∈ state.met ∧ name ∉ state.done

-- Later visits put what they finish behind what is done, and finish nothing that was met before them.
structure Continues (before after : Visit) : Prop where
  done : before.done.Sublist after.done
  fresh : ∀ name ∈ after.done, name ∈ before.done ∨ name ∉ before.met

theorem Continues.refl (state : Visit) : Continues state state :=
  ⟨List.Sublist.refl _, fun _ member => .inl member⟩

theorem Continues.trans {before middle after : Visit} (first : Continues before middle)
    (second : Continues middle after) (met : ∀ name ∈ before.met, name ∈ middle.met) :
    Continues before after := by
  refine ⟨first.done.trans second.done, ?_⟩
  intro name member
  rcases second.fresh name member with old | new
  · exact first.fresh name old
  · exact .inr fun inside => new (met name inside)

-- Visits in a row leave the same schemas open throughout, so each of them starts under the same
-- condition as the first.
theorem visits_ordered {visitOne : Visit → String → Visit} {names : List String} (size : Nat)
    (step : ∀ state, ∀ name ∈ names, Ordered index state → size ≤ state.met.length →
      (∀ other, Open state other → LeadsTo index other name) →
        Ordered index (visitOne state name) ∧ Continues state (visitOne state name))
    (visits : ∀ state, ∀ name ∈ names, Visits index scope state (visitOne state name))
    {state : Visit} (ordered : Ordered index state) (enough : size ≤ state.met.length)
    (leads : ∀ name ∈ names, ∀ other, Open state other → LeadsTo index other name) :
    Ordered index (names.foldl visitOne state) ∧ Continues state (names.foldl visitOne state) := by
  induction names generalizing state with
  | nil => exact ⟨ordered, .refl state⟩
  | cons name rest ih =>
    obtain ⟨firstStep, laterStep⟩ := forall_and.mp fun state => List.forall_mem_cons.mp (step state)
    obtain ⟨firstVisits, laterVisits⟩ := forall_and.mp fun state => List.forall_mem_cons.mp (visits state)
    obtain ⟨firstLeads, laterLeads⟩ := List.forall_mem_cons.mp leads
    obtain ⟨middle, first⟩ := firstStep state ordered enough firstLeads
    have visited := firstVisits state
    have grown := (List.subperm_of_subset ordered.metOnce visited.met).length_le
    have stillOpen {other : String} (isOpen : Open (visitOne state name) other) : Open state other := by
      rcases visited.finished other isOpen.1 with met | done
      · exact ⟨met, fun done => isOpen.2 (visited.done other done)⟩
      · exact absurd done isOpen.2
    obtain ⟨last, second⟩ := ih laterStep laterVisits middle (Nat.le_trans enough grown)
      fun next member other isOpen => laterLeads next member other (stillOpen isOpen)
    exact ⟨last, first.trans second visited.met⟩

-- A schema is done after all that it depends on, but for what was open already and so leads to it.
theorem ordered_finish (start : Visit) {final : Visit} {name : String} {entry : ModelEntry}
    (found : index.find? name = some entry) (met : name ∈ final.met) (undone : name ∉ final.done)
    (ordered : Ordered index final)
    (finished : ∀ other ∈ index.ownDependencies entry, other ∈ start.met ∨ other ∈ final.done)
    (leads : ∀ other ∈ start.met, other ∈ final.done ∨ LeadsTo index other name) :
    Ordered index { final with done := final.done ++ [name] } := by
  refine ⟨ordered.known, ordered.metOnce, ?_, ?_, ?_⟩
  · intro other member
    rcases List.mem_append.mp member with old | last
    · exact ordered.doneMet other old
    · rwa [List.mem_singleton.mp last]
  · refine List.nodup_append.mpr ⟨ordered.doneOnce, List.nodup_singleton _, ?_⟩
    rintro other member last single rfl
    rw [List.mem_singleton.mp single] at member
    exact undone member
  · intro later member earlier depends apart
    rcases List.mem_append.mp member with old | last
    · exact (ordered.ordered later old earlier depends apart).trans (List.sublist_append_left _ _)
    · have same := List.mem_singleton.mp last
      subst same
      have before : earlier ∈ final.done := by
        rcases finished earlier ((mem_ownDependencies found).mpr depends) with early | done
        · exact (leads earlier early).resolve_right apart
        · exact done
      exact (List.singleton_sublist.mpr before).append (List.Sublist.refl [later])

-- No more schemas can be met than there are, so the depth never runs out.
theorem visit_ordered (depth : Nat) {name : String} {state : Visit}
    (owned : index.scopeOf? name = some scope) (ordered : Ordered index state)
    (enough : index.entries.length + 1 ≤ depth + state.met.length)
    (leads : ∀ other, Open state other → LeadsTo index other name) :
    Ordered index (visit index depth state name) ∧ Continues state (visit index depth state name) := by
  induction depth generalizing name state with
  | zero =>
    have fits := ordered.met_length
    omega
  | succ depth ih =>
    unfold visit
    split
    · exact ⟨ordered, .refl state⟩
    · rename_i notMet
      have new : name ∉ state.met := fun met => notMet (List.contains_iff_mem.mpr met)
      obtain ⟨entry, found, equal⟩ := scopeOf?_some.mp owned
      rw [found]
      have met := ordered.meet found new
      have ownedEach : ∀ other ∈ index.ownDependencies entry, index.scopeOf? other = some scope := by
        intro other member
        rw [← equal]
        simpa using (List.mem_filter.mp member).2
      have visits : ∀ state, ∀ other ∈ index.ownDependencies entry,
          Visits index scope state (visit index depth state other) :=
        fun state other member => visit_visits depth (ownedEach other member) state
      have toName : ∀ other ∈ name :: state.met, other ∈ state.done ∨ LeadsTo index other name := by
        intro other member
        rcases List.mem_cons.mp member with rfl | old
        · exact .inr .refl
        · by_cases done : other ∈ state.done
          · exact .inl done
          · exact .inr (leads other ⟨old, done⟩)
      obtain ⟨final, continues⟩ := visits_ordered (state.met.length + 1)
        (fun state other member ordered many leads => ih (ownedEach other member) ordered (by omega) leads)
        visits met (Nat.le_refl _) fun dependency member other isOpen =>
          ((toName other isOpen.1).resolve_left isOpen.2).tail ((mem_ownDependencies found).mp member)
      have visited := visits_all visits { state with met := name :: state.met }
      have undone := fun done => (continues.fresh name done).elim
        (fun old => new (ordered.doneMet name old)) fun fresh => fresh List.mem_cons_self
      refine ⟨ordered_finish { state with met := name :: state.met } found
        (visited.met name List.mem_cons_self) undone final ?_ ?_, ?_, ?_⟩
      · intro other member
        have fits := met.met_length
        obtain ⟨less, rfl⟩ : ∃ less, depth = less + 1 :=
          ⟨depth - 1, by simp only [List.length_cons] at fits; omega⟩
        exact visited.finished other (all_met less ownedEach _ other member)
      · exact fun other member => (toName other member).imp_left (visited.done other)
      · exact continues.done.trans (List.sublist_append_left _ _)
      · intro other member
        rcases List.mem_append.mp member with old | last
        · exact (continues.fresh other old).imp_right fun fresh met => fresh (List.mem_cons_of_mem name met)
        · rw [List.mem_singleton.mp last]
          exact .inr new

theorem dependencyOrder_ordered (coherent : Coherent index) (scope : Scope) :
    (index.dependencyOrder scope).Nodup ∧
      ∀ later ∈ index.dependencyOrder scope, ∀ earlier, DependsOn index later earlier →
        ¬ LeadsTo index earlier later → [earlier, later].Sublist (index.dependencyOrder scope) := by
  have owned : ∀ name ∈ (index.inScope scope).map ModelEntry.schemaName, index.scopeOf? name = some scope :=
    fun _ => (mem_inScope_names coherent).mp
  unfold dependencyOrder
  rw [← List.foldl_map (f := ModelEntry.schemaName)]
  obtain ⟨ordered, _⟩ := visits_ordered 0
    (fun state name member ordered _ leads =>
      visit_ordered (index.entries.length + 1) (owned name member) ordered (by omega) leads)
    (fun state name member => visit_visits _ (owned name member) state) ordered_start (Nat.zero_le _)
    (fun _ _ other isOpen => nomatch isOpen.1)
  exact ⟨ordered.doneOnce, ordered.ordered⟩

end Finishing

end ModelIndex

namespace Scope

theorem before_total (a b : Scope) (first : before a b = false) (second : before b a = false) : a = b := by
  cases a with
  | default =>
    cases b with
    | default => rfl
    | tag name => cases first
  | tag name =>
    cases b with
    | default => cases second
    | tag other => exact congrArg tag (String.le_antisymm (of_decide_eq_false second) (of_decide_eq_false first))

theorem before_trans (a b c : Scope) (first : before a b = true) (second : before b c = true) :
    before a c = true := by
  cases a with
  | default =>
    cases b with
    | default => cases first
    | tag name =>
      cases c with
      | default => cases second
      | tag other => rfl
  | tag name =>
    cases b with
    | default => cases first
    | tag middle =>
      cases c with
      | default => cases second
      | tag other =>
        exact decide_eq_true (String.lt_trans (of_decide_eq_true first) (of_decide_eq_true second))

theorem before_irrefl (a : Scope) : before a a = false := by
  cases a with
  | default => rfl
  | tag name => exact decide_eq_false (String.lt_irrefl name)

theorem mem_sorted {scope : Scope} {scopes : List Scope} : scope ∈ sorted scopes ↔ scope ∈ scopes :=
  mem_sortedOfList before_total

theorem nodup_sorted (scopes : List Scope) : (sorted scopes).Nodup :=
  nodup_sortedOfList before_total before_trans before_irrefl scopes

end Scope

-- Lists of which each one holds the elements of one kind, each once, hold together every element once.
theorem perm_flatMap_kinds {κ α : Type} {kinds : List κ} {listed : κ → List α} {all : List α}
    (kindOf : α → κ → Prop) (kindsOnce : kinds.Nodup) (allOnce : all.Nodup)
    (once : ∀ kind ∈ kinds, (listed kind).Nodup)
    (exact : ∀ kind ∈ kinds, ∀ x, x ∈ listed kind ↔ x ∈ all ∧ kindOf x kind)
    (single : ∀ x a b, kindOf x a → kindOf x b → a = b) (covered : ∀ x ∈ all, ∃ kind ∈ kinds, kindOf x kind) :
    (kinds.flatMap listed).Perm all := by
  have apart : kinds.Pairwise (Function.onFun List.Disjoint listed) := by
    refine kindsOnce.imp_of_mem ?_
    intro a b first second different x inFirst inSecond
    exact different (single x a b ((exact a first x).mp inFirst).2 ((exact b second x).mp inSecond).2)
  refine (List.perm_ext_iff_of_nodup (List.nodup_flatMap.mpr ⟨once, apart⟩) allOnce).mpr ?_
  intro x
  rw [List.mem_flatMap]
  constructor
  · rintro ⟨kind, member, inside⟩
    exact ((exact kind member x).mp inside).1
  · intro inside
    obtain ⟨kind, member, holds⟩ := covered x inside
    exact ⟨kind, member, (exact kind member x).mpr ⟨inside, holds⟩⟩

namespace Api

section Partition

variable {settings : Settings} {description : Description} {uses : List (Scope × List String)} {api : Api}

theorem compile_modules (compiled : compile settings description = .ok api) :
    api.modules = (OutputModule.scopes api.index api.contracts).map
      (OutputModule.ofScope settings api.index api.contracts) := by
  obtain ⟨resolved, _, next⟩ := bind_ok compiled
  obtain ⟨index, _, next⟩ := bind_ok next
  obtain ⟨contracts, _, next⟩ := bind_ok next
  cases next
  rfl

theorem assembled_keys (assembled : Assembled settings description uses api) :
    Keyed.keys api.index.entries = Keyed.keys description.schemas :=
  (map_related assembled.entries fun _ _ registered => registered.key).symm

theorem mem_keys_iff_owned (assembled : Assembled settings description uses api) {name : String} :
    name ∈ Keyed.keys description.schemas ↔ ∃ scope, api.index.scopeOf? name = some scope := by
  constructor
  · intro listed
    exact ⟨_, Description.scopeOf?_eq assembled.entries listed⟩
  · rintro ⟨scope, owned⟩
    obtain ⟨entry, found, _⟩ := ModelIndex.scopeOf?_some.mp owned
    rw [← assembled_keys assembled]
    exact List.mem_map_of_mem (lookup_mem found)

theorem owner_listed {contracts : List Contract} {name : String} {scope : Scope}
    (owned : api.index.scopeOf? name = some scope) :
    scope ∈ OutputModule.scopes api.index contracts := by
  obtain ⟨entry, found, rfl⟩ := ModelIndex.scopeOf?_some.mp owned
  refine Scope.mem_sorted.mpr (List.mem_append_left _ (List.mem_map_of_mem ?_))
  exact List.mem_map_of_mem (f := Prod.snd) (lookup_mem found)

theorem models_partition (assembled : Assembled settings description uses api)
    (distinct : (Keyed.keys description.schemas).Nodup) :
    ((OutputModule.scopes api.index api.contracts).flatMap api.index.dependencyOrder).Perm
      (Keyed.keys description.schemas) := by
  have coherent := assembled_coherent assembled distinct
  refine perm_flatMap_kinds (fun name scope => api.index.scopeOf? name = some scope)
    (Scope.nodup_sorted _) distinct ?_ ?_ ?_ ?_
  · exact fun scope _ => (ModelIndex.dependencyOrder_ordered coherent scope).1
  · intro scope _ name
    rw [ModelIndex.mem_dependencyOrder coherent, mem_keys_iff_owned assembled]
    exact ⟨fun owned => ⟨⟨scope, owned⟩, owned⟩, And.right⟩
  · intro name a b first second
    rw [first] at second
    exact Option.some.inj second
  · intro name listed
    obtain ⟨scope, owned⟩ := (mem_keys_iff_owned assembled).mp listed
    exact ⟨scope, owner_listed owned, owned⟩

-- The contracts of a scope are those of its operations, in the same order.
theorem operations_filtered (assembled : Assembled settings description uses api) (scope : Scope) :
    (api.contracts.filter fun contract => contract.scope == scope).map Contract.name
      = (description.operations.filter fun op => Scope.ofTag op.primaryTag? == scope).map Operation.name := by
  have related := assembled.contracts
  generalize api.contracts = contracts at related
  generalize description.operations = operations at related
  induction related with
  | nil => rfl
  | @cons op contract _ _ compiled _ ih =>
    obtain ⟨_, _, made⟩ := ofOperation_compiled compiled
    rw [List.filter_cons, List.filter_cons, made.scope]
    split
    · rw [List.map_cons, List.map_cons, ih, made.name]
    · exact ih

theorem operations_partition (assembled : Assembled settings description uses api)
    (distinct : (description.operations.map Operation.name).Nodup) :
    ((OutputModule.scopes api.index api.contracts).flatMap fun scope =>
      (description.operations.filter fun op => Scope.ofTag op.primaryTag? == scope).map Operation.name).Perm
        (description.operations.map Operation.name) := by
  rw [← List.map_flatMap]
  refine List.Perm.map _ ?_
  refine perm_flatMap_kinds (fun op scope => Scope.ofTag op.primaryTag? = scope)
    (Scope.nodup_sorted _) distinct.of_map ?_ ?_ ?_ ?_
  · exact fun scope _ => distinct.of_map.filter _
  · intro scope _ op
    rw [List.mem_filter, beq_iff_eq]
  · exact fun op a b first second => first.symm.trans second
  · intro op listed
    obtain ⟨contract, member, compiled⟩ := related_left assembled.contracts listed
    obtain ⟨_, _, made⟩ := ofOperation_compiled compiled
    refine ⟨_, Scope.mem_sorted.mpr (List.mem_append_right _ ?_), rfl⟩
    rw [← made.scope]
    exact List.mem_map_of_mem member

-- Each schema and each operation stands once, in the module of its scope: operations in the order of
-- the document, and schemas after those of the module that they need, cycles apart.
theorem modules_partition_in_order {settings : Settings} {document : Document} {description : Description}
    {api : Api} (loaded : document.lower = .ok description)
    (compiled : compile settings description = .ok api) :
    ((api.modules.flatMap OutputModule.models).Perm (Keyed.keys description.schemas) ∧
      (api.modules.flatMap OutputModule.models).Nodup ∧
      ∀ m ∈ api.modules, ∀ name ∈ m.models, api.index.scopeOf? name = some m.scope) ∧
    ((api.modules.flatMap OutputModule.operations).Perm (description.operations.map Operation.name) ∧
      ∀ m ∈ api.modules, m.operations =
        (description.operations.filter fun op => Scope.ofTag op.primaryTag? == m.scope).map Operation.name) ∧
    ∀ m ∈ api.modules, ∀ later ∈ m.models, ∀ model, api.model? later = some model →
      ∀ earlier ∈ model.dependencies, api.index.scopeOf? earlier = some m.scope →
        ¬ api.index.LeadsTo earlier later → [earlier, later].Sublist m.models := by
  have wellFormed := Document.lower_wellFormed loaded
  obtain ⟨uses, assembled⟩ := compile_assembled compiled
  have coherent := assembled_coherent assembled wellFormed.schemaNames
  have modules := compile_modules compiled
  have models : (api.modules.flatMap OutputModule.models).Perm (Keyed.keys description.schemas) := by
    rw [modules, List.flatMap_map]
    exact models_partition assembled wellFormed.schemaNames
  have operations : ∀ m ∈ api.modules, m.operations =
      (description.operations.filter fun op => Scope.ofTag op.primaryTag? == m.scope).map Operation.name := by
    intro m member
    rw [← operations_filtered assembled]
    exact congrArg OutputModule.operations (assembled.modules m member)
  refine ⟨⟨models, models.nodup_iff.mpr wellFormed.schemaNames, ?_⟩, ⟨?_, operations⟩, ?_⟩
  · intro m member name inside
    rw [assembled.modules m member] at inside
    exact (ModelIndex.mem_dependencyOrder coherent).mp inside
  · rw [modules, List.flatMap_map]
    refine List.Perm.trans (List.Perm.of_eq ?_) (operations_partition assembled wellFormed.operationNames)
    exact List.flatMap_congr fun scope _ => operations_filtered assembled scope
  · intro m member later inside model found earlier refers owned apart
    rw [assembled.modules m member] at inside ⊢
    obtain ⟨entry, named, equal⟩ :=
      ModelIndex.scopeOf?_some.mp ((ModelIndex.mem_dependencyOrder coherent).mp inside)
    obtain ⟨_, recorded, _, _, made⟩ :=
      rel_some (lookup_paired (fun _ _ same => same.1) assembled.models later) named
    cases found.symm.trans recorded
    obtain ⟨validator, _, rfl⟩ := map_ok made
    exact (ModelIndex.dependencyOrder_ordered coherent m.scope).2 later inside earlier
      ⟨entry, named, refers, owned.trans (congrArg some equal.symm)⟩ apart

-- Owners and pets refer to each other; the address of an owner refers to nothing.
def clinicDocument : Document where
  paths :=
    [("/pets", getting "listPets" "pets" [("200", answers "Pet")]),
      ("/ping", getting "ping" "health" [("default", answers "Failure")])]
  schemas :=
    [("Pet", .object { properties := some [("owner", refersTo "Owner")] }),
      ("Owner", .object { properties := some [("pet", refersTo "Pet"), ("home", refersTo "Address")] }),
      ("Failure", .object { types := some (.single "string") }),
      ("Address", .object { types := some (.single "string") })]

theorem clinic_in_order : ∃ description api m,
    clinicDocument.lower = .ok description ∧ compile {} description = .ok api ∧ m ∈ api.modules ∧
      m.scope = .tag "pets" ∧ (api.modules.flatMap OutputModule.models).Perm (Keyed.keys description.schemas) ∧
      (api.modules.flatMap OutputModule.operations).Perm (description.operations.map Operation.name) ∧
      ¬ api.index.LeadsTo "Address" "Owner" ∧ ["Address", "Owner"].Sublist m.models := by
  have evaluated : ((clinicDocument.lower.toOption.bind fun description =>
      (compile {} description).toOption.bind fun api => (api.module? (.tag "pets")).bind fun m =>
        (api.model? "Owner").bind fun model => (api.index.find? "Address").map fun entry =>
          (m.models, model.dependencies, entry.dependencies, entry.scope))) =
      some (["Address", "Owner", "Pet"], ["Pet", "Address"], [], .tag "pets") := by decide +kernel
  obtain ⟨description, lowered, rest⟩ := Option.bind_eq_some_iff.mp evaluated
  obtain ⟨api, made, rest⟩ := Option.bind_eq_some_iff.mp rest
  obtain ⟨m, located, rest⟩ := Option.bind_eq_some_iff.mp rest
  obtain ⟨model, found, rest⟩ := Option.bind_eq_some_iff.mp rest
  obtain ⟨entry, address, parts⟩ := Option.map_eq_some_iff.mp rest
  obtain ⟨models, needs, leaf, home⟩ : m.models = ["Address", "Owner", "Pet"] ∧
      model.dependencies = ["Pet", "Address"] ∧ entry.dependencies = [] ∧ entry.scope = .tag "pets" := by
    simpa using parts
  have loaded := toOption_some lowered
  have compiled := toOption_some made
  have member : m ∈ api.modules := List.mem_of_find?_eq_some located
  have tagged : m.scope = .tag "pets" := by simpa using List.find?_some located
  have owned : api.index.scopeOf? "Address" = some m.scope :=
    ModelIndex.scopeOf?_some.mpr ⟨entry, address, home.trans tagged.symm⟩
  have apart : ¬ api.index.LeadsTo "Address" "Owner" := by
    intro leads
    rcases Relation.ReflTransGen.cases_head leads with same | ⟨next, ⟨other, again, refers, _⟩, _⟩
    · exact absurd same (by decide)
    · rw [address] at again
      cases again
      rw [leaf] at refers
      cases refers
  obtain ⟨⟨allModels, _⟩, ⟨allOperations, _⟩, ordered⟩ := modules_partition_in_order loaded compiled
  exact ⟨description, api, m, loaded, compiled, member, tagged, allModels, allOperations, apart,
    ordered m member "Owner" (models ▸ by decide) model found "Address" (needs ▸ by decide) owned apart⟩

end Partition

end Api

end ApiContract
