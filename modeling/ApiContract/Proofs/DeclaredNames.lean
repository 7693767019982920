import ApiContract.Api.Basic
import ApiContract.Proofs.CallArguments
import ApiContract.Proofs.ScopeAssignment
import Mathlib.Data.List.Nodup
import Mathlib.Data.List.Perm.Lattice

namespace ApiContract

-- The names that types and validators are declared under. Types are named apart from one another, and so are
-- validators. A validator is named after its type without looking at the types, so it may be called like the
-- type of another schema.

namespace Description

open Identifier (fresh numbered ofModel)

section Entries

variable {known : String → Bool} {uses : List (Scope × List String)} {taken : List String}
  {schemas : List (String × Node)} {entries : List (String × ModelEntry)}

-- The first definition gets a name that is not taken, and the others come after it.
theorem entriesFrom_cons {definition : String × Node}
    (ran : entriesFrom known uses taken (definition :: schemas) = .ok entries) :
    ∃ entry others, entries = (definition.1, entry) :: others ∧
      entry.modelName = fresh (ofModel definition.1) taken ∧
      entriesFrom known uses (entry.modelName :: taken) schemas = .ok others := by
  unfold entriesFrom at ran
  split at ran
  · cases ran
  · obtain ⟨others, later, rfl⟩ := map_ok ran
    exact ⟨_, others, rfl, rfl, later⟩

theorem entriesFrom_modelNames (ran : entriesFrom known uses taken schemas = .ok entries) :
    Identifier.Apart (entries.map fun row => row.2.modelName) taken := by
  induction schemas generalizing taken entries with
  | nil =>
    cases ran
    exact .nil taken
  | cons definition rest ih =>
    obtain ⟨entry, others, rfl, named, later⟩ := entriesFrom_cons ran
    have new : entry.modelName ∉ taken := named ▸ Identifier.fresh_notMem _ _
    exact .cons new (ih later)

theorem entriesFrom_numbered (ran : entriesFrom known uses taken schemas = .ok entries) :
    ∀ row ∈ entries, row.2.modelName = ofModel row.1 ∨ ∃ n, row.2.modelName = numbered (ofModel row.1) n := by
  induction schemas generalizing taken entries with
  | nil =>
    cases ran
    exact List.forall_mem_nil _
  | cons definition rest ih =>
    obtain ⟨entry, others, rfl, named, later⟩ := entriesFrom_cons ran
    refine List.forall_mem_cons.mpr ⟨?_, ih later⟩
    rw [named]
    exact Identifier.fresh_cases _ _

-- A name that has no number is declared as soon as a schema is called so: nothing else can take it.
theorem entriesFrom_declares {chosen : String} (plain : ∀ base n, numbered base n ≠ chosen)
    (free : chosen ∉ taken) (ran : entriesFrom known uses taken schemas = .ok entries)
    (wanted : ∃ name ∈ Keyed.keys schemas, ofModel name = chosen) :
    ∃ name entry, ofModel name = chosen ∧ entries.lookup name = some entry ∧ entry.modelName = chosen := by
  induction schemas generalizing taken entries with
  | nil =>
    obtain ⟨name, listed, _⟩ := wanted
    cases listed
  | cons definition rest ih =>
    obtain ⟨entry, others, rfl, named, later⟩ := entriesFrom_cons ran
    by_cases own : ofModel definition.1 = chosen
    · refine ⟨definition.1, entry, own, List.lookup_cons_self, ?_⟩
      rw [named, own, Identifier.fresh_of_notMem free]
    · have other : entry.modelName ≠ chosen := by
        rw [named]
        rcases Identifier.fresh_cases (ofModel definition.1) taken with same | ⟨n, same⟩
        · rwa [same]
        · rw [same]
          exact plain _ n
      obtain ⟨wish, listed, equal⟩ := wanted
      have inRest : wish ∈ Keyed.keys rest := by
        rcases List.mem_cons.mp listed with rfl | later
        · exact absurd equal own
        · exact later
      have free : chosen ∉ entry.modelName :: taken := by
        simpa using ⟨other.symm, free⟩
      obtain ⟨name, found, made, lookedUp, declared⟩ := ih free later ⟨wish, inRest, equal⟩
      refine ⟨name, found, made, ?_, declared⟩
      have differs : (name == definition.1) = false := by
        rw [beq_eq_false_iff_ne]
        rintro rfl
        exact own made
      rw [List.lookup_cons, differs]
      exact lookedUp

end Entries

end Description

-- What is declared for schemas: a type and a validator for each.
def Names.declared (names : Names) (schemas : List String) : List String :=
  schemas.flatMap fun name => [names.model name, names.validator name]

section Declarations

open Identifier (numbered ofModel)

theorem nodup_flatMap_pair {α β : Type} {f g : α → β} {xs : List α} (distinct : xs.Nodup)
    (first : ∀ a ∈ xs, ∀ b ∈ xs, f a = f b → a = b) (second : ∀ a ∈ xs, ∀ b ∈ xs, g a = g b → a = b) :
    (xs.flatMap fun x => [f x, g x]).Nodup ↔ ∀ a ∈ xs, ∀ b ∈ xs, f a ≠ g b := by
  have parted : (xs.map f ++ xs.map g).Perm (xs.flatMap fun x => [f x, g x]) := by
    rw [List.map_eq_flatMap, List.map_eq_flatMap]
    exact List.flatMap_append_perm xs (fun x => [f x]) fun x => [g x]
  have left : (xs.map f).Nodup := distinct.map_on first
  have right : (xs.map g).Nodup := distinct.map_on second
  rw [← parted.nodup_iff, List.nodup_append]
  simp [left, right]

theorem numbered_ne_validator (names : Names) (schema base : String) (n : Nat) :
    numbered base n ≠ names.validator schema := by
  intro equal
  obtain ⟨c, last, digit⟩ := Identifier.numbered_last base n
  rw [equal, Names.validator, String.toList_append, List.getLast?_append_of_ne_nil _ (by decide)] at last
  cases last
  cases digit

theorem validator_injective {names : Names} {a b : String} (equal : names.validator a = names.validator b) :
    names.model a = names.model b := by
  have chars := congrArg String.toList equal
  simp only [Names.validator, String.toList_append] at chars
  exact String.toList_inj.mp (List.append_cancel_right chars)

variable {settings : Settings} {description : Description} {index : ModelIndex}

-- Where a schema has an entry, its type is called as that says.
theorem model_ofIndex (settings : Settings) (resolved : description.resolve = .ok index) {name : String}
    {entry : ModelEntry} (found : index.find? name = some entry) :
    (Names.ofIndex settings index).model name = entry.modelName := by
  obtain ⟨uses, _, related⟩ := Description.resolve_registered resolved
  have rows : (Names.ofIndex settings index).models = index.entries.map fun row => (row.1, row.2.modelName) := by
    unfold Names.ofIndex ModelIndex.allEntries
    rw [List.map_map]
    refine List.map_congr_left fun row member => ?_
    obtain ⟨definition, _, registered⟩ := related_right related member
    simp [registered.schemaName]
  have lookedUp : index.entries.lookup name = some entry := found
  rw [Names.model, rows, lookup_map, lookedUp]
  rfl

theorem find?_defined (resolved : description.resolve = .ok index) {name : String} :
    name ∈ Keyed.keys description.schemas ↔ ∃ entry, index.find? name = some entry := by
  obtain ⟨uses, _, related⟩ := Description.resolve_registered resolved
  have registered := Description.find?_registered related name
  rw [← contains_iff_mem, Keyed.contains, Option.isSome_iff_exists]
  constructor
  · rintro ⟨node, defined⟩
    obtain ⟨entry, found, _⟩ := rel_some registered defined
    exact ⟨entry, found⟩
  · rintro ⟨entry, found⟩
    obtain ⟨node, defined, _⟩ := rel_some_right registered found
    exact ⟨node, defined⟩

theorem model_injective (settings : Settings) (resolved : description.resolve = .ok index) {a b : String}
    (first : a ∈ Keyed.keys description.schemas) (second : b ∈ Keyed.keys description.schemas)
    (equal : (Names.ofIndex settings index).model a = (Names.ofIndex settings index).model b) : a = b := by
  obtain ⟨entry, found⟩ := (find?_defined resolved).mp first
  obtain ⟨other, foundOther⟩ := (find?_defined resolved).mp second
  rw [model_ofIndex settings resolved found, model_ofIndex settings resolved foundOther] at equal
  obtain ⟨uses, _, made, _⟩ := Description.resolve_ok resolved
  have distinct := (Description.entriesFrom_modelNames made).1
  exact congrArg Prod.fst (List.inj_on_of_nodup_map distinct (lookup_mem found) (lookup_mem foundOther) equal)

-- A type is called like a validator just if a schema is, before any number: a number never ends such a name.
theorem model_eq_validator (settings : Settings) (resolved : description.resolve = .ok index) (schema : String) :
    (∃ name ∈ Keyed.keys description.schemas,
      (Names.ofIndex settings index).model name = (Names.ofIndex settings index).validator schema) ↔
    ∃ name ∈ Keyed.keys description.schemas, ofModel name = (Names.ofIndex settings index).validator schema := by
  obtain ⟨uses, _, made, _⟩ := Description.resolve_ok resolved
  have plain := numbered_ne_validator (Names.ofIndex settings index) schema
  constructor
  · rintro ⟨name, listed, equal⟩
    obtain ⟨entry, found⟩ := (find?_defined resolved).mp listed
    rw [model_ofIndex settings resolved found] at equal
    refine ⟨name, listed, ?_⟩
    rcases Description.entriesFrom_numbered made _ (lookup_mem found) with own | ⟨n, counted⟩
    · exact own.symm.trans equal
    · exact absurd (counted.symm.trans equal) (plain _ n)
  · intro wanted
    obtain ⟨name, entry, _, found, declared⟩ :=
      Description.entriesFrom_declares plain List.not_mem_nil made wanted
    refine ⟨name, (find?_defined resolved).mpr ⟨entry, found⟩, ?_⟩
    rw [model_ofIndex settings resolved found, declared]

end Declarations

-- No two types and no two validators are declared under one name. All these names differ from one another
-- unless the name of a schema reads like that of the validator of another one.
theorem declared_names_clash {settings : Settings} {description : Description} {index : ModelIndex}
    (resolved : description.resolve = .ok index) :
    (∀ a ∈ Keyed.keys description.schemas, ∀ b ∈ Keyed.keys description.schemas, a ≠ b →
      (Names.ofIndex settings index).model a ≠ (Names.ofIndex settings index).model b ∧
      (Names.ofIndex settings index).validator a ≠ (Names.ofIndex settings index).validator b) ∧
    (((Names.ofIndex settings index).declared (distinct (Keyed.keys description.schemas))).Nodup ↔
      ∀ a ∈ Keyed.keys description.schemas, ∀ b ∈ Keyed.keys description.schemas,
        Identifier.ofModel a ≠ (Names.ofIndex settings index).validator b) := by
  have models {a b : String} := model_injective settings resolved (a := a) (b := b)
  refine ⟨fun a first b second differ => ⟨?_, ?_⟩, ?_⟩
  · exact fun equal => differ (models first second equal)
  · exact fun equal => differ (models first second (validator_injective equal))
  · have apart := nodup_flatMap_pair (nodup_distinct (Keyed.keys description.schemas))
      (fun a first b second => models (mem_distinct.mp first) (mem_distinct.mp second))
      (fun a first b second equal =>
        models (mem_distinct.mp first) (mem_distinct.mp second) (validator_injective equal))
    rw [Names.declared, apart]
    simp only [mem_distinct]
    constructor
    · intro differ a first b second equal
      obtain ⟨name, listed, same⟩ := (model_eq_validator settings resolved b).mpr ⟨a, first, equal⟩
      exact differ name listed b second same
    · intro differ a first b second equal
      obtain ⟨name, listed, same⟩ := (model_eq_validator settings resolved b).mp ⟨a, first, equal⟩
      exact differ name listed b second same

-- The validator of pets is called like the type of their schemas.
def kennel : Description where
  schemas := Description.define "PetSchema" (.scalar .integer) (Description.define "Pet" .string [])

theorem pet_schema_declared_twice : ∃ index, kennel.resolve = .ok index ∧
    (Names.ofIndex {} index).declared ["Pet", "PetSchema"] =
      ["Pet", "PetSchema", "PetSchema", "PetSchemaSchema"] ∧
    ¬ ((Names.ofIndex {} index).declared (distinct (Keyed.keys kennel.schemas))).Nodup := by
  have evaluated : (kennel.resolve.toOption.map fun index =>
      (Names.ofIndex {} index).declared ["Pet", "PetSchema"]) =
        some ["Pet", "PetSchema", "PetSchema", "PetSchemaSchema"] := by
    decide +kernel
  obtain ⟨index, made, names⟩ := Option.map_eq_some_iff.mp evaluated
  have resolved := toOption_some made
  refine ⟨index, resolved, names, ?_⟩
  rw [(declared_names_clash resolved).2]
  intro apart
  obtain ⟨_, clash, _⟩ := List.cons.inj names |>.imp_right List.cons.inj
  refine apart "PetSchema" (by decide +kernel) "Pet" (by decide +kernel) ?_
  rw [clash]
  decide +kernel

end ApiContract
