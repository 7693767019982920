import ApiContract.Model.Resolve
import ApiContract.Proofs.Collections
import Mathlib.Data.Set.Insert

namespace ApiContract.Description

-- Which schemas an operation needs is a matter of paths in the graph of definitions. The search for
-- them goes through the graph once, in an order that is not part of the answer.

section Paths

-- A name that a schema refers to, or that the definition of such a name refers to, and so on.
inductive Reaches (schemas : List (String × Node)) (node : Node) : String → Prop where
  | direct {name : String} (refers : name ∈ node.directReferences) : Reaches schemas node name
  | through {parent name : String} {definition : Node} (reached : Reaches schemas node parent)
      (defined : schemas.lookup parent = some definition)
      (refers : name ∈ definition.directReferences) : Reaches schemas node name

theorem mem_referencesOf {schemas : List (String × Node)} {parent name : String} :
    name ∈ referencesOf schemas parent ↔
      ∃ definition, schemas.lookup parent = some definition ∧ name ∈ definition.directReferences := by
  unfold referencesOf
  cases schemas.lookup parent with
  | none => simp
  | some definition => simp

end Paths

section Search

variable {schemas : List (String × Node)} {remaining pending found : List String}

-- What is found keeps every property of pending names that passes along references.
theorem reach_sound {P : String → Prop} (ran : reach schemas remaining pending = .ok found)
    (start : ∀ name ∈ pending, P name)
    (step : ∀ parent, P parent → ∀ name ∈ referencesOf schemas parent, P name) :
    ∀ name ∈ found, P name := by
  fun_induction reach schemas remaining pending generalizing found with
  | case1 remaining =>
    cases ran
    exact List.forall_mem_nil _
  | case2 remaining name rest _ ih =>
    obtain ⟨others, searched, rfl⟩ := map_ok ran
    obtain ⟨first, later⟩ := List.forall_mem_cons.mp start
    refine List.forall_mem_cons.mpr ⟨first, ih searched ?_⟩
    intro other member
    rcases List.mem_append.mp member with refers | waiting
    · exact step name first other refers
    · exact later other waiting
  | case3 remaining name rest _ _ ih => exact ih ran (List.forall_mem_cons.mp start).2
  | case4 => cases ran

-- A name that has been found, or that is defined and was followed before.
def Settled (schemas : List (String × Node)) (remaining found : List String) (name : String) : Prop :=
  name ∈ found ∨ name ∉ remaining ∧ Keyed.contains name schemas = true

theorem settled_cons {name other : String}
    (settled : Settled schemas (remaining.erase name) found other) :
    Settled schemas remaining (name :: found) other := by
  rcases settled with member | ⟨gone, defined⟩
  · exact .inl (List.mem_cons_of_mem name member)
  · by_cases same : other = name
    · exact .inl (List.mem_cons.mpr (.inl same))
    · exact .inr ⟨fun member => gone ((List.mem_erase_of_ne same).mpr member), defined⟩

-- The search leaves nothing open: neither a pending name nor a reference of one that it found.
theorem reach_settles (ran : reach schemas remaining pending = .ok found) :
    (∀ name ∈ pending, Settled schemas remaining found name) ∧
      ∀ parent ∈ found, ∀ name ∈ referencesOf schemas parent, Settled schemas remaining found name := by
  fun_induction reach schemas remaining pending generalizing found with
  | case1 remaining =>
    cases ran
    exact ⟨List.forall_mem_nil _, List.forall_mem_nil _⟩
  | case2 remaining name rest _ ih =>
    obtain ⟨others, searched, rfl⟩ := map_ok ran
    obtain ⟨waiting, closed⟩ := ih searched
    refine ⟨?_, ?_⟩
    · refine List.forall_mem_cons.mpr ⟨.inl List.mem_cons_self, ?_⟩
      exact fun other member => settled_cons (waiting other (List.mem_append_right _ member))
    · refine List.forall_mem_cons.mpr ⟨?_, ?_⟩
      · exact fun other member => settled_cons (waiting other (List.mem_append_left _ member))
      · exact fun parent member other refers => settled_cons (closed parent member other refers)
  | case3 remaining name rest gone defined ih =>
    obtain ⟨waiting, closed⟩ := ih ran
    exact ⟨List.forall_mem_cons.mpr ⟨.inr ⟨gone, defined⟩, waiting⟩, closed⟩
  | case4 => cases ran

theorem reachedBy_exact {op : Operation} (ran : reachedBy schemas op = .ok found) {name : String} :
    name ∈ found ↔ ∃ node ∈ op.schemas, Reaches schemas node name := by
  constructor
  · refine reach_sound (P := fun name => ∃ node ∈ op.schemas, Reaches schemas node name) ran ?_ ?_ name
    · intro name member
      obtain ⟨node, inside, refers⟩ := List.mem_flatMap.mp member
      exact ⟨node, inside, .direct refers⟩
    · rintro parent ⟨node, inside, reached⟩ name refers
      obtain ⟨definition, defined, refers⟩ := mem_referencesOf.mp refers
      exact ⟨node, inside, .through reached defined refers⟩
  · -- nothing was followed before the search, so what is settled has been found
    obtain ⟨waiting, closed⟩ := reach_settles ran
    have member {name : String} (settled : Settled schemas (Keyed.keys schemas) found name) :
        name ∈ found := by
      rcases settled with member | ⟨gone, defined⟩
      · exact member
      · exact absurd (contains_iff_mem.mp defined) gone
    rintro ⟨node, inside, reached⟩
    induction reached with
    | direct refers => exact member (waiting _ (List.mem_flatMap.mpr ⟨node, inside, refers⟩))
    | through _ defined refers ih =>
      exact member (closed _ ih _ (mem_referencesOf.mpr ⟨_, defined, refers⟩))

end Search

section Scopes

-- The scopes of the operations that need the schema.
def users (description : Description) (name : String) : Set Scope :=
  { scope | ∃ op ∈ description.operations, Scope.ofTag op.primaryTag? = scope ∧
    ∃ node ∈ op.schemas, Reaches description.schemas node name }

variable {description : Description} {uses : List (Scope × List String)}

theorem mem_usage (ran : description.usage = .ok uses) (name : String) (scope : Scope) :
    scope ∈ (uses.filter fun use => use.2.contains name).map Prod.fst ↔ scope ∈ users description name := by
  have related := traverse_ok ran
  constructor
  · intro member
    obtain ⟨use, kept, rfl⟩ := List.mem_map.mp member
    obtain ⟨inside, contains⟩ := List.mem_filter.mp kept
    obtain ⟨op, listed, made⟩ := related_right related inside
    obtain ⟨found, searched, rfl⟩ := map_ok made
    exact ⟨op, listed, rfl, (reachedBy_exact searched).mp (List.contains_iff_mem.mp contains)⟩
  · rintro ⟨op, listed, rfl, needed⟩
    obtain ⟨use, inside, made⟩ := related_left related listed
    obtain ⟨found, searched, rfl⟩ := map_ok made
    have contains := List.contains_iff_mem.mpr ((reachedBy_exact searched).mpr needed)
    exact List.mem_map.mpr ⟨_, List.mem_filter.mpr ⟨inside, contains⟩, rfl⟩

theorem scopeFrom_tag (ran : description.usage = .ok uses) (name tag : String) :
    scopeFrom uses name = .tag tag ↔ users description name = {.tag tag} := by
  have single : distinct ((uses.filter fun use => use.2.contains name).map Prod.fst) = [.tag tag]
      ↔ users description name = {.tag tag} := by
    rw [distinct_eq_singleton, Set.ext_iff]
    exact forall_congr' fun scope => by rw [mem_usage ran, Set.mem_singleton_iff]
  rw [← single]
  unfold scopeFrom
  split
  · rename_i scope equal
    rw [equal, List.cons.injEq, and_iff_left rfl]
  · rename_i several
    constructor
    · intro equal
      cases equal
    · intro equal
      exact absurd equal (several _)

theorem scopeFrom_default (ran : description.usage = .ok uses) {name : String}
    (untagged : ∀ tag, users description name ≠ {.tag tag}) : scopeFrom uses name = .default := by
  cases assigned : scopeFrom uses name with
  | default => rfl
  | tag tag => exact absurd ((scopeFrom_tag ran name tag).mp assigned) (untagged tag)

end Scopes

-- The entries of the index stand in the order of the definitions, one for each.
section Entries

-- What resolving says of a definition, whatever name it is declared under.
structure Registered (known : String → Bool) (uses : List (Scope × List String))
    (definition : String × Node) (row : String × ModelEntry) : Prop where
  key : definition.1 = row.1
  schemaName : row.2.schemaName = row.1
  scope : row.2.scope = scopeFrom uses row.1
  dependencies : row.2.dependencies = definition.2.directReferences
  schema : row.2.schema = definition.2
  known : ∀ name ∈ row.2.dependencies, known name = true

theorem entriesFrom_registered {known : String → Bool} {uses : List (Scope × List String)}
    {taken : List String} {schemas : List (String × Node)} {entries : List (String × ModelEntry)}
    (ran : entriesFrom known uses taken schemas = .ok entries) :
    List.Forall₂ (Registered known uses) schemas entries := by
  induction schemas generalizing taken entries with
  | nil => cases ran; exact .nil
  | cons definition rest ih =>
    obtain ⟨name, node⟩ := definition
    unfold entriesFrom at ran
    split at ran
    · cases ran
    · rename_i allKnown
      obtain ⟨others, later, rfl⟩ := map_ok ran
      refine .cons ⟨rfl, rfl, rfl, rfl, rfl, ?_⟩ (ih later)
      intro reference member
      simpa using List.find?_eq_none.mp allKnown reference member

variable {description : Description} {index : ModelIndex}

theorem resolve_ok (resolved : description.resolve = .ok index) :
    ∃ uses, description.usage = .ok uses ∧
      entriesFrom (fun name => Keyed.contains name description.schemas) uses [] description.schemas
        = .ok index.entries ∧ index.models = [] := by
  obtain ⟨uses, used, next⟩ := bind_ok resolved
  obtain ⟨entries, made, next⟩ := bind_ok next
  cases next
  exact ⟨uses, used, made, rfl⟩

theorem resolve_registered (resolved : description.resolve = .ok index) :
    ∃ uses, description.usage = .ok uses ∧
      List.Forall₂ (Registered (fun name => Keyed.contains name description.schemas) uses)
        description.schemas index.entries := by
  obtain ⟨uses, used, made, _⟩ := resolve_ok resolved
  exact ⟨uses, used, entriesFrom_registered made⟩

variable {known : String → Bool} {uses : List (Scope × List String)}

theorem find?_registered (related : List.Forall₂ (Registered known uses) description.schemas index.entries)
    (name : String) :
    Option.Rel (fun node entry => Registered known uses (name, node) (name, entry))
      (description.schemas.lookup name) (index.find? name) :=
  lookup_paired (fun _ _ registered => registered.key) related name

theorem scopeOf?_eq (related : List.Forall₂ (Registered known uses) description.schemas index.entries)
    {name : String} (listed : name ∈ Keyed.keys description.schemas) :
    index.scopeOf? name = some (scopeFrom uses name) := by
  obtain ⟨node, defined⟩ := Option.isSome_iff_exists.mp (contains_iff_mem.mpr listed)
  obtain ⟨entry, found, registered⟩ := rel_some (find?_registered related name) defined
  rw [ModelIndex.scopeOf?, found, Option.map_some, registered.scope]

end Entries

section Order

variable {description : Description} {operations : List Operation}

theorem users_perm (same : operations.Perm description.operations) (name : String) :
    users { description with operations := operations } name = users description name := by
  ext scope
  constructor
  · rintro ⟨op, listed, rest⟩
    exact ⟨op, same.mem_iff.mp listed, rest⟩
  · rintro ⟨op, listed, rest⟩
    exact ⟨op, same.mem_iff.mpr listed, rest⟩

theorem scopeFrom_perm {uses others : List (Scope × List String)} (used : description.usage = .ok uses)
    (same : operations.Perm description.operations)
    (reordered : usage { description with operations := operations } = .ok others) (name : String) :
    scopeFrom others name = scopeFrom uses name := by
  cases assigned : scopeFrom uses name with
  | tag tag =>
    rw [scopeFrom_tag reordered, users_perm same]
    exact (scopeFrom_tag used name tag).mp assigned
  | default =>
    refine scopeFrom_default reordered ?_
    intro tag equal
    rw [users_perm same] at equal
    rw [(scopeFrom_tag used name tag).mpr equal] at assigned
    cases assigned

theorem entriesFrom_congr {known : String → Bool} {uses others : List (Scope × List String)}
    (same : ∀ name, scopeFrom others name = scopeFrom uses name) (taken : List String)
    (schemas : List (String × Node)) :
    entriesFrom known others taken schemas = entriesFrom known uses taken schemas := by
  induction schemas generalizing taken with
  | nil => rfl
  | cons definition rest ih => simp only [entriesFrom, same, ih]

theorem resolve_perm {index : ModelIndex} (same : operations.Perm description.operations)
    (resolved : description.resolve = .ok index) :
    resolve { description with operations := operations } = .ok index := by
  obtain ⟨uses, used, made, none⟩ := resolve_ok resolved
  have each : ∀ op ∈ operations, ∃ use, (reachedBy description.schemas op).map
      (fun names => (Scope.ofTag op.primaryTag?, names)) = .ok use := by
    intro op listed
    obtain ⟨use, _, searched⟩ := related_left (traverse_ok used) (same.mem_iff.mp listed)
    exact ⟨use, searched⟩
  obtain ⟨others, reordered⟩ := traverse_succeeds each
  have sameScopes := scopeFrom_perm used same reordered
  have remade := (entriesFrom_congr sameScopes [] description.schemas).trans made
  obtain ⟨entries, models⟩ := index
  cases none
  show (usage { description with operations := operations }).bind _ = _
  rw [show usage { description with operations := operations } = .ok others from reordered]
  show (entriesFrom _ others [] description.schemas).bind _ = _
  rw [remade]
  rfl

end Order

-- A definition belongs to a tag exactly if all operations that need it have that tag first, and some
-- operation does need it. The order of the operations plays no part.
theorem scope_is_reachability {description : Description} {index : ModelIndex}
    (resolved : description.resolve = .ok index) :
    (∀ name ∈ Keyed.keys description.schemas,
      (∀ tag, index.scopeOf? name = some (.tag tag) ↔ users description name = {.tag tag}) ∧
      (index.scopeOf? name = some .default ↔ ∀ tag, users description name ≠ {.tag tag})) ∧
    ∀ operations, operations.Perm description.operations →
      resolve { description with operations := operations } = .ok index := by
  refine ⟨?_, fun operations same => resolve_perm same resolved⟩
  intro name listed
  obtain ⟨uses, used, related⟩ := resolve_registered resolved
  rw [scopeOf?_eq related listed]
  refine ⟨?_, ?_⟩
  · intro tag
    rw [Option.some.injEq, scopeFrom_tag used]
  · rw [Option.some.injEq]
    constructor
    · intro assigned tag equal
      rw [(scopeFrom_tag used name tag).mpr equal] at assigned
      cases assigned
    · exact scopeFrom_default used

def pet : Node := { Node.record [("owner", .reference "Owner")] [] with name := some "Pet" }

def owner : Node := { Node.record [("pets", .list (.reference "Pet"))] [] with name := some "Owner" }

def failure : Node := { Node.string with name := some "Failure" }

def shop : Description where
  schemas := [("Pet", pet), ("Owner", owner), ("Failure", failure)]
  operations :=
    [{ name := "listPets", method := .get, path := "/pets", tags := ["pets"]
       responses := [⟨"200", none, [("application/json", some (.list (.reference "Pet")))]⟩,
         ⟨"404", none, [("application/json", some (.reference "Failure"))]⟩] },
      { name := "ping", method := .get, path := "/ping", tags := ["health"]
        responses := [⟨"500", none, [("application/json", some (.reference "Failure"))]⟩] }]

def shopIndex : ModelIndex where
  entries :=
    [("Pet", ⟨"Pet", "Pet", .tag "pets", ["Owner"], pet⟩),
      ("Owner", ⟨"Owner", "Owner", .tag "pets", ["Pet"], owner⟩),
      ("Failure", ⟨"Failure", "Failure", .default, [], failure⟩)]

-- Two definitions that refer to each other, and one that two tags share.
theorem shop_scopes :
    shop.resolve = .ok shopIndex ∧ users shop "Owner" = {.tag "pets"} ∧
      (∀ tag, users shop "Failure" ≠ {.tag tag}) ∧
      resolve { shop with operations := shop.operations.reverse } = .ok shopIndex := by
  have used : shop.usage = .ok
      [(.tag "pets", ["Pet", "Owner", "Failure"]), (.tag "health", ["Failure"])] :=
    toOption_some (by decide +kernel)
  have resolved : shop.resolve = .ok shopIndex := by
    unfold resolve
    rw [used]
    rfl
  obtain ⟨assigned, reordered⟩ := scope_is_reachability resolved
  exact ⟨resolved, ((assigned "Owner" (by decide)).1 "pets").mp rfl,
    (assigned "Failure" (by decide)).2.mp rfl, reordered _ (List.reverse_perm _)⟩

end ApiContract.Description
