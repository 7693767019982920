import ApiContract.Proofs.LoadedDescriptions
import Mathlib.Data.List.Nodup

namespace ApiContract

-- What tells the parameters of an operation apart.
def Parameter.identity (p : Parameter) : String × Location := (p.name, p.location)

namespace Location

theorem keyword_injective : Function.Injective keyword := by
  intro a b equal
  revert equal
  cases a <;> cases b <;> decide

theorem keyword_of_parse? {text : String} {location : Location} (parsed : parse? text = some location) :
    location.keyword = text := by
  unfold parse? at parsed
  have found := List.find?_some parsed
  exact eq_of_beq found

end Location

-- One more element keeps the keys apart if its own is new.
theorem nodup_map_concat {α κ : Type} {key : α → κ} {xs : List α} {x : α} (distinct : (xs.map key).Nodup)
    (fresh : key x ∉ xs.map key) : ((xs ++ [x]).map key).Nodup := by
  rw [List.map_append, List.map_singleton, ← List.concat_eq_append]
  exact distinct.concat fresh

namespace Document

-- The search for a parameter whose key an earlier one has.
section Duplicates

variable {parameters : List Parameter}

-- The first such parameter: no two before it share a key.
def FirstRepeat (parameters : List Parameter) (p : Parameter) : Prop :=
  ∃ before after, parameters = before ++ p :: after ∧ (before.map Parameter.key).Nodup ∧
    p.key ∈ before.map Parameter.key

theorem FirstRepeat.not_nodup {p : Parameter} (repeated : FirstRepeat parameters p) :
    ¬ (parameters.map Parameter.key).Nodup := by
  obtain ⟨before, after, rfl, _, again⟩ := repeated
  intro distinct
  rw [List.map_append, List.nodup_append] at distinct
  exact distinct.2.2 _ again _ (List.mem_map_of_mem List.mem_cons_self) rfl

-- What has been seen are the keys of the parameters so far, which are distinct.
theorem duplicate?_cases {seen : List (String × String)} (before rest : List Parameter)
    (same : ∀ key, key ∈ seen ↔ key ∈ before.map Parameter.key) (distinct : (before.map Parameter.key).Nodup) :
    duplicate? seen rest = none ∧ ((before ++ rest).map Parameter.key).Nodup ∨
      ∃ p, duplicate? seen rest = some p ∧ FirstRepeat (before ++ rest) p := by
  induction rest generalizing seen before with
  | nil => exact .inl ⟨rfl, by rwa [List.append_nil]⟩
  | cons p rest ih =>
    unfold duplicate?
    split
    · rename_i found
      exact .inr ⟨p, rfl, before, rest, rfl, distinct, (same _).mp (List.contains_iff_mem.mp found)⟩
    · rename_i new
      have fresh : p.key ∉ before.map Parameter.key := fun again =>
        new (List.contains_iff_mem.mpr ((same _).mpr again))
      rw [List.append_cons before p rest]
      refine ih (before ++ [p]) ?_ ?_
      · intro key
        rw [List.mem_cons, same key, List.map_append, List.mem_append, or_comm]
        exact or_congr_right List.mem_singleton.symm
      · exact nodup_map_concat distinct fresh

theorem duplicate?_nodup (distinct : (parameters.map Parameter.key).Nodup) : duplicate? [] parameters = none := by
  rcases duplicate?_cases [] parameters (fun key => Iff.rfl) List.nodup_nil with ⟨none, _⟩ | ⟨p, _, repeated⟩
  · exact none
  · exact absurd distinct repeated.not_nodup

theorem duplicate?_repeated (again : ¬ (parameters.map Parameter.key).Nodup) :
    ∃ p, duplicate? [] parameters = some p ∧ FirstRepeat parameters p := by
  rcases duplicate?_cases [] parameters (fun key => Iff.rfl) List.nodup_nil with ⟨_, distinct⟩ | found
  · exact absurd distinct again
  · exact found

end Duplicates

-- What is left when parameters are declared one after the other.
section Overriding

variable {own inherited parameters : List ApiContract.Parameter}

theorem declare_eq (p : ApiContract.Parameter) :
    declare parameters p = (parameters.filter fun q => q.identity ≠ p.identity) ++ [p] := by
  unfold declare
  congr 2
  funext q
  rw [Bool.eq_iff_iff]
  simp [ApiContract.Parameter.identity]

-- One step keeps the parameters apart, whatever is declared.
theorem declare_distinct (p : ApiContract.Parameter)
    (distinct : (parameters.map ApiContract.Parameter.identity).Nodup) :
    ((declare parameters p).map ApiContract.Parameter.identity).Nodup := by
  rw [declare_eq]
  refine nodup_map_concat (distinct.sublist (List.filter_sublist.map _)) ?_
  intro again
  obtain ⟨q, kept, equal⟩ := List.mem_map.mp again
  exact of_decide_eq_true (List.mem_filter.mp kept).2 equal

theorem foldl_declare_distinct (own : List ApiContract.Parameter)
    (distinct : (inherited.map ApiContract.Parameter.identity).Nodup) :
    ((own.foldl declare inherited).map ApiContract.Parameter.identity).Nodup := by
  induction own generalizing inherited with
  | nil => exact distinct
  | cons p rest ih => exact ih (declare_distinct p distinct)

-- Of parameters that are apart, none drops another: only what was there before is overridden.
theorem foldl_declare (distinct : (own.map ApiContract.Parameter.identity).Nodup) :
    own.foldl declare inherited =
      (inherited.filter fun p => p.identity ∉ own.map ApiContract.Parameter.identity) ++ own := by
  induction own generalizing inherited with
  | nil => simp
  | cons p rest ih =>
    obtain ⟨fresh, later⟩ := List.nodup_cons.mp distinct
    have own : [p].filter (fun q => q.identity ∉ rest.map ApiContract.Parameter.identity) = [p] :=
      List.filter_eq_self.mpr (List.forall_mem_singleton.mpr (decide_eq_true fresh))
    rw [List.foldl_cons, ih later, declare_eq, List.filter_append, own, List.filter_filter, List.append_assoc]
    refine congrArg (· ++ p :: rest) (List.filter_congr fun q _ => ?_)
    rw [← Bool.decide_and, decide_eq_decide, List.map_cons, List.mem_cons, not_or, and_comm]

end Overriding

-- Lowering keeps apart what the document keeps apart.
section Keys

variable {p : Parameter} {q : ApiContract.Parameter}

theorem lowerParameter_key (made : lowerParameter p = .ok q) : p.key = (q.name, q.location.keyword) := by
  unfold lowerParameter at made
  split at made
  · cases made
  · rename_i location parsed
    obtain ⟨node, _, rfl⟩ := map_ok made
    exact congrArg (Prod.mk p.name) (Location.keyword_of_parse? parsed).symm

theorem key_eq_iff {other : Parameter} {result : ApiContract.Parameter} (made : lowerParameter p = .ok q)
    (also : lowerParameter other = .ok result) : p.key = other.key ↔ q.identity = result.identity := by
  rw [lowerParameter_key made, lowerParameter_key also, Prod.mk.injEq, ApiContract.Parameter.identity,
    ApiContract.Parameter.identity, Prod.mk.injEq]
  exact and_congr_right fun _ => Location.keyword_injective.eq_iff

variable {own : List Parameter} {lowered : List ApiContract.Parameter}

theorem mem_keys_iff (related : List.Forall₂ (fun p q => lowerParameter p = .ok q) own lowered)
    (made : lowerParameter p = .ok q) :
    p.key ∈ own.map Parameter.key ↔ q.identity ∈ lowered.map ApiContract.Parameter.identity := by
  rw [List.mem_map, List.mem_map]
  constructor
  · rintro ⟨other, given, equal⟩
    obtain ⟨result, listed, also⟩ := related_left related given
    exact ⟨result, listed, (key_eq_iff also made).mp equal⟩
  · rintro ⟨result, listed, equal⟩
    obtain ⟨other, given, also⟩ := related_right related listed
    exact ⟨other, given, (key_eq_iff also made).mpr equal⟩

theorem identities_distinct (related : List.Forall₂ (fun p q => lowerParameter p = .ok q) own lowered)
    (distinct : (own.map Parameter.key).Nodup) : (lowered.map ApiContract.Parameter.identity).Nodup := by
  induction related with
  | nil => exact List.nodup_nil
  | cons made rest ih =>
    obtain ⟨fresh, later⟩ := List.nodup_cons.mp distinct
    exact List.nodup_cons.mpr ⟨fun again => fresh ((mem_keys_iff rest made).mpr again), ih later⟩

end Keys

-- Parameters that repeat a key on their level are an error, which names the first of them. Otherwise those
-- of the path that the operation does not declare again come first, then those of the operation, each as it
-- is lowered.
theorem merged_parameters (path : String) (method : Method) (own inherited : List Parameter) :
    (¬ (inherited.map Parameter.key).Nodup → ∃ p, FirstRepeat inherited p ∧
      lowerParameters path method own inherited =
        .error (.document (.duplicateParameter p.location p.name "path-level" method.text path))) ∧
    ((inherited.map Parameter.key).Nodup → ¬ (own.map Parameter.key).Nodup → ∃ p, FirstRepeat own p ∧
      lowerParameters path method own inherited =
        .error (.document (.duplicateParameter p.location p.name "operation-level" method.text path))) ∧
    ((inherited.map Parameter.key).Nodup → (own.map Parameter.key).Nodup →
      (∀ p ∈ inherited ++ own, ∃ q, lowerParameter p = .ok q) →
      ∃ merged, lowerParameters path method own inherited = .ok merged ∧
        List.Forall₂ (fun p q => lowerParameter p = .ok q)
          ((inherited.filter fun p => p.key ∉ own.map Parameter.key) ++ own) merged ∧
        (merged.map ApiContract.Parameter.identity).Nodup) := by
  refine ⟨fun again => ?_, fun distinct again => ?_, fun first second lowers => ?_⟩
  · obtain ⟨p, found, repeated⟩ := duplicate?_repeated again
    refine ⟨p, repeated, ?_⟩
    unfold lowerParameters checkDistinct
    rw [found]
    rfl
  · obtain ⟨p, found, repeated⟩ := duplicate?_repeated again
    refine ⟨p, repeated, ?_⟩
    unfold lowerParameters checkDistinct
    rw [duplicate?_nodup distinct, found]
    rfl
  · obtain ⟨above, madeAbove⟩ := traverse_succeeds fun p given => lowers p (List.mem_append_left _ given)
    obtain ⟨declared, madeDeclared⟩ := traverse_succeeds fun p given => lowers p (List.mem_append_right _ given)
    have aboveRelated := traverse_ok madeAbove
    have declaredRelated := traverse_ok madeDeclared
    refine ⟨declared.foldl declare above, ?_, ?_, ?_⟩
    · unfold lowerParameters checkDistinct
      rw [duplicate?_nodup first, duplicate?_nodup second, madeAbove, madeDeclared]
      rfl
    · rw [foldl_declare (identities_distinct declaredRelated second)]
      refine List.rel_append (List.rel_filter ?_ aboveRelated) declaredRelated
      intro p q made
      simp only [decide_eq_true_eq]
      exact not_congr (mem_keys_iff declaredRelated made)
    · exact foldl_declare_distinct declared (identities_distinct aboveRelated first)

-- A path that takes an identifier and a limit, and an operation that has a limit of its own and one in a
-- header.
def identifierParameter : Parameter := ⟨"id", "path", true, none, none, none, none, none, false⟩
def limitParameter (required : Bool) : Parameter := ⟨"limit", "query", required, none, none, none, none, none, false⟩
def limitHeader : Parameter := ⟨"limit", "header", false, none, none, none, none, none, false⟩

theorem limit_overridden :
    (∃ merged, lowerParameters "/pets" .get [limitParameter true, limitHeader]
        [identifierParameter, limitParameter false] = .ok merged ∧
      List.Forall₂ (fun p q => lowerParameter p = .ok q)
        [identifierParameter, limitParameter true, limitHeader] merged ∧
      (merged.map ApiContract.Parameter.identity).Nodup) ∧
    ∃ p, FirstRepeat [limitHeader, limitHeader] p ∧ lowerParameters "/pets" .get [limitHeader, limitHeader] [] =
      .error (.document (.duplicateParameter p.location p.name "operation-level" "GET" "/pets")) := by
  have lowers : ∀ p ∈ [identifierParameter, limitParameter false] ++ [limitParameter true, limitHeader],
      ∃ q, lowerParameter p = .ok q := by
    simp only [List.cons_append, List.nil_append, List.forall_mem_cons]
    exact ⟨⟨_, rfl⟩, ⟨_, rfl⟩, ⟨_, rfl⟩, ⟨_, rfl⟩, List.forall_mem_nil _⟩
  constructor
  · exact (merged_parameters _ _ _ _).2.2 (by decide) (by decide) lowers
  · exact (merged_parameters _ _ _ _).2.1 (by decide) (by decide)

end Document

end ApiContract
