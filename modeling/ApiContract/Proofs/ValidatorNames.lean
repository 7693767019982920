import ApiContract.Proofs.ResponseLookup
import ApiContract.Proofs.ValidatorEquality
import ApiContract.Validator.Dispatch

namespace ApiContract.Validator

-- The names in a validator, position by position, and what becomes of them where validators are put
-- together.

section Mentions

inductive Mentions (name : String) : Validator → Prop where
  | here : Mentions name (lazy name)
  | inside {v part : Validator} (member : part ∈ v.parts) (mentioned : Mentions name part) :
      Mentions name v

theorem validators_map {V W : Type} (f : V → W) (arm : Arm V) :
    (arm.map f).validators = arm.validators.map f := by
  induction arm with
  | body v => rfl
  | media cases fallback ih => simp [Arm.map, Arm.validators, ih]
  | reject field => rfl

theorem mem_occurrences_iff {v : Validator} {name : String} :
    name ∈ v.occurrences ↔ v = lazy name ∨ ∃ part ∈ v.parts, name ∈ part.occurrences := by
  unfold occurrences
  rw [fold_eq]
  cases v with
  | lazy other => simp [parts, eq_comm]
  | tuple places rest => cases rest <;> simp [parts]
  | object fields unknownKeys => cases unknownKeys <;> simp [parts, UnknownKeys.map, Field.map, or_comm]
  | dispatch branches fallback =>
    have flat : (branches.map (Branch.map occurrences)).flatMap (fun branch => branch.arm.validators.flatten)
        ++ (fallback.map occurrences).validators.flatten
          = (dispatch branches fallback).parts.flatMap occurrences := by
      rw [parts, List.flatMap_append, List.flatMap_assoc, List.flatMap_map]
      simp only [Branch.map, validators_map, List.flatMap_def]
    show name ∈ (branches.map (Branch.map occurrences)).flatMap (fun branch => branch.arm.validators.flatten)
      ++ (fallback.map occurrences).validators.flatten ↔ _
    rw [flat, List.mem_flatMap]
    simp [occurrences]
  | _ => simp [parts]

theorem mem_occurrences {v : Validator} {name : String} : name ∈ v.occurrences ↔ Mentions name v := by
  constructor
  · induction v using parts_induction with
    | step v ih =>
      intro occurs
      rcases mem_occurrences_iff.mp occurs with rfl | ⟨part, member, occurs⟩
      · exact .here
      · exact .inside member (ih part member occurs)
  · intro mentioned
    induction mentioned with
    | here => exact mem_occurrences_iff.mpr (.inl rfl)
    | inside member _ ih => exact mem_occurrences_iff.mpr (.inr ⟨_, member, ih⟩)

theorem mem_references {v : Validator} {name : String} : name ∈ v.references ↔ Mentions name v :=
  mem_distinct.trans mem_occurrences

end Mentions

-- Every name in the validator has the property.
def NamesIn (P : String → Prop) (v : Validator) : Prop := ∀ name, Mentions name v → P name

section NamesIn

variable {P : String → Prop}

theorem forall_references {v : Validator} : (∀ name ∈ v.references, P name) ↔ NamesIn P v :=
  forall_congr' fun _ => imp_congr_left mem_references

theorem namesIn_lazy {name : String} (holds : P name) : NamesIn P (lazy name) := by
  intro other mentioned
  cases mentioned with
  | here => exact holds
  | inside member => cases member

theorem namesIn_parts {v : Validator} (composite : ∀ name, v ≠ lazy name) :
    NamesIn P v ↔ ∀ part ∈ v.parts, NamesIn P part := by
  constructor
  · intro all part member name mentioned
    exact all name (.inside member mentioned)
  · intro each name mentioned
    cases mentioned with
    | here => exact absurd rfl (composite name)
    | inside member mentioned => exact each _ member name mentioned

theorem namesIn_leaf {v : Validator} (composite : ∀ name, v ≠ lazy name) (leaf : v.parts = []) :
    NamesIn P v := by
  rw [namesIn_parts composite, leaf]
  exact List.forall_mem_nil _

theorem namesIn_union {members : List Validator} :
    NamesIn P (union members) ↔ ∀ member ∈ members, NamesIn P member := namesIn_parts (by simp)

theorem namesIn_intersection {members : List Validator} :
    NamesIn P (intersection members) ↔ ∀ member ∈ members, NamesIn P member := namesIn_parts (by simp)

theorem namesIn_array {items : Validator} {low high : Option Nat} :
    NamesIn P (array items low high) ↔ NamesIn P items :=
  (namesIn_parts (by simp)).trans List.forall_mem_singleton

theorem namesIn_nullable {inner : Validator} : NamesIn P (nullable inner) ↔ NamesIn P inner :=
  (namesIn_parts (by simp)).trans List.forall_mem_singleton

theorem namesIn_refined {inner : Validator} {refinements : List Refinement} :
    NamesIn P (refined inner refinements) ↔ NamesIn P inner :=
  (namesIn_parts (by simp)).trans List.forall_mem_singleton

theorem namesIn_tuple {places : List Validator} {rest : Option Validator} :
    NamesIn P (tuple places rest) ↔
      (∀ place ∈ places, NamesIn P place) ∧ ∀ last, rest = some last → NamesIn P last := by
  rw [namesIn_parts (by simp)]
  show (∀ part ∈ places ++ rest.toList, _) ↔ _
  rw [List.forall_mem_append]
  exact and_congr_right fun _ => by simp

theorem namesIn_object {fields : List (Field Validator)} {unknownKeys : UnknownKeys Validator}
    (declared : ∀ field ∈ fields, NamesIn P field.validator)
    (others : ∀ rest, unknownKeys = .catchall rest → NamesIn P rest) :
    NamesIn P (object fields unknownKeys) := by
  have named : ∀ v ∈ fields.map Field.validator, NamesIn P v := List.forall_mem_map.mpr declared
  rw [namesIn_parts (by simp)]
  cases unknownKeys with
  | strict => exact named
  | catchall rest => exact List.forall_mem_cons.mpr ⟨others rest rfl, named⟩

theorem namesIn_dispatch {branches : List (Branch Validator)} {fallback : Arm Validator}
    (each : ∀ branch ∈ branches, ∀ v ∈ branch.arm.validators, NamesIn P v)
    (last : ∀ v ∈ fallback.validators, NamesIn P v) : NamesIn P (dispatch branches fallback) := by
  refine (namesIn_parts (by simp)).mpr ?_
  exact List.forall_mem_append.mpr ⟨List.forall_mem_flatMap.mpr each, last⟩

end NamesIn

section Constructors

variable {P : String → Prop} {vs : List Validator}

theorem unionOf_namesIn (all : ∀ v ∈ vs, NamesIn P v) : NamesIn P (unionOf vs) := by
  have flat : ∀ v ∈ distinct (vs.flatMap unionParts), NamesIn P v := by
    intro part member
    obtain ⟨v, inside, member⟩ := List.mem_flatMap.mp (distinct_subset member)
    have named := all v inside
    unfold unionParts at member
    split at member
    · exact namesIn_union.mp named part member
    · rwa [List.mem_singleton.mp member]
  unfold unionOf
  split
  · exact namesIn_leaf (by simp) rfl
  · rename_i v single
    exact flat v (single ▸ List.mem_singleton_self v)
  · exact namesIn_union.mpr flat

theorem intersectionOf_namesIn (all : ∀ v ∈ vs, NamesIn P v) : NamesIn P (intersectionOf vs) := by
  have flat : ∀ v ∈ distinct (vs.flatMap intersectionParts), NamesIn P v := by
    intro part member
    obtain ⟨v, inside, member⟩ := List.mem_flatMap.mp (distinct_subset member)
    have named := all v inside
    unfold intersectionParts at member
    split at member
    · exact namesIn_intersection.mp named part member
    · cases member
    · rwa [List.mem_singleton.mp member]
  unfold intersectionOf
  split
  · exact namesIn_leaf (by simp) rfl
  · rename_i v single
    exact flat v (single ▸ List.mem_singleton_self v)
  · exact namesIn_intersection.mpr flat

theorem refine_namesIn (refinements : List Refinement) {v : Validator} (named : NamesIn P v) :
    NamesIn P (v.refine refinements) := by
  unfold Validator.refine
  split
  · exact named
  · split
    · exact namesIn_refined.mpr (namesIn_refined.mp named)
    · exact namesIn_refined.mpr named

theorem orNull_namesIn {v : Validator} (named : NamesIn P v) : NamesIn P v.orNull := by
  unfold orNull
  split
  · exact named
  · exact named
  · exact named
  · exact namesIn_nullable.mpr named

end Constructors

section Responses

variable {P : String → Prop}

def MediaNamesIn (P : String → Prop) (media : MediaTable) : Prop :=
  ∀ entry ∈ media, NamesIn P (bodyOf entry.2)

def TableNamesIn (P : String → Prop) (responses : ResponseTable) : Prop :=
  ∀ entry ∈ responses, MediaNamesIn P entry.2

theorem mediaArm_namesIn {media : MediaTable} (all : MediaNamesIn P media) :
    ∀ v ∈ (mediaArm media).validators, NamesIn P v := by
  have fallback : ∀ v ∈ (ruleArm (media.lookup MediaType.wildcard)).validators, NamesIn P v := by
    cases found : media.lookup MediaType.wildcard with
    | none => exact List.forall_mem_nil _
    | some body => exact List.forall_mem_singleton.mpr (all _ (lookup_mem found))
  have cases (arm : Arm Validator) : ∀ case ∈ mediaCases arm media, NamesIn P case.2 := by
    intro case member
    obtain ⟨entry, kept, made⟩ := List.mem_filterMap.mp member
    dsimp only at made
    split at made
    · cases made
    · cases made
      exact all entry (List.mem_of_mem_filter kept)
  by_cases listed : media = []
  · rw [listed]
    exact List.forall_mem_singleton.mpr (namesIn_leaf (by simp) rfl)
  · rw [mediaArm_eq listed]
    split
    · exact fallback
    · exact List.forall_mem_append.mpr ⟨List.forall_mem_map.mpr (cases _), fallback⟩

theorem fallbackArm_namesIn {responses : ResponseTable} (all : TableNamesIn P responses) :
    ∀ v ∈ (fallbackArm responses).validators, NamesIn P v := by
  unfold fallbackArm
  split
  · rename_i media found
    exact mediaArm_namesIn (all _ (lookup_mem found))
  · exact List.forall_mem_nil _

theorem branch_arm {responses : ResponseTable} {branch : Branch Validator}
    (member : branch ∈ codeBranches responses ++ rangeBranches responses) :
    ∃ entry ∈ responses, branch.arm = mediaArm entry.2 := by
  rcases List.mem_append.mp member with code | range
  · obtain ⟨entry, inside, made⟩ := List.mem_filterMap.mp code
    refine ⟨entry, inside, ?_⟩
    split at made
    · dsimp only at made
      split at made
      · cases made
      · cases made
        rfl
    · cases made
  · obtain ⟨entry, inside, made⟩ := List.mem_filterMap.mp range
    refine ⟨entry, inside, ?_⟩
    split at made
    · dsimp only at made
      split at made
      · cases made
      · cases made
        rfl
    · cases made

theorem statusValidator_namesIn (status : Status) : NamesIn P (statusValidator status) := by
  cases status <;> exact namesIn_leaf (by simp [statusValidator]) rfl

theorem envelope_namesIn (status : Status) (mediaType : String) {body : Option Validator}
    (named : NamesIn P (bodyOf body)) : NamesIn P (envelope status mediaType body) := by
  have mediaNamed : NamesIn P
      (if mediaType = MediaType.wildcard then string {} else literal (.string mediaType)) := by
    split <;> exact namesIn_leaf (by simp) rfl
  refine namesIn_object ?_ ?_
  · exact List.forall_mem_cons.mpr ⟨statusValidator_namesIn status,
      List.forall_mem_cons.mpr ⟨mediaNamed, List.forall_mem_singleton.mpr named⟩⟩
  · intro rest equal
    cases equal
    exact namesIn_leaf (by simp) rfl

theorem ofResponses_namesIn {responses : ResponseTable} (all : TableNamesIn P responses) :
    NamesIn P (ofResponses responses) := by
  unfold ofResponses
  split
  · rename_i status mediaType body
    exact envelope_namesIn status mediaType (all _ List.mem_cons_self _ List.mem_cons_self)
  · split
    · exact namesIn_leaf (by simp) rfl
    · refine namesIn_dispatch ?_ (fallbackArm_namesIn all)
      intro branch member
      obtain ⟨entry, inside, equal⟩ := branch_arm member
      rw [equal]
      exact mediaArm_namesIn (all entry inside)

end Responses

end ApiContract.Validator
