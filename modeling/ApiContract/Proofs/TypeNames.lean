import ApiContract.Proofs.HereditaryTypes

namespace ApiContract.TypeExpr

-- The names in a type, position by position. Putting unions and intersections into canonical form may
-- lose a name but never makes one up.

section Mentions

inductive Mentions (name : String) : TypeExpr → Prop where
  | here : Mentions name (reference name)
  | inside {type part : TypeExpr} (member : part ∈ type.parts) (mentioned : Mentions name part) :
      Mentions name type

theorem mem_occurrences_iff {type : TypeExpr} {name : String} :
    name ∈ type.occurrences ↔ type = reference name ∨ ∃ part ∈ type.parts, name ∈ part.occurrences := by
  unfold occurrences
  rw [fold_eq]
  cases type with
  | primitive p => simp [parts]
  | literal l => simp [parts]
  | reference other => simp [parts, eq_comm]
  | union members => simp [parts]
  | intersection members => simp [parts]
  | record members =>
    have flat : (members.map (Member.map occurrences)).flatMap (fun member => member.types.flatten)
        = (members.flatMap Member.types).flatMap occurrences := by
      rw [List.flatMap_map, List.flatMap_assoc]
      simp only [types_map, List.flatMap_def]
    show name ∈ (members.map (Member.map occurrences)).flatMap (fun member => member.types.flatten) ↔ _
    rw [flat, List.mem_flatMap]
    simp [parts, occurrences]
  | array items => simp [parts]
  | tuple places rest => cases rest <;> simp [parts]

theorem mem_occurrences {type : TypeExpr} {name : String} :
    name ∈ type.occurrences ↔ Mentions name type := by
  constructor
  · induction type using parts_induction with
    | step type ih =>
      intro occurs
      rcases mem_occurrences_iff.mp occurs with rfl | ⟨part, member, occurs⟩
      · exact .here
      · exact .inside member (ih part member occurs)
  · intro mentioned
    induction mentioned with
    | here => exact mem_occurrences_iff.mpr (.inl rfl)
    | inside member _ ih => exact mem_occurrences_iff.mpr (.inr ⟨_, member, ih⟩)

theorem mem_references {type : TypeExpr} {name : String} : name ∈ type.references ↔ Mentions name type :=
  mem_distinct.trans mem_occurrences

end Mentions

-- Every name in the type has the property.
def NamesIn (P : String → Prop) (type : TypeExpr) : Prop := ∀ name, Mentions name type → P name

section NamesIn

variable {P : String → Prop}

theorem forall_references {type : TypeExpr} : (∀ name ∈ type.references, P name) ↔ NamesIn P type :=
  forall_congr' fun _ => imp_congr_left mem_references

theorem namesIn_reference {name : String} (holds : P name) : NamesIn P (reference name) := by
  intro other mentioned
  cases mentioned with
  | here => exact holds
  | inside member => cases member

theorem namesIn_parts {type : TypeExpr} (composite : ∀ name, type ≠ reference name) :
    NamesIn P type ↔ ∀ part ∈ type.parts, NamesIn P part := by
  constructor
  · intro all part member name mentioned
    exact all name (.inside member mentioned)
  · intro each name mentioned
    cases mentioned with
    | here => exact absurd rfl (composite name)
    | inside member mentioned => exact each _ member name mentioned

theorem hereditary_namesIn (P : String → Prop) : Hereditary (NamesIn P) := by
  intro type ordinary
  refine namesIn_parts fun name equal => ?_
  rw [equal] at ordinary
  exact ordinary

theorem namesIn_primitive (p : Primitive) : NamesIn P (primitive p) := (hereditary_namesIn P).primitive p

theorem namesIn_literal (l : Literal) : NamesIn P (literal l) := (hereditary_namesIn P).literal l

theorem namesIn_union {members : List TypeExpr} :
    NamesIn P (union members) ↔ ∀ member ∈ members, NamesIn P member := (hereditary_namesIn P).union

theorem namesIn_object {ps : List (Property TypeExpr)} :
    NamesIn P (object ps) ↔ ∀ p ∈ ps, NamesIn P p.type := (hereditary_namesIn P).object

end NamesIn

-- Every type of the list keeps to the property.
def AllNamesIn (P : String → Prop) (types : List TypeExpr) : Prop := ∀ type ∈ types, NamesIn P type

section Canonical

variable {P : String → Prop} {types : List TypeExpr}

theorem allNamesIn_cons {type : TypeExpr} :
    AllNamesIn P (type :: types) ↔ NamesIn P type ∧ AllNamesIn P types := List.forall_mem_cons

theorem allNamesIn_pair {a b : TypeExpr} (first : NamesIn P a) (second : NamesIn P b) :
    AllNamesIn P [a, b] := forall_pair first second

theorem unionOf_namesIn (all : AllNamesIn P types) : NamesIn P (unionOf types) := (hereditary_namesIn P).unionOf all

end Canonical

end ApiContract.TypeExpr
