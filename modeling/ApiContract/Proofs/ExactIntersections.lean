import ApiContract.Proofs.StructuralMeaning

namespace ApiContract.TypeExpr

-- The canonical intersection holds of nothing that some member does not hold of. A merge of object types
-- drops no property: it puts a property in the place of two that both hold wherever it does. Index
-- signatures are read for every key, since flattening could otherwise free keys that they were asked of.

variable {r : Reading} {v : Json}

section Merging

variable {meet : TypeExpr → TypeExpr → TypeExpr}

-- A value of the meet is a value of both types.
def Splits (r : Reading) (meet : TypeExpr → TypeExpr → TypeExpr) : Prop :=
  ∀ a b w, Inhabits r [] (meet a b) w → Inhabits r [] a w ∧ Inhabits r [] b w

-- The combined property is required if either one is.
theorem meetProperty_splits (splits : Splits r meet) {p q : Property TypeExpr} (name : p.name = q.name)
    (holds : PropertyHolds r (meetProperty meet p q) v) : PropertyHolds r p v ∧ PropertyHolds r q v := by
  constructor
  · refine ⟨holds.shaped, ?_, ?_⟩
    · intro required
      apply holds.required
      simp [meetProperty, required]
    · intro x found
      exact (splits _ _ _ (holds.present x found)).1
  · refine ⟨holds.shaped, ?_, ?_⟩
    · intro required
      rw [← name]
      apply holds.required
      simp [meetProperty, required]
    · intro x found
      rw [← name] at found
      exact (splits _ _ _ (holds.present x found)).2

theorem addProperty_splits (splits : Splits r meet) {q : Property TypeExpr} {ps : List (Property TypeExpr)}
    (all : AllHold r v (addProperty meet q ps)) : AllHold r v ps ∧ PropertyHolds r q v := by
  induction ps with
  | nil => exact ⟨List.forall_mem_nil _, all q List.mem_cons_self⟩
  | cons p rest ih =>
    unfold addProperty at all
    split at all
    · rename_i name
      obtain ⟨here, later⟩ := List.forall_mem_cons.mp all
      obtain ⟨first, second⟩ := meetProperty_splits splits (eq_of_beq name) here
      exact ⟨List.forall_mem_cons.mpr ⟨first, later⟩, second⟩
    · obtain ⟨here, later⟩ := List.forall_mem_cons.mp all
      obtain ⟨others, second⟩ := ih later
      exact ⟨List.forall_mem_cons.mpr ⟨here, others⟩, second⟩

theorem addProperties_splits (splits : Splits r meet) {ps qs : List (Property TypeExpr)}
    (all : AllHold r v (addProperties meet ps qs)) : AllHold r v ps ∧ AllHold r v qs := by
  unfold addProperties at all
  induction qs generalizing ps with
  | nil => exact ⟨all, List.forall_mem_nil _⟩
  | cons q rest ih =>
    obtain ⟨first, later⟩ := ih all
    obtain ⟨old, new⟩ := addProperty_splits splits first
    exact ⟨old, List.forall_mem_cons.mpr ⟨new, later⟩⟩

theorem gathered_splits (splits : Splits r meet) {ps : List (Property TypeExpr)}
    {groups : List (List (Property TypeExpr))} (all : AllHold r v (groups.foldl (addProperties meet) ps)) :
    AllHold r v ps ∧ ∀ qs ∈ groups, AllHold r v qs := by
  induction groups generalizing ps with
  | nil => exact ⟨all, List.forall_mem_nil _⟩
  | cons qs rest ih =>
    obtain ⟨first, later⟩ := ih all
    obtain ⟨old, new⟩ := addProperties_splits splits first
    exact ⟨old, List.forall_mem_cons.mpr ⟨new, later⟩⟩

-- An object type with properties only is gathered into the first one, any other type stays.
theorem meets_of_gatherProperties (splits : Splits r meet) {types : List TypeExpr}
    (meets : Meets r v [] (gatherProperties meet types)) : Meets r v [] types := by
  induction types with
  | nil => exact meets
  | cons type rest ih =>
    unfold gatherProperties at meets
    split at meets
    · obtain ⟨here, later⟩ := List.forall_mem_cons.mp meets
      exact List.forall_mem_cons.mpr ⟨here, ih later⟩
    · rename_i ps properties
      obtain ⟨gathered, others⟩ := List.forall_mem_cons.mp meets
      obtain ⟨first, groups⟩ := gathered_splits splits (inhabits_object.mp gathered)
      intro other member
      rcases List.mem_cons.mp member with rfl | member
      · rw [properties?_eq properties]
        exact inhabits_object.mpr first
      · cases found : other.properties? with
        | none => exact others other (List.mem_filter.mpr ⟨member, by simp [found]⟩)
        | some qs =>
          rw [properties?_eq found]
          exact inhabits_object.mpr (groups qs (List.mem_filterMap.mpr ⟨other, member, found⟩))

end Merging

section Steps

variable {types : List TypeExpr}

-- A type that a repetition stands for holds wherever the repeated one does.
theorem meets_of_distinct (meets : Meets r v [] (distinct types)) : Meets r v [] types := by
  intro type member
  by_contra fails
  obtain ⟨kept, inside, missing⟩ := exists_mem_distinct (P := fun kept => ¬ Inhabits r [] kept v)
    (fun _ _ equal missing holds => missing (inhabits_same (same_symm equal) holds)) ⟨type, member, fails⟩
  exact missing (meets kept inside)

-- What is dropped asks nothing.
theorem meets_of_keptOperands (meets : Meets r v [] (keptOperands types)) :
    Meets r v [] (intersectionPartsAll types) := by
  have kept := meets_of_distinct meets
  intro type member
  by_cases asks : (type != unknown && type != emptyObject) = true
  · exact kept type (List.mem_filter.mpr ⟨member, asks⟩)
  · have either : same type unknown = true ∨ same type emptyObject = true := by
      by_contra neither
      apply asks
      simpa [bne, BEq.beq] using neither
    rcases either with equal | equal
    · rw [same_primitive equal]
      exact .primitive trivial
    · rw [same_emptyObject equal]
      exact inhabits_emptyObject

variable (plain : r.exempting = false)

include plain

theorem exempt_plain (types : List TypeExpr) : r.exempt types = [] := by
  simp [Reading.exempt, plain]

theorem inhabits_of_intersectionParts {type : TypeExpr} (meets : Meets r v [] (intersectionParts type)) :
    Inhabits r [] type v := by
  induction type using parts_induction with
  | step type ih =>
    cases type with
    | intersection members =>
      rw [intersectionParts, intersectionPartsAll_eq] at meets
      apply Inhabits.intersection
      intro member inside
      rw [exempt_plain plain]
      apply ih member inside
      intro part among
      exact meets part (List.mem_flatMap.mpr ⟨member, inside, among⟩)
    | _ => exact meets _ (List.mem_singleton_self _)

theorem meets_of_intersectionPartsAll (meets : Meets r v [] (intersectionPartsAll types)) : Meets r v [] types := by
  rw [intersectionPartsAll_eq] at meets
  intro type member
  apply inhabits_of_intersectionParts plain
  intro part among
  exact meets part (List.mem_flatMap.mpr ⟨type, member, among⟩)

theorem meets_of_intersectionOfParts {sawUnknown : Bool}
    (inhabited : Inhabits r [] (intersectionOfParts sawUnknown types) v) : Meets r v [] types := by
  unfold intersectionOfParts at inhabited
  split at inhabited
  · exact List.forall_mem_nil _
  · exact List.forall_mem_singleton.mpr inhabited
  · cases inhabited with
    | intersection all =>
      rw [exempt_plain plain] at all
      exact all

theorem meets_of_intersectionWith {meet : TypeExpr → TypeExpr → TypeExpr} (splits : Splits r meet)
    (inhabited : Inhabits r [] (intersectionWith meet types) v) : Meets r v [] types := by
  rw [intersectionWith_eq] at inhabited
  split at inhabited
  · exact absurd inhabited not_inhabits_never
  · have gathered := meets_of_distinct (meets_of_intersectionOfParts plain inhabited)
    have kept := meets_of_gatherProperties splits gathered
    exact meets_of_intersectionPartsAll plain (meets_of_keptOperands kept)

theorem meets_of_intersectionAt (level : Nat) (inhabited : Inhabits r [] (intersectionAt level types) v) :
    Meets r v [] types := by
  have pair {a b : TypeExpr} {w : Json} (meets : Meets r w [] [a, b]) : Inhabits r [] a w ∧ Inhabits r [] b w :=
    ⟨meets a List.mem_cons_self, meets b (by simp)⟩
  induction level generalizing v types with
  | zero =>
    apply meets_of_intersectionWith plain _ inhabited
    intro a b w held
    cases held with
    | intersection all =>
      rw [exempt_plain plain] at all
      exact pair all
  | succ level ih =>
    apply meets_of_intersectionWith plain _ inhabited
    intro a b w held
    exact pair (ih held)

end Steps

-- The canonical intersection is the intersection of the sets of its members.
theorem Interpretation.holds_intersectionOf (i : Interpretation) (types : List TypeExpr) (v : Json) :
    i.Holds (intersectionOf types) v ↔ ∀ type ∈ types, i.Holds type v := by
  rw [holds_iff_inhabits]
  constructor
  · intro inhabited type member
    exact (holds_iff_inhabits type).mpr (meets_of_intersectionAt rfl _ inhabited type member)
  · intro all
    apply intersectionOf_inhabits
    rw [← holds_iff_inhabits, holds_intersection]
    exact all

end ApiContract.TypeExpr
