import ApiContract.Proofs.ValidatorEquality

namespace ApiContract

-- Validators that are found equal cannot be told apart by a fold that ignores the sign of a zero, and the
-- comparison itself is such a fold. So it is an equivalence.

section Comparison

variable {α β : Type} [BEq α]

-- Two elements count as equal exactly if they have the same key.
def ComparesBy (key : α → β) : Prop := ∀ x y, (x == y) = true ↔ key x = key y

theorem ComparesBy.self {key : α → β} (compares : ComparesBy key) (x : α) : (x == x) = true := (compares x x).mpr rfl

theorem ComparesBy.congr {key : α → β} (compares : ComparesBy key) {x y : α} (equal : (x == y) = true) (z : α) :
    (x == z) = (y == z) := by
  rw [Bool.eq_iff_iff, compares, compares, (compares x y).mp equal]

theorem ComparesBy.option {key : α → β} (compares : ComparesBy key) : ComparesBy (Option.map key) := by
  intro x y
  cases x with
  | none => cases y <;> simp
  | some x =>
    cases y with
    | none => simp
    | some y => simpa using compares x y

theorem ComparesBy.list {key : α → β} (compares : ComparesBy key) : ComparesBy (List.map key) := by
  intro xs
  induction xs with
  | nil => intro ys; cases ys <;> simp
  | cons x rest ih =>
    intro ys
    cases ys with
    | nil => simp
    | cons y others => simp [ih others, compares x y]

end Comparison

-- A value without the sign of its zeros.
section Plain

def Double.plain (x : Double) : Double := .exact x.value

theorem Double.comparesBy : ComparesBy Double.plain := by
  intro x y
  rw [Double.beq_iff, plain, plain, exact.injEq]

def Bound.plain (bound : Bound) : Bound := ⟨bound.value.plain, bound.exclusive⟩

theorem Bound.comparesBy : ComparesBy Bound.plain := by
  intro x y
  show (x.value == y.value && x.exclusive == y.exclusive) = true ↔ _
  simp [Double.comparesBy x.value y.value, plain]

def NumberRules.plain (rules : NumberRules) : NumberRules :=
  ⟨rules.integer, rules.min.map Bound.plain, rules.max.map Bound.plain, rules.multipleOf.map Double.plain⟩

theorem NumberRules.comparesBy : ComparesBy NumberRules.plain := by
  intro x y
  show (x.integer == y.integer && x.min == y.min && x.max == y.max && x.multipleOf == y.multipleOf) = true ↔ _
  simp [Bound.comparesBy.option x.min y.min, Bound.comparesBy.option x.max y.max,
    Double.comparesBy.option x.multipleOf y.multipleOf, plain, and_assoc]

def Refinement.plain : Refinement → Refinement
  | range min max => range (min.map Bound.plain) (max.map Bound.plain)
  | refinement => refinement

theorem Refinement.comparesBy : ComparesBy Refinement.plain := by
  intro x y
  show same x y = true ↔ _
  cases x with
  | range min max =>
    cases y with
    | range min' max' => simp [same, plain, Bound.comparesBy.option min min', Bound.comparesBy.option max max']
    | _ => simp [same, plain]
  | _ => cases y <;> simp [same, plain]

def Literal.plain : Literal → Literal
  | number x => number x.plain
  | l => l

theorem Literal.comparesBy : ComparesBy Literal.plain := by
  intro x y
  show same x y = true ↔ _
  cases x with
  | number x =>
    cases y with
    | number y => simp [same, plain, Double.comparesBy x y]
    | _ => simp [same, plain]
  | _ => cases y <;> simp [same, plain]

end Plain

namespace Validator

section EqualFolds

variable {α : Type} {a : Algebra α}

-- The algebra does not tell apart what counts as equal inside a validator.
structure Algebra.Respects (a : Algebra α) : Prop where
  number {rules other : NumberRules} (equal : (rules == other) = true) : a.number rules = a.number other
  literal {l m : Literal} (equal : (l == m) = true) : a.literal l = a.literal m
  refined {refinements others : List Refinement} (equal : (refinements == others) = true) (inner : α) :
    a.refined inner refinements = a.refined inner others

-- Whatever is found equal to the validator has the same fold.
def FoldsAlike (a : Algebra α) (v : Validator) : Prop := ∀ w, same v w = true → fold a v = fold a w

theorem members_fold {vs ws : List Validator} (alike : ∀ v ∈ vs, FoldsAlike a v)
    (equal : pointwise (fun test => test) (vs.map same) ws = true) : vs.map (fold a) = ws.map (fold a) := by
  rw [pointwise_map] at equal
  exact map_related (related_imp (pointwise_related equal) alike) fun _ _ folded => folded

theorem rest_fold {rest others : Option Validator} (alike : ∀ v ∈ rest.toList, FoldsAlike a v)
    (equal : pointwise? (fun test => test) (rest.map same) others = true) : rest.map (fold a) = others.map (fold a) := by
  have related := rel_map_left (pointwise?_related equal)
  cases related with
  | none => rfl
  | some inner => exact congrArg some (alike _ (by simp) _ inner)

theorem fields_fold {fields others : List (Field Validator)} (alike : ∀ v ∈ fields.map Field.validator, FoldsAlike a v)
    (equal : pointwise (fun field other => field.name == other.name && field.validator other.validator
      && field.optional == other.optional) (fields.map (Field.map same)) others = true) :
    fields.map (Field.map (fold a)) = others.map (Field.map (fold a)) := by
  rw [pointwise_map] at equal
  refine map_related (related_imp (pointwise_related equal) ?_) fun _ _ folded => folded
  intro field member other equal
  obtain ⟨named, optional⟩ := (Bool.and_eq_true _ _).mp equal
  obtain ⟨name, validator⟩ := (Bool.and_eq_true _ _).mp named
  have folded := alike _ (List.mem_map_of_mem member) _ validator
  simp only [Field.map, eq_of_beq (show (field.name == other.name) = true from name), folded,
    eq_of_beq (show (field.optional == other.optional) = true from optional)]

theorem arm_fold {arm other : Arm Validator} (alike : ∀ v ∈ arm.validators, FoldsAlike a v)
    (equal : arm.agree same other = true) : arm.map (fold a) = other.map (fold a) := by
  induction arm generalizing other with
  | body v =>
    cases other with
    | body w => exact congrArg Arm.body (alike v List.mem_cons_self w equal)
    | _ => cases equal
  | media cases fallback ih =>
    cases other with
    | media others fallback' =>
      obtain ⟨equalCases, equalFallback⟩ := (Bool.and_eq_true _ _).mp equal
      obtain ⟨inCases, inFallback⟩ := List.forall_mem_append.mp alike
      simp only [Arm.map, Arm.media.injEq]
      refine ⟨map_related (related_imp (pointwise_related equalCases) ?_) fun _ _ folded => folded,
        ih inFallback equalFallback⟩
      intro entry member other equal
      obtain ⟨mediaType, body⟩ := (Bool.and_eq_true _ _).mp equal
      rw [eq_of_beq mediaType, inCases _ (List.mem_map_of_mem member) _ body]
    | _ => cases equal
  | reject field =>
    cases other with
    | reject other => cases eq_of_beq (show (field == other) = true from equal); rfl
    | _ => cases equal

theorem branches_fold {branches others : List (Branch Validator)}
    (alike : ∀ branch ∈ branches, ∀ v ∈ branch.arm.validators, FoldsAlike a v)
    (equal : pointwise (fun branch other => branch.status == other.status
      && branch.arm.agree (fun test => test) other.arm) (branches.map (Branch.map same)) others = true) :
    branches.map (Branch.map (fold a)) = others.map (Branch.map (fold a)) := by
  rw [pointwise_map] at equal
  refine map_related (related_imp (pointwise_related equal) ?_) fun _ _ folded => folded
  intro branch member other equal
  obtain ⟨status, arm⟩ := (Bool.and_eq_true _ _).mp equal
  have agree : branch.arm.agree same other.arm = true := (agree_map same _ _).symm.trans arm
  simp only [Branch.map, arm_fold (alike branch member) agree,
    eq_of_beq (show (branch.status == other.status) = true from status)]

-- One case for each kind of validator, along the parts of the first of the two.
theorem fold_same (respects : a.Respects) (v : Validator) : FoldsAlike a v := by
  induction v using parts_induction with
  | step v ih =>
    intro w equal
    unfold same at equal
    rw [fold_eq] at equal
    rw [fold_eq, fold_eq]
    cases v with
    | unknown | never | boolean | null | binary =>
      cases w with
      | unknown | never | boolean | null | binary => cases equal <;> rfl
      | _ => cases equal
    | string rules =>
      cases w with
      | string other => cases eq_of_beq (show (rules == other) = true from equal); rfl
      | _ => cases equal
    | number rules =>
      cases w with
      | number other => exact respects.number equal
      | _ => cases equal
    | literal l =>
      cases w with
      | literal m => exact respects.literal equal
      | _ => cases equal
    | lazy name =>
      cases w with
      | lazy other => cases eq_of_beq (show (name == other) = true from equal); rfl
      | _ => cases equal
    | union members =>
      cases w with
      | union others => exact congrArg a.union (members_fold ih equal)
      | _ => cases equal
    | intersection members =>
      cases w with
      | intersection others => exact congrArg a.intersection (members_fold ih equal)
      | _ => cases equal
    | array items low high =>
      cases w with
      | array others low' high' =>
        obtain ⟨lower, upper⟩ := (Bool.and_eq_true _ _).mp equal
        obtain ⟨inner, lower⟩ := (Bool.and_eq_true _ _).mp lower
        cases eq_of_beq (show (low == low') = true from lower)
        cases eq_of_beq (show (high == high') = true from upper)
        simp only [ih items List.mem_cons_self others inner]
      | _ => cases equal
    | tuple places rest =>
      cases w with
      | tuple others rest' =>
        obtain ⟨equalPlaces, equalRest⟩ := (Bool.and_eq_true _ _).mp equal
        obtain ⟨inPlaces, inRest⟩ := List.forall_mem_append.mp ih
        simp only [members_fold inPlaces equalPlaces, rest_fold inRest equalRest]
      | _ => cases equal
    | object fields unknownKeys =>
      cases w with
      | object others unknownKeys' =>
        obtain ⟨equalFields, equalKeys⟩ := (Bool.and_eq_true _ _).mp equal
        cases unknownKeys with
        | strict =>
          cases unknownKeys' with
          | strict => simp only [fields_fold ih equalFields, UnknownKeys.map]
          | catchall extra => cases equalKeys
        | catchall extra =>
          obtain ⟨inExtra, inFields⟩ := List.forall_mem_cons.mp ih
          cases unknownKeys' with
          | strict => cases equalKeys
          | catchall other => simp only [fields_fold inFields equalFields, UnknownKeys.map, inExtra other equalKeys]
      | _ => cases equal
    | nullable inner =>
      cases w with
      | nullable other => exact congrArg a.nullable (ih inner List.mem_cons_self other equal)
      | _ => cases equal
    | refined inner refinements =>
      cases w with
      | refined other others =>
        obtain ⟨equalInner, equalRefinements⟩ := (Bool.and_eq_true _ _).mp equal
        simp only [ih inner List.mem_cons_self other equalInner, respects.refined equalRefinements]
      | _ => cases equal
    | dispatch branches fallback =>
      cases w with
      | dispatch others fallback' =>
        obtain ⟨equalBranches, equalFallback⟩ := (Bool.and_eq_true _ _).mp equal
        obtain ⟨inBranches, inFallback⟩ := List.forall_mem_append.mp ih
        have agree : fallback.agree same fallback' = true := (agree_map same _ _).symm.trans equalFallback
        simp only [branches_fold (List.forall_mem_flatMap.mp inBranches) equalBranches, arm_fold inFallback agree]
      | _ => cases equal

end EqualFolds

section Equivalence

-- The comparison with a validator is a fold of it.
theorem same_congr {v w : Validator} (equal : same v w = true) : same v = same w := by
  unfold same
  refine fold_same ⟨?_, ?_, ?_⟩ v w equal
  · intro rules other equal
    funext x
    cases x with
    | number third => exact NumberRules.comparesBy.congr equal third
    | _ => rfl
  · intro l m equal
    funext x
    cases x with
    | literal third => exact Literal.comparesBy.congr equal third
    | _ => rfl
  · intro refinements others equal inner
    funext x
    cases x with
    | refined third given =>
      exact congrArg (inner third && ·) (Refinement.comparesBy.list.congr equal given)
    | _ => rfl

theorem members_self {vs : List Validator} (each : ∀ v ∈ vs, same v v = true) :
    pointwise (fun test => test) (vs.map same) vs = true := by
  rw [pointwise_map]
  exact pointwise_of_related (List.forall₂_same.mpr each)

theorem arm_self {arm : Arm Validator} (each : ∀ v ∈ arm.validators, same v v = true) :
    (arm.map same).agree (fun test => test) arm = true := by
  rw [agree_map]
  induction arm with
  | body v => exact each v List.mem_cons_self
  | media cases fallback ih =>
    obtain ⟨inCases, inFallback⟩ := List.forall_mem_append.mp each
    refine (Bool.and_eq_true _ _).mpr ⟨pointwise_of_related (List.forall₂_same.mpr ?_), ih inFallback⟩
    intro entry member
    simp [inCases entry.2 (List.mem_map_of_mem member)]
  | reject field => exact beq_self_eq_true field

theorem same_self (v : Validator) : same v v = true := by
  induction v using parts_induction with
  | step v ih =>
    unfold same
    rw [fold_eq]
    cases v with
    | unknown | never | boolean | null | binary => rfl
    | string rules => exact beq_self_eq_true rules
    | number rules => exact NumberRules.comparesBy.self rules
    | literal l => exact Literal.comparesBy.self l
    | lazy name => exact beq_self_eq_true name
    | union members => exact members_self ih
    | intersection members => exact members_self ih
    | array items low high =>
      show (same items items && low == low && high == high) = true
      simp [ih items List.mem_cons_self]
    | tuple places rest =>
      obtain ⟨inPlaces, inRest⟩ := List.forall_mem_append.mp ih
      refine (Bool.and_eq_true _ _).mpr ⟨members_self inPlaces, ?_⟩
      cases rest with
      | none => rfl
      | some last => exact inRest last (List.mem_singleton_self _)
    | object fields unknownKeys =>
      refine (Bool.and_eq_true _ _).mpr ⟨?_, ?_⟩
      · rw [pointwise_map]
        refine pointwise_of_related (List.forall₂_same.mpr fun field member => ?_)
        show (field.name == field.name && same field.validator field.validator
          && field.optional == field.optional) = true
        simp [ih _ (field_part member)]
      · cases unknownKeys with
        | strict => rfl
        | catchall extra => exact ih extra List.mem_cons_self
    | nullable inner => exact ih inner List.mem_cons_self
    | refined inner refinements =>
      exact (Bool.and_eq_true _ _).mpr ⟨ih inner List.mem_cons_self, Refinement.comparesBy.list.self refinements⟩
    | dispatch branches fallback =>
      obtain ⟨inBranches, inFallback⟩ := List.forall_mem_append.mp ih
      refine (Bool.and_eq_true _ _).mpr ⟨?_, arm_self inFallback⟩
      rw [pointwise_map]
      refine pointwise_of_related (List.forall₂_same.mpr fun branch member => ?_)
      refine (Bool.and_eq_true _ _).mpr ⟨beq_self_eq_true branch.status, ?_⟩
      exact arm_self (List.forall_mem_flatMap.mp inBranches branch member)

instance : EquivBEq Validator where
  rfl := same_self _
  symm {v w} equal := by
    show same w v = true
    rw [← same_congr equal]
    exact same_self v
  trans {v w u} first second := by
    show same v u = true
    rw [same_congr first]
    exact second

end Equivalence

end Validator

end ApiContract
