import ApiContract.Proofs.Outcomes

namespace ApiContract.Validator

-- Validators that are found equal differ at most in the sign of a zero. No check depends on that
-- sign; only a message can show it. So equal validators report issues in the same places.

section Parts

theorem sizeOf_arm {arm : Arm Validator} {v : Validator} (member : v ∈ arm.validators) :
    sizeOf v < sizeOf arm := by
  induction arm with
  | body w =>
    cases List.mem_singleton.mp member
    simp only [Arm.body.sizeOf_spec]
    omega
  | media cases fallback ih =>
    rcases List.mem_append.mp member with inCase | inFallback
    · obtain ⟨entry, inside, rfl⟩ := List.mem_map.mp inCase
      have smaller := List.sizeOf_lt_of_mem inside
      have second : sizeOf entry.2 < sizeOf entry := by
        cases entry
        simp only [Prod.mk.sizeOf_spec]
        omega
      simp only [Arm.media.sizeOf_spec]
      omega
    · have smaller := ih inFallback
      simp only [Arm.media.sizeOf_spec]
      omega
  | reject field => cases member

-- The validators that stand directly inside a validator.
def parts : Validator → List Validator
  | union members => members
  | intersection members => members
  | array items _ _ => [items]
  | tuple places rest => places ++ rest.toList
  | object fields .strict => fields.map Field.validator
  | object fields (.catchall v) => v :: fields.map Field.validator
  | nullable inner => [inner]
  | refined inner _ => [inner]
  | dispatch branches fallback =>
    (branches.flatMap fun branch => branch.arm.validators) ++ fallback.validators
  | _ => []

theorem field_part {fields : List (Field Validator)} {unknownKeys : UnknownKeys Validator} {field : Field Validator}
    (member : field ∈ fields) : field.validator ∈ (object fields unknownKeys).parts := by
  have listed := List.mem_map_of_mem (f := Field.validator) member
  cases unknownKeys with
  | strict => exact listed
  | catchall rest => exact List.mem_cons_of_mem rest listed

theorem sizeOf_field {fields : List (Field Validator)} {v : Validator}
    (member : v ∈ fields.map Field.validator) : sizeOf v < sizeOf fields := by
  obtain ⟨field, inside, rfl⟩ := List.mem_map.mp member
  have smaller := List.sizeOf_lt_of_mem inside
  have second : sizeOf field.validator < sizeOf field := by
    cases field
    simp only [Field.mk.sizeOf_spec]
    omega
  omega

theorem sizeOf_part {v part : Validator} (member : part ∈ v.parts) : sizeOf part < sizeOf v := by
  cases v with
  | union members =>
    have smaller := List.sizeOf_lt_of_mem (show part ∈ members from member)
    simp only [union.sizeOf_spec]
    omega
  | intersection members =>
    have smaller := List.sizeOf_lt_of_mem (show part ∈ members from member)
    simp only [intersection.sizeOf_spec]
    omega
  | array items low high =>
    cases List.mem_singleton.mp member
    simp only [array.sizeOf_spec]
    omega
  | tuple places rest =>
    rcases List.mem_append.mp member with inPlaces | inRest
    · have smaller := List.sizeOf_lt_of_mem inPlaces
      simp only [tuple.sizeOf_spec]
      omega
    · cases Option.mem_toList.mp inRest
      simp only [tuple.sizeOf_spec, Option.some.sizeOf_spec]
      omega
  | object fields unknownKeys =>
    cases unknownKeys with
    | strict =>
      have smaller := sizeOf_field member
      simp only [object.sizeOf_spec]
      omega
    | catchall v =>
      rcases List.mem_cons.mp member with rfl | inFields
      · simp only [object.sizeOf_spec, UnknownKeys.catchall.sizeOf_spec]
        omega
      · have smaller := sizeOf_field inFields
        simp only [object.sizeOf_spec, UnknownKeys.catchall.sizeOf_spec]
        omega
  | nullable inner =>
    cases List.mem_singleton.mp member
    simp only [nullable.sizeOf_spec]
    omega
  | refined inner refinements =>
    cases List.mem_singleton.mp member
    simp only [refined.sizeOf_spec]
    omega
  | dispatch branches fallback =>
    rcases List.mem_append.mp member with inBranches | inFallback
    · obtain ⟨branch, inside, inArm⟩ := List.mem_flatMap.mp inBranches
      have smaller := List.sizeOf_lt_of_mem inside
      have second : sizeOf branch.arm < sizeOf branch := by
        cases branch
        simp only [Branch.mk.sizeOf_spec]
        omega
      have third := sizeOf_arm inArm
      simp only [dispatch.sizeOf_spec]
      omega
    · have smaller := sizeOf_arm inFallback
      simp only [dispatch.sizeOf_spec]
      omega
  | _ => cases member

theorem parts_induction {P : Validator → Prop} (step : ∀ v, (∀ part ∈ v.parts, P part) → P v)
    (v : Validator) : P v :=
  step v fun part _member => parts_induction step part
termination_by sizeOf v
decreasing_by exact sizeOf_part _member

end Parts

section Congruence

-- Two checks that report issues in the same places of every value.
def Alike (check other : Check) : Prop :=
  ∀ value, Outcome.paths (check value) = Outcome.paths (other value)

theorem checkArray_alike {check other : Check} (items : Alike check other) (low high : Option Nat) :
    Alike (checkArray check low high) (checkArray other low high) := by
  intro value
  cases value with
  | array elements =>
    apply Outcome.both_paths rfl
    apply Outcome.allOf_paths
    exact List.forall₂_same.mpr fun entry _ => Outcome.within_paths (items entry.1)
  | _ => rfl

theorem placeCheck_alike {places places' : List Check} {rest rest' : Option Check}
    (samePlaces : List.Forall₂ Alike places places') (sameRest : Option.Rel Alike rest rest') (n : Nat) :
    Alike (placeCheck places rest n) (placeCheck places' rest' n) := by
  have here := rel_or (related_getElem? samePlaces n) sameRest
  intro value
  unfold placeCheck
  generalize (places[n]?).or rest = first at here ⊢
  generalize (places'[n]?).or rest' = second at here ⊢
  cases here with
  | some alike => exact alike value
  | none => rfl

theorem checkTuple_alike {places places' : List Check} {rest rest' : Option Check}
    (samePlaces : List.Forall₂ Alike places places') (sameRest : Option.Rel Alike rest rest') :
    Alike (checkTuple places rest) (checkTuple places' rest') := by
  intro value
  have ends : rest.isNone = rest'.isNone := by cases sameRest <;> rfl
  cases value with
  | array elements =>
    unfold checkTuple
    rw [samePlaces.length_eq, ends]
    apply Outcome.both_paths rfl
    apply Outcome.allOf_paths
    refine List.forall₂_same.mpr fun entry _ => Outcome.within_paths ?_
    exact placeCheck_alike samePlaces sameRest entry.2 entry.1
  | _ => rfl

def FieldAlike (field other : Field Check) : Prop :=
  field.name = other.name ∧ field.optional = other.optional ∧ Alike field.validator other.validator

def UnknownKeysAlike : UnknownKeys Check → UnknownKeys Check → Prop
  | .strict, .strict => True
  | .catchall check, .catchall other => Alike check other
  | _, _ => False

theorem checkField_alike {field other : Field Check} (alike : FieldAlike field other)
    (fields : List (String × Json)) :
    Outcome.paths (checkField fields field) = Outcome.paths (checkField fields other) := by
  obtain ⟨name, optional, validator⟩ := alike
  unfold checkField
  rw [name, optional]
  split
  · exact Outcome.within_paths (validator _)
  · rfl

theorem checkExtra_alike {unknownKeys other : UnknownKeys Check}
    (alike : UnknownKeysAlike unknownKeys other) (extra : List (String × Json)) :
    Outcome.paths (checkExtra extra unknownKeys) = Outcome.paths (checkExtra extra other) := by
  cases unknownKeys with
  | strict =>
    cases other with
    | strict => rfl
    | catchall check => exact alike.elim
  | catchall check =>
    cases other with
    | strict => exact alike.elim
    | catchall check' =>
      apply Outcome.allOf_paths
      exact List.forall₂_same.mpr fun field _ => Outcome.within_paths (alike field.2)

theorem declared_alike {declared others : List (Field Check)}
    (alike : List.Forall₂ FieldAlike declared others) (key : String) :
    (declared.any fun d => d.name == key) = others.any fun d => d.name == key := by
  induction alike with
  | nil => rfl
  | cons first _ ih => simp only [List.any_cons, first.1, ih]

theorem checkObject_alike {declared others : List (Field Check)} {unknownKeys unknownKeys' : UnknownKeys Check}
    (alike : List.Forall₂ FieldAlike declared others)
    (extra : UnknownKeysAlike unknownKeys unknownKeys') :
    Alike (checkObject declared unknownKeys) (checkObject others unknownKeys') := by
  intro value
  cases value with
  | object fields =>
    unfold checkObject
    simp only [declared_alike alike]
    apply Outcome.both_paths
    · exact Outcome.allOf_paths (alike.imp fun _ _ same => checkField_alike same fields)
    · exact checkExtra_alike extra _
  | _ => rfl

inductive ArmAlike : Arm Check → Arm Check → Prop where
  | body {first second : Check} (alike : Alike first second) : ArmAlike (.body first) (.body second)
  | media {cases others : List (String × Check)} {arm other : Arm Check}
      (alike : List.Forall₂ (fun entry entry' => entry.1 = entry'.1 ∧ Alike entry.2 entry'.2) cases others)
      (fallback : ArmAlike arm other) : ArmAlike (.media cases arm) (.media others other)
  | reject {field : Rejection} : ArmAlike (.reject field) (.reject field)

theorem checkArm_alike {arm other : Arm Check} (alike : ArmAlike arm other) (response : Json) :
    Outcome.paths (checkArm response arm) = Outcome.paths (checkArm response other) := by
  induction alike with
  | body alike => exact Outcome.within_paths (alike _)
  | @media cases others _ _ alike _ ih =>
    unfold checkArm
    split
    · rename_i mediaType _
      have found := lookup_related alike mediaType
      generalize cases.lookup mediaType = first at found ⊢
      generalize others.lookup mediaType = second at found ⊢
      cases found with
      | some alike => exact Outcome.within_paths (alike _)
      | none => exact ih
    · exact ih
  | reject => rfl

def BranchAlike (branch other : Branch Check) : Prop :=
  branch.status = other.status ∧ ArmAlike branch.arm other.arm

theorem selectArm_alike {branches others : List (Branch Check)} {fallback fallback' : Arm Check}
    (alike : List.Forall₂ BranchAlike branches others) (last : ArmAlike fallback fallback')
    (status : Option Nat) :
    ArmAlike (selectArm branches fallback status) (selectArm others fallback' status) := by
  cases status with
  | none => exact last
  | some status =>
    unfold selectArm
    have found := find?_related (p := fun branch => branch.status.holds status)
      (q := fun branch => branch.status.holds status)
      (alike.imp fun _ _ same => ⟨congrArg (StatusMatch.holds · status) same.1, same.2⟩)
    dsimp only
    generalize branches.find? (fun branch => branch.status.holds status) = first at found ⊢
    generalize others.find? (fun branch => branch.status.holds status) = second at found ⊢
    cases found with
    | some alike => exact alike
    | none => exact last

theorem checkDispatch_alike {branches others : List (Branch Check)} {fallback fallback' : Arm Check}
    (alike : List.Forall₂ BranchAlike branches others) (last : ArmAlike fallback fallback') :
    Alike (checkDispatch branches fallback) (checkDispatch others fallback') := by
  intro value
  cases value with
  | object fields => exact checkArm_alike (selectArm_alike alike last _) _
  | _ => rfl

end Congruence

section Rules

theorem bound_same {bound other : Bound} (same : (bound == other) = true) :
    bound.value.value = other.value.value ∧ bound.exclusive = other.exclusive := by
  obtain ⟨value, exclusive⟩ := (Bool.and_eq_true _ _).mp same
  exact ⟨Double.beq_iff.mp value, eq_of_beq exclusive⟩

theorem aboveBound_same {min other : Option Bound} (same : (min == other) = true) (x : Double) :
    (aboveBound x min).isSome = (aboveBound x other).isSome := by
  cases min with
  | none =>
    cases other with
    | none => rfl
    | some bound => cases same
  | some bound =>
    cases other with
    | none => cases same
    | some bound' =>
      obtain ⟨value, exclusive⟩ := bound_same same
      simp only [aboveBound, value, exclusive]
      split <;> split <;> rfl

theorem belowBound_same {max other : Option Bound} (same : (max == other) = true) (x : Double) :
    (belowBound x max).isSome = (belowBound x other).isSome := by
  cases max with
  | none =>
    cases other with
    | none => rfl
    | some bound => cases same
  | some bound =>
    cases other with
    | none => cases same
    | some bound' =>
      obtain ⟨value, exclusive⟩ := bound_same same
      simp only [belowBound, value, exclusive]
      split <;> split <;> rfl

theorem violation_same {min min' max max' : Option Bound} (low : (min == min') = true)
    (high : (max == max') = true) (x : Double) :
    (violation x min max).isSome = (violation x min' max').isSome := by
  simp only [violation, Option.isSome_or, aboveBound_same low, belowBound_same high]

theorem isMultipleOf_same {step other : Double} (same : (step == other) = true) (x : Double) :
    x.isMultipleOf step = x.isMultipleOf other := by
  unfold Double.isMultipleOf
  rw [Double.beq_iff.mp same]

theorem checkBounds_same {rules other : NumberRules} (low : (rules.min == other.min) = true)
    (high : (rules.max == other.max) = true) (x : Double) :
    Outcome.paths (checkBounds rules x) = Outcome.paths (checkBounds other x) := by
  have same := violation_same low high x
  unfold checkBounds
  generalize violation x rules.min rules.max = first at same ⊢
  generalize violation x other.min other.max = second at same ⊢
  cases first with
  | none =>
    cases second with
    | none => rfl
    | some message => cases same
  | some message =>
    cases second with
    | none => cases same
    | some message' => exact Outcome.fail_paths _ _

theorem checkMultiple_same {rules other : NumberRules}
    (same : (rules.multipleOf == other.multipleOf) = true) (x : Double) :
    Outcome.paths (checkMultiple rules x) = Outcome.paths (checkMultiple other x) := by
  unfold checkMultiple
  generalize rules.multipleOf = first at same ⊢
  generalize other.multipleOf = second at same ⊢
  cases first with
  | none =>
    cases second with
    | none => rfl
    | some step => cases same
  | some step =>
    cases second with
    | none => cases same
    | some step' =>
      dsimp only
      rw [isMultipleOf_same same]
      exact Outcome.require_paths _ _ _

theorem checkNumber_same {rules other : NumberRules} (same : (rules == other) = true) :
    Alike (checkNumber rules) (checkNumber other) := by
  obtain ⟨bounds, multiple⟩ := (Bool.and_eq_true _ _).mp same
  obtain ⟨bounds, high⟩ := (Bool.and_eq_true _ _).mp bounds
  obtain ⟨integer, low⟩ := (Bool.and_eq_true _ _).mp bounds
  intro value
  cases value with
  | number n =>
    simp only [checkNumber, eq_of_beq integer]
    split
    · rfl
    · exact Outcome.both_paths (checkBounds_same low high _) (checkMultiple_same multiple _)
  | _ => rfl

theorem refinementHolds_same {refinement other : Refinement} (same : (refinement == other) = true)
    (value : Json) : refinementHolds value refinement = refinementHolds value other := by
  cases refinement with
  | range min max =>
    cases other with
    | range min' max' =>
      obtain ⟨low, high⟩ := (Bool.and_eq_true _ _).mp same
      cases value with
      | number n =>
        have equal := violation_same low high n.toDouble
        simp only [refinementHolds, ← Option.not_isSome, equal]
      | _ => rfl
    | _ => cases same
  | uniqueItems =>
    cases other with
    | uniqueItems => rfl
    | _ => cases same
  | minItems limit =>
    cases other with
    | minItems limit' => cases eq_of_beq (show (limit == limit') = true from same); rfl
    | _ => cases same
  | maxItems limit =>
    cases other with
    | maxItems limit' => cases eq_of_beq (show (limit == limit') = true from same); rfl
    | _ => cases same
  | minProperties limit =>
    cases other with
    | minProperties limit' => cases eq_of_beq (show (limit == limit') = true from same); rfl
    | _ => cases same
  | maxProperties limit =>
    cases other with
    | maxProperties limit' => cases eq_of_beq (show (limit == limit') = true from same); rfl
    | _ => cases same

theorem checkRefinements_same {refinements others : List Refinement}
    (same : (refinements == others) = true) :
    Alike (checkRefinements refinements) (checkRefinements others) := by
  intro value
  apply Outcome.allOf_paths
  refine (beq_related same).imp fun refinement other equal => ?_
  rw [refinementHolds_same equal]
  exact Outcome.require_paths _ _ _

end Rules

section Same

theorem pointwise_map {α β γ : Type} (holds : β → γ → Bool) (f : α → β) (xs : List α) (ys : List γ) :
    pointwise holds (xs.map f) ys = pointwise (fun x y => holds (f x) y) xs ys := by
  induction xs generalizing ys with
  | nil => cases ys <;> rfl
  | cons x xs ih =>
    cases ys with
    | nil => rfl
    | cons y ys => simp only [List.map_cons, pointwise, ih]

theorem agree_map {V W : Type} (f : V → W → Bool) (arm : Arm V) (other : Arm W) :
    (arm.map f).agree (fun test => test) other = arm.agree f other := by
  induction arm generalizing other with
  | body v => cases other <;> rfl
  | media cases fallback ih =>
    cases other with
    | media others fallback' => simp only [Arm.map, Arm.agree, pointwise_map, ih]
    | _ => rfl
  | reject field => cases other <;> rfl

variable [Pattern.Engine] {resolve : String → Check}

-- Whatever is found equal to the validator can stand in its place.
def Replaceable (resolve : String → Check) (v : Validator) : Prop :=
  ∀ w, same v w = true → Alike (evaluate resolve v) (evaluate resolve w)

theorem members_alike {vs ws : List Validator} (replaceable : ∀ v ∈ vs, Replaceable resolve v)
    (equal : pointwise (fun test => test) (vs.map same) ws = true) :
    List.Forall₂ (fun v w => Alike (evaluate resolve v) (evaluate resolve w)) vs ws := by
  rw [pointwise_map] at equal
  have both := (List.forall₂_and_left _ _).mpr ⟨replaceable, pointwise_related equal⟩
  exact both.imp fun v w found => found.1 w found.2

theorem arm_alike {arm other : Arm Validator} (replaceable : ∀ v ∈ arm.validators, Replaceable resolve v)
    (equal : arm.agree same other = true) :
    ArmAlike (arm.map (evaluate resolve)) (other.map (evaluate resolve)) := by
  induction arm generalizing other with
  | body v =>
    cases other with
    | body w => exact .body (replaceable v List.mem_cons_self w equal)
    | _ => cases equal
  | media cases fallback ih =>
    cases other with
    | media others fallback' =>
      obtain ⟨equalCases, equalFallback⟩ := (Bool.and_eq_true _ _).mp equal
      have inCases (entry : String × Validator) (member : entry ∈ cases) : Replaceable resolve entry.2 :=
        replaceable _ (List.mem_append_left _ (List.mem_map_of_mem member))
      have both := (List.forall₂_and_left _ _).mpr ⟨inCases, pointwise_related equalCases⟩
      refine .media ?_ (ih (fun v member => replaceable v (List.mem_append_right _ member)) equalFallback)
      rw [List.forall₂_map_left_iff, List.forall₂_map_right_iff]
      refine both.imp fun entry entry' found => ?_
      obtain ⟨sameKey, sameBody⟩ := (Bool.and_eq_true _ _).mp found.2
      exact ⟨eq_of_beq sameKey, found.1 entry'.2 sameBody⟩
    | _ => cases equal
  | reject field =>
    cases other with
    | reject field' => cases eq_of_beq (show (field == field') = true from equal); exact .reject
    | _ => cases equal

theorem branch_alike {branches others : List (Branch Validator)}
    (replaceable : ∀ branch ∈ branches, ∀ v ∈ branch.arm.validators, Replaceable resolve v)
    (equal : pointwise (fun branch other => branch.status == other.status
      && branch.arm.agree (fun test => test) other.arm) (branches.map (Branch.map same)) others = true) :
    List.Forall₂ BranchAlike (branches.map (Branch.map (evaluate resolve)))
      (others.map (Branch.map (evaluate resolve))) := by
  rw [pointwise_map] at equal
  rw [List.forall₂_map_left_iff, List.forall₂_map_right_iff]
  have both := (List.forall₂_and_left _ _).mpr ⟨replaceable, pointwise_related equal⟩
  refine both.imp fun branch other found => ?_
  obtain ⟨status, arm⟩ := (Bool.and_eq_true _ _).mp found.2
  refine ⟨eq_of_beq status, arm_alike found.1 ?_⟩
  rw [← agree_map]
  exact arm

theorem field_alike {fields others : List (Field Validator)}
    (replaceable : ∀ v ∈ fields.map Field.validator, Replaceable resolve v)
    (equal : pointwise (fun field other => field.name == other.name && field.validator other.validator
      && field.optional == other.optional) (fields.map (Field.map same)) others = true) :
    List.Forall₂ FieldAlike (fields.map (Field.map (evaluate resolve)))
      (others.map (Field.map (evaluate resolve))) := by
  rw [pointwise_map] at equal
  rw [List.forall₂_map_left_iff, List.forall₂_map_right_iff]
  have inFields (field : Field Validator) (member : field ∈ fields) :
      Replaceable resolve field.validator := replaceable _ (List.mem_map_of_mem member)
  have both := (List.forall₂_and_left _ _).mpr ⟨inFields, pointwise_related equal⟩
  refine both.imp fun field other found => ?_
  obtain ⟨named, optional⟩ := (Bool.and_eq_true _ _).mp found.2
  obtain ⟨name, validator⟩ := (Bool.and_eq_true _ _).mp named
  exact ⟨eq_of_beq name, eq_of_beq optional, found.1 _ validator⟩

theorem unknownKeys_alike {unknownKeys others : UnknownKeys Validator}
    (replaceable : ∀ v, unknownKeys = .catchall v → Replaceable resolve v)
    (equal : testUnknownKeys (unknownKeys.map same) others = true) :
    UnknownKeysAlike (unknownKeys.map (evaluate resolve)) (others.map (evaluate resolve)) := by
  cases unknownKeys with
  | strict =>
    cases others with
    | strict => exact trivial
    | catchall w => cases equal
  | catchall v =>
    cases others with
    | strict => cases equal
    | catchall w => exact replaceable v rfl w equal

-- Validators of one kind that are found equal, given that the parts of the first can be replaced.

theorem literal_alike {l m : Literal} (equal : same (literal l) (literal m) = true) :
    Alike (evaluate resolve (literal l)) (evaluate resolve (literal m)) := by
  intro value
  show Outcome.paths (.require (literalHolds l value) _) = Outcome.paths (.require (literalHolds m value) _)
  rw [literalHolds_same equal]
  exact Outcome.require_paths _ _ _

theorem union_alike {members others : List Validator} (replaceable : ∀ v ∈ members, Replaceable resolve v)
    (equal : same (union members) (union others) = true) :
    Alike (evaluate resolve (union members)) (evaluate resolve (union others)) := by
  have alike := members_alike replaceable
    ((congrFun (fold_eq _ (union members)) (union others)).symm.trans equal)
  intro value
  rw [evaluate_union, evaluate_union]
  exact congrArg Outcome.paths
    (Outcome.anyOf_congr (alike.imp fun _ _ same => Outcome.verdict_of_paths (same value)))

theorem intersection_alike {members others : List Validator}
    (replaceable : ∀ v ∈ members, Replaceable resolve v)
    (equal : same (intersection members) (intersection others) = true) :
    Alike (evaluate resolve (intersection members)) (evaluate resolve (intersection others)) := by
  have alike := members_alike replaceable
    ((congrFun (fold_eq _ (intersection members)) (intersection others)).symm.trans equal)
  intro value
  rw [evaluate_intersection, evaluate_intersection]
  exact Outcome.allOf_paths (alike.imp fun _ _ same => same value)

theorem array_alike {items others : Validator} {low low' high high' : Option Nat}
    (replaceable : Replaceable resolve items)
    (equal : same (array items low high) (array others low' high') = true) :
    Alike (evaluate resolve (array items low high)) (evaluate resolve (array others low' high')) := by
  have tests : (same items others && low == low' && high == high') = true :=
    (congrFun (fold_eq _ (array items low high)) (array others low' high')).symm.trans equal
  obtain ⟨lower, upper⟩ := (Bool.and_eq_true _ _).mp tests
  obtain ⟨inner, lower⟩ := (Bool.and_eq_true _ _).mp lower
  cases eq_of_beq lower
  cases eq_of_beq upper
  rw [evaluate_array, evaluate_array]
  exact checkArray_alike (replaceable others inner) low high

theorem tuple_alike {places others : List Validator} {rest rest' : Option Validator}
    (replaceable : ∀ v ∈ (tuple places rest).parts, Replaceable resolve v)
    (equal : same (tuple places rest) (tuple others rest') = true) :
    Alike (evaluate resolve (tuple places rest)) (evaluate resolve (tuple others rest')) := by
  have tests : (pointwise (fun test => test) (places.map same) others
      && pointwise? (fun test => test) (rest.map same) rest') = true :=
    (congrFun (fold_eq _ (tuple places rest)) (tuple others rest')).symm.trans equal
  obtain ⟨equalPlaces, equalRest⟩ := (Bool.and_eq_true _ _).mp tests
  have samePlaces := members_alike (fun v member => replaceable v (List.mem_append_left _ member)) equalPlaces
  rw [evaluate_tuple, evaluate_tuple]
  apply checkTuple_alike
  · rw [List.forall₂_map_left_iff, List.forall₂_map_right_iff]
    exact samePlaces
  · have sameRest := rel_map_left (pointwise?_related equalRest)
    cases sameRest with
    | none => exact .none
    | some inner => exact .some (replaceable _ (List.mem_append_right _ (by simp)) _ inner)

theorem object_alike {fields others : List (Field Validator)} {unknownKeys unknownKeys' : UnknownKeys Validator}
    (replaceable : ∀ v ∈ (object fields unknownKeys).parts, Replaceable resolve v)
    (equal : same (object fields unknownKeys) (object others unknownKeys') = true) :
    Alike (evaluate resolve (object fields unknownKeys)) (evaluate resolve (object others unknownKeys')) := by
  have tests := (congrFun (fold_eq _ (object fields unknownKeys))
    (object others unknownKeys')).symm.trans equal
  obtain ⟨equalFields, equalKeys⟩ := (Bool.and_eq_true _ _).mp tests
  rw [evaluate_object, evaluate_object]
  apply checkObject_alike
  · refine field_alike (fun v member => replaceable v ?_) equalFields
    cases unknownKeys with
    | strict => exact member
    | catchall extra => exact List.mem_cons_of_mem extra member
  · refine unknownKeys_alike (fun v catchall => replaceable v ?_) equalKeys
    cases catchall
    exact List.mem_cons_self

theorem nullable_alike {inner other : Validator} (replaceable : Replaceable resolve inner)
    (equal : same (nullable inner) (nullable other) = true) :
    Alike (evaluate resolve (nullable inner)) (evaluate resolve (nullable other)) := by
  have inside := replaceable other
    ((congrFun (fold_eq _ (nullable inner)) (nullable other)).symm.trans equal)
  intro value
  rw [evaluate_nullable, evaluate_nullable]
  cases value with
  | null => rfl
  | _ => exact inside _

theorem refined_alike {inner other : Validator} {refinements others : List Refinement}
    (replaceable : Replaceable resolve inner)
    (equal : same (refined inner refinements) (refined other others) = true) :
    Alike (evaluate resolve (refined inner refinements)) (evaluate resolve (refined other others)) := by
  have tests : (same inner other && refinements == others) = true :=
    (congrFun (fold_eq _ (refined inner refinements)) (refined other others)).symm.trans equal
  obtain ⟨equalInner, equalRefinements⟩ := (Bool.and_eq_true _ _).mp tests
  intro value
  rw [evaluate_refined, evaluate_refined]
  exact Outcome.guarded_paths (replaceable other equalInner value) (checkRefinements_same equalRefinements value)

theorem dispatch_alike {branches others : List (Branch Validator)} {fallback fallback' : Arm Validator}
    (replaceable : ∀ v ∈ (dispatch branches fallback).parts, Replaceable resolve v)
    (equal : same (dispatch branches fallback) (dispatch others fallback') = true) :
    Alike (evaluate resolve (dispatch branches fallback)) (evaluate resolve (dispatch others fallback')) := by
  have tests := (congrFun (fold_eq _ (dispatch branches fallback))
    (dispatch others fallback')).symm.trans equal
  obtain ⟨equalBranches, equalFallback⟩ := (Bool.and_eq_true _ _).mp tests
  rw [evaluate_dispatch, evaluate_dispatch]
  apply checkDispatch_alike
  · refine branch_alike (fun branch member v inside => replaceable v ?_) equalBranches
    exact List.mem_append_left _ (List.mem_flatMap.mpr ⟨branch, member, inside⟩)
  · refine arm_alike (fun v member => replaceable v (List.mem_append_right _ member)) ?_
    rw [← agree_map]
    exact equalFallback

-- One case for each kind of validator, along the parts of the first of the two.
theorem same_replaceable (resolve : String → Check) (v : Validator) : Replaceable resolve v := by
  induction v using parts_induction with
  | step v ih =>
    intro w equal
    cases v with
    | unknown | never | boolean | null | binary =>
      cases w with
      | unknown | never | boolean | null | binary => cases equal <;> exact fun _ => rfl
      | _ => cases equal
    | string rules =>
      cases w with
      | string other => cases eq_of_beq (show (rules == other) = true from equal); exact fun _ => rfl
      | _ => cases equal
    | number rules =>
      cases w with
      | number other => exact checkNumber_same equal
      | _ => cases equal
    | literal l =>
      cases w with
      | literal m => exact literal_alike equal
      | _ => cases equal
    | lazy name =>
      cases w with
      | lazy other => cases eq_of_beq (show (name == other) = true from equal); exact fun _ => rfl
      | _ => cases equal
    | union members =>
      cases w with
      | union others => exact union_alike ih equal
      | _ => cases equal
    | intersection members =>
      cases w with
      | intersection others => exact intersection_alike ih equal
      | _ => cases equal
    | array items low high =>
      cases w with
      | array others low' high' => exact array_alike (ih items List.mem_cons_self) equal
      | _ => cases equal
    | tuple places rest =>
      cases w with
      | tuple others rest' => exact tuple_alike ih equal
      | _ => cases rest <;> cases equal
    | object fields unknownKeys =>
      cases w with
      | object others unknownKeys' => exact object_alike ih equal
      | _ => cases unknownKeys <;> cases equal
    | nullable inner =>
      cases w with
      | nullable other => exact nullable_alike (ih inner List.mem_cons_self) equal
      | _ => cases equal
    | refined inner refinements =>
      cases w with
      | refined other others => exact refined_alike (ih inner List.mem_cons_self) equal
      | _ => cases equal
    | dispatch branches fallback =>
      cases w with
      | dispatch others fallback' => exact dispatch_alike ih equal
      | _ => cases equal

end Same

end ApiContract.Validator
