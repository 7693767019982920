import ApiContract.Proofs.Collections
import ApiContract.Validator.Check

namespace ApiContract.Validator.Outcome

-- What is known of an outcome without the words of its issues: where the issues are, or only whether
-- there are any. An error is kept as it is by both.
def paths (outcome : Outcome) : Except CheckError (List (List Segment)) :=
  outcome.map fun issues => issues.map Issue.path

def verdict (outcome : Outcome) : Except CheckError Bool := outcome.map List.isEmpty

theorem verdict_eq_paths (outcome : Outcome) : verdict outcome = (paths outcome).map List.isEmpty := by
  cases outcome with
  | error e => rfl
  | ok issues => cases issues <;> rfl

theorem verdict_of_paths {a b : Outcome} (same : paths a = paths b) : verdict a = verdict b := by
  rw [verdict_eq_paths, verdict_eq_paths, same]

theorem verdict_pass {outcome : Outcome} : verdict outcome = .ok true ↔ outcome = .ok [] := by
  cases outcome with
  | error e => constructor <;> intro equal <;> cases equal
  | ok issues => cases issues <;> simp [verdict, Except.map]

section Passing

variable {α β : Type}

theorem allOf_map (check : β → Outcome) (f : α → β) (xs : List α) :
    allOf check (xs.map f) = allOf (fun x => check (f x)) xs := by
  induction xs with
  | nil => rfl
  | cons x rest ih => simp only [List.map_cons, allOf, ih]

theorem anyOf_map (check : β → Outcome) (f : α → β) (xs : List α) :
    anyOf check (xs.map f) = anyOf (fun x => check (f x)) xs := by
  induction xs with
  | nil => rfl
  | cons x rest ih => simp only [List.map_cons, anyOf, ih]

theorem require_pass {holds : Bool} {message : String} :
    require holds message = .ok [] ↔ holds = true := by
  cases holds <;> simp [require, pass, fail]

theorem within_pass {segment : Segment} {outcome : Outcome} :
    within segment outcome = .ok [] ↔ outcome = .ok [] := by
  cases outcome with
  | error e => constructor <;> intro equal <;> cases equal
  | ok issues => simp [within, Except.map]

theorem both_pass {first second : Outcome} :
    both first second = .ok [] ↔ first = .ok [] ∧ second = .ok [] := by
  cases first with
  | error e => simp [both, Except.bind]
  | ok issues =>
    cases second with
    | error e => simp [both, Except.bind, Except.map]
    | ok others => simp [both, Except.bind, Except.map]

theorem allOf_pass {check : α → Outcome} {xs : List α} :
    allOf check xs = .ok [] ↔ ∀ x ∈ xs, check x = .ok [] := by
  induction xs with
  | nil => simp [allOf, pass]
  | cons x rest ih =>
    have split : allOf check (x :: rest) = both (check x) (allOf check rest) := rfl
    rw [split, both_pass, ih, List.forall_mem_cons]

-- One of them passes; those before it fail without an error, those after it are not looked at.
theorem anyOf_pass {check : α → Outcome} {xs : List α} (passed : anyOf check xs = .ok []) :
    ∃ x ∈ xs, check x = .ok [] := by
  induction xs with
  | nil => cases passed
  | cons x rest ih =>
    obtain ⟨issues, checked, next⟩ := bind_ok passed
    cases issues with
    | nil => exact ⟨x, List.mem_cons_self, checked⟩
    | cons issue issues =>
      obtain ⟨y, member, holds⟩ := ih next
      exact ⟨y, List.mem_cons_of_mem x member, holds⟩

end Passing

section Paths

variable {α β : Type}

theorem fail_paths (message message' : String) : paths (fail message) = paths (fail message') := rfl

theorem require_paths (holds : Bool) (message message' : String) :
    paths (require holds message) = paths (require holds message') := by
  cases holds <;> rfl

theorem within_paths {segment : Segment} {a b : Outcome} (same : paths a = paths b) :
    paths (within segment a) = paths (within segment b) := by
  have split (outcome : Outcome) : paths (within segment outcome)
      = (paths outcome).map fun found => found.map (segment :: ·) := by
    cases outcome with
    | error e => rfl
    | ok issues => simp [paths, within, Except.map, Issue.within, Function.comp_def]
  rw [split, split, same]

theorem both_paths {a b c d : Outcome} (first : paths a = paths b) (second : paths c = paths d) :
    paths (both a c) = paths (both b d) := by
  have split (x y : Outcome) : paths (both x y)
      = (paths x).bind fun found => (paths y).map (found ++ ·) := by
    cases x with
    | error e => rfl
    | ok issues =>
      cases y with
      | error e => rfl
      | ok others => simp [paths, both, Except.map, Except.bind]
  rw [split, split, first, second]

theorem allOf_paths {f : α → Outcome} {g : β → Outcome} {xs : List α} {ys : List β}
    (same : List.Forall₂ (fun x y => paths (f x) = paths (g y)) xs ys) :
    paths (allOf f xs) = paths (allOf g ys) := by
  induction same with
  | nil => rfl
  | cons first _ ih => exact both_paths first ih

-- What decides between the members of a union is the verdict on each.
theorem anyOf_congr {f : α → Outcome} {g : β → Outcome} {xs : List α} {ys : List β}
    (same : List.Forall₂ (fun x y => verdict (f x) = verdict (g y)) xs ys) :
    anyOf f xs = anyOf g ys := by
  have split {γ : Type} (check : γ → Outcome) (x : γ) (rest : List γ) : anyOf check (x :: rest)
      = (verdict (check x)).bind fun passed => if passed then pass else anyOf check rest := by
    show (check x).bind _ = _
    cases check x with
    | error e => rfl
    | ok issues => rfl
  induction same with
  | nil => rfl
  | cons first _ ih => rw [split, split, first, ih]

-- A second check that is made only where the first one passes.
theorem guarded_paths {a b c d : Outcome} (first : paths a = paths b) (second : paths c = paths d) :
    paths (a.bind fun issues => if issues.isEmpty then c else .ok issues)
      = paths (b.bind fun issues => if issues.isEmpty then d else .ok issues) := by
  have split (x y : Outcome) :
      paths (x.bind fun issues => if issues.isEmpty then y else .ok issues)
        = (paths x).bind fun found => if found.isEmpty then paths y else .ok found := by
    cases x with
    | error e => rfl
    | ok issues => cases issues <;> rfl
  rw [split, split, first, second]

end Paths

end ApiContract.Validator.Outcome

namespace ApiContract.Validator

theorem literalHolds_same {l m : Literal} (same : (l == m) = true) (value : Json) :
    literalHolds l value = literalHolds m value := by
  cases l with
  | string s =>
    cases m with
    | string t => cases eq_of_beq (show (s == t) = true from same); rfl
    | _ => cases same
  | int n =>
    cases m with
    | int k => cases eq_of_beq (show (n == k) = true from same); rfl
    | _ => cases same
  | number x =>
    cases m with
    | number y =>
      have equal : x.value = y.value := Double.beq_iff.mp same
      cases value with
      | number n => simp only [literalHolds, BEq.beq, equal]
      | _ => rfl
    | _ => cases same
  | bool b =>
    cases m with
    | bool c => cases eq_of_beq (show (b == c) = true from same); rfl
    | _ => cases same
  | null =>
    cases m with
    | null => rfl
    | _ => cases same

-- The equations of an evaluation at the kinds of validators that hold others.
section Evaluation

variable [Pattern.Engine] (resolve : String → Check)

theorem evaluate_union (members : List Validator) (value : Json) :
    evaluate resolve (union members) value = .anyOf (fun v => evaluate resolve v value) members := by
  have step : evaluate resolve (union members) value
      = .anyOf (fun check => check value) (members.map (evaluate resolve)) :=
    congrFun (fold_eq _ (union members)) value
  rw [step, Outcome.anyOf_map]

theorem evaluate_intersection (members : List Validator) (value : Json) :
    evaluate resolve (intersection members) value
      = .allOf (fun v => evaluate resolve v value) members := by
  have step : evaluate resolve (intersection members) value
      = .allOf (fun check => check value) (members.map (evaluate resolve)) :=
    congrFun (fold_eq _ (intersection members)) value
  rw [step, Outcome.allOf_map]

theorem evaluate_array (items : Validator) (low high : Option Nat) :
    evaluate resolve (array items low high) = checkArray (evaluate resolve items) low high :=
  fold_eq _ (array items low high)

theorem evaluate_tuple (places : List Validator) (rest : Option Validator) :
    evaluate resolve (tuple places rest)
      = checkTuple (places.map (evaluate resolve)) (rest.map (evaluate resolve)) :=
  fold_eq _ (tuple places rest)

theorem evaluate_object (fields : List (Field Validator)) (unknownKeys : UnknownKeys Validator) :
    evaluate resolve (object fields unknownKeys)
      = checkObject (fields.map (Field.map (evaluate resolve))) (unknownKeys.map (evaluate resolve)) :=
  fold_eq _ (object fields unknownKeys)

theorem evaluate_nullable (inner : Validator) (value : Json) :
    evaluate resolve (nullable inner) value = match value with
      | .null => .pass
      | value => evaluate resolve inner value :=
  congrFun (fold_eq _ (nullable inner)) value

theorem evaluate_refined (inner : Validator) (refinements : List Refinement) (value : Json) :
    evaluate resolve (refined inner refinements) value
      = (evaluate resolve inner value).bind fun issues =>
        if issues.isEmpty then checkRefinements refinements value else .ok issues :=
  congrFun (fold_eq _ (refined inner refinements)) value

theorem evaluate_dispatch (branches : List (Branch Validator)) (fallback : Arm Validator) :
    evaluate resolve (dispatch branches fallback)
      = checkDispatch (branches.map (Branch.map (evaluate resolve))) (fallback.map (evaluate resolve)) :=
  fold_eq _ (dispatch branches fallback)

end Evaluation

end ApiContract.Validator
