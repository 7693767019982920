import ApiContract.Distinct
import ApiContract.Literal
import ApiContract.Number.Layout
import ApiContract.Pointwise
import ApiContract.Status

namespace ApiContract

-- A scalar carries the constraints that it can express itself; everything else is a refinement
-- of a base validator. A named schema occurs as a lazy reference to its name.

structure StringRules where
  format : Option String := none
  minLength : Option Nat := none
  maxLength : Option Nat := none
  pattern : Option String := none
deriving DecidableEq

structure Bound where
  value : Double
  exclusive : Bool

namespace Bound

instance : BEq Bound := ⟨fun a b => a.value == b.value && a.exclusive == b.exclusive⟩

def inclusive (value : Double) : Bound := ⟨value, false⟩

def strict (value : Double) : Bound := ⟨value, true⟩

def text (bound : Bound) : String := Number.Layout.plain.write bound.value

end Bound

structure NumberRules where
  integer : Bool := false
  min : Option Bound := none
  max : Option Bound := none
  multipleOf : Option Double := none

instance : BEq NumberRules where
  beq a b := a.integer == b.integer && a.min == b.min && a.max == b.max && a.multipleOf == b.multipleOf

inductive Refinement where
  | minItems (limit : Nat)
  | maxItems (limit : Nat)
  | uniqueItems
  | minProperties (limit : Nat)
  | maxProperties (limit : Nat)
  | range (min max : Option Bound)

namespace Refinement

def same : Refinement → Refinement → Bool
  | minItems a, minItems b => a == b
  | maxItems a, maxItems b => a == b
  | uniqueItems, uniqueItems => true
  | minProperties a, minProperties b => a == b
  | maxProperties a, maxProperties b => a == b
  | range min max, range min' max' => min == min' && max == max'
  | _, _ => false

instance : BEq Refinement := ⟨same⟩

def lowerText : Option Bound → String
  | none => "(-inf"
  | some bound => (if bound.exclusive then "(" else "[") ++ bound.text

def upperText : Option Bound → String
  | none => "inf)"
  | some bound => bound.text ++ (if bound.exclusive then ")" else "]")

def message : Refinement → String
  | minItems limit => s!"Array must contain at least {limit} element(s)"
  | maxItems limit => s!"Array must contain at most {limit} element(s)"
  | uniqueItems => "Array items must be unique"
  | minProperties limit => s!"Object must have at least {limit} properties"
  | maxProperties limit => s!"Object must have at most {limit} properties"
  | range min max => "Number must be within " ++ lowerText min ++ ", " ++ upperText max

end Refinement

structure Field (V : Type) where
  name : String
  validator : V
  optional : Bool

def Field.map {V W : Type} (f : V → W) (field : Field V) : Field W :=
  ⟨field.name, f field.validator, field.optional⟩

inductive UnknownKeys (V : Type) where
  | strict
  | catchall (validator : V)

def UnknownKeys.map {V W : Type} (f : V → W) : UnknownKeys V → UnknownKeys W
  | strict => strict
  | catchall v => catchall (f v)

inductive Rejection where
  | status
  | mediaType
deriving DecidableEq

namespace Rejection

def key : Rejection → String
  | status => "status"
  | mediaType => "mediaType"

def unexpected (received : String) : Rejection → String
  | status => "Unexpected response status: " ++ received
  | mediaType => "Unexpected response media type: " ++ received

end Rejection

-- The body is validated, in a way that may depend on the media type, or the response is rejected.
inductive Arm (V : Type) where
  | body (validator : V)
  | media (cases : List (String × V)) (fallback : Arm V)
  | reject (field : Rejection)

namespace Arm

variable {V W : Type}

def map (f : V → W) : Arm V → Arm W
  | body v => body (f v)
  | media cases fallback =>
    media (cases.map fun entry => (entry.1, f entry.2)) (fallback.map f)
  | reject field => reject field

def validators : Arm V → List V
  | body v => [v]
  | media cases fallback => cases.map Prod.snd ++ fallback.validators
  | reject _ => []

def agree (holds : V → W → Bool) : Arm V → Arm W → Bool
  | body v, body w => holds v w
  | media cases fallback, media cases' fallback' =>
    pointwise (fun entry other => entry.1 == other.1 && holds entry.2 other.2) cases cases'
      && agree holds fallback fallback'
  | reject field, reject other => field == other
  | _, _ => false

end Arm

structure Branch (V : Type) where
  status : StatusMatch
  arm : Arm V

def Branch.map {V W : Type} (f : V → W) (branch : Branch V) : Branch W :=
  ⟨branch.status, branch.arm.map f⟩

inductive Validator where
  | unknown
  | never
  | string (rules : StringRules)
  | number (rules : NumberRules)
  | boolean
  | null
  | binary
  | literal (literal : Literal)
  | union (members : List Validator)
  | intersection (members : List Validator)
  | array (items : Validator) (minItems maxItems : Option Nat)
  | tuple (places : List Validator) (rest : Option Validator)
  | object (fields : List (Field Validator)) (unknownKeys : UnknownKeys Validator)
  | lazy (name : String)
  | nullable (inner : Validator)
  | refined (inner : Validator) (refinements : List Refinement)
  -- Of the branches, the first whose status matches is taken, else the fallback.
  | dispatch (branches : List (Branch Validator)) (fallback : Arm Validator)

namespace Validator

structure Algebra (α : Type) where
  unknown : α
  never : α
  string : StringRules → α
  number : NumberRules → α
  boolean : α
  null : α
  binary : α
  literal : Literal → α
  union : List α → α
  intersection : List α → α
  array : α → Option Nat → Option Nat → α
  tuple : List α → Option α → α
  object : List (Field α) → UnknownKeys α → α
  lazy : String → α
  nullable : α → α
  refined : α → List Refinement → α
  dispatch : List (Branch α) → Arm α → α

section Fold

variable {α : Type} (a : Algebra α)

mutual
def fold : Validator → α
  | unknown => a.unknown
  | never => a.never
  | string rules => a.string rules
  | number rules => a.number rules
  | boolean => a.boolean
  | null => a.null
  | binary => a.binary
  | literal l => a.literal l
  | union members => a.union (foldAll members)
  | intersection members => a.intersection (foldAll members)
  | array items low high => a.array (fold items) low high
  | tuple places none => a.tuple (foldAll places) none
  | tuple places (some rest) => a.tuple (foldAll places) (some (fold rest))
  | object fields .strict => a.object (foldFields fields) .strict
  | object fields (.catchall v) => a.object (foldFields fields) (.catchall (fold v))
  | lazy name => a.lazy name
  | nullable inner => a.nullable (fold inner)
  | refined inner refinements => a.refined (fold inner) refinements
  | dispatch branches fallback => a.dispatch (foldBranches branches) (foldArm fallback)
def foldAll : List Validator → List α
  | [] => []
  | v :: rest => fold v :: foldAll rest
def foldFields : List (Field Validator) → List (Field α)
  | [] => []
  | ⟨name, v, optional⟩ :: rest => ⟨name, fold v, optional⟩ :: foldFields rest
def foldBranches : List (Branch Validator) → List (Branch α)
  | [] => []
  | ⟨status, arm⟩ :: rest => ⟨status, foldArm arm⟩ :: foldBranches rest
def foldArm : Arm Validator → Arm α
  | .body v => .body (fold v)
  | .media cases fallback => .media (foldCases cases) (foldArm fallback)
  | .reject field => .reject field
def foldCases : List (String × Validator) → List (String × α)
  | [] => []
  | (mediaType, v) :: rest => (mediaType, fold v) :: foldCases rest
end

theorem foldAll_eq_map (vs : List Validator) : foldAll a vs = vs.map (fold a) := by
  induction vs with
  | nil => rfl
  | cons v rest ih => simp [foldAll, ih]

theorem foldFields_eq_map (fields : List (Field Validator)) :
    foldFields a fields = fields.map (Field.map (fold a)) := by
  induction fields with
  | nil => rfl
  | cons field rest ih => simp [foldFields, Field.map, ih]

theorem foldCases_eq_map (cases : List (String × Validator)) :
    foldCases a cases = cases.map fun entry => (entry.1, fold a entry.2) := by
  induction cases with
  | nil => rfl
  | cons entry rest ih => simp [foldCases, ih]

theorem foldArm_eq_map (arm : Arm Validator) : foldArm a arm = arm.map (fold a) := by
  induction arm with
  | body v => rfl
  | media cases fallback ih => simp [foldArm, Arm.map, foldCases_eq_map, ih]
  | reject field => rfl

theorem foldBranches_eq_map (branches : List (Branch Validator)) :
    foldBranches a branches = branches.map (Branch.map (fold a)) := by
  induction branches with
  | nil => rfl
  | cons branch rest ih => simp [foldBranches, Branch.map, foldArm_eq_map, ih]

theorem fold_eq (v : Validator) : fold a v = match v with
    | unknown => a.unknown
    | never => a.never
    | string rules => a.string rules
    | number rules => a.number rules
    | boolean => a.boolean
    | null => a.null
    | binary => a.binary
    | literal l => a.literal l
    | union members => a.union (members.map (fold a))
    | intersection members => a.intersection (members.map (fold a))
    | array items low high => a.array (fold a items) low high
    | tuple places rest => a.tuple (places.map (fold a)) (rest.map (fold a))
    | object fields unknownKeys =>
      a.object (fields.map (Field.map (fold a))) (unknownKeys.map (fold a))
    | lazy name => a.lazy name
    | nullable inner => a.nullable (fold a inner)
    | refined inner refinements => a.refined (fold a inner) refinements
    | dispatch branches fallback =>
      a.dispatch (branches.map (Branch.map (fold a))) (fallback.map (fold a)) := by
  cases v with
  | tuple places rest => cases rest <;> simp [fold, foldAll_eq_map]
  | object fields unknownKeys =>
    cases unknownKeys <;> simp [fold, foldFields_eq_map, UnknownKeys.map]
  | _ => simp [fold, foldAll_eq_map, foldBranches_eq_map, foldArm_eq_map]

end Fold

def testUnknownKeys : UnknownKeys (Validator → Bool) → UnknownKeys Validator → Bool
  | .strict, .strict => true
  | .catchall test, .catchall v => test v
  | _, _ => false

def same : Validator → Validator → Bool :=
  fold {
    unknown := fun v => match v with
      | unknown => true
      | _ => false
    never := fun v => match v with
      | never => true
      | _ => false
    string := fun rules v => match v with
      | string other => rules == other
      | _ => false
    number := fun rules v => match v with
      | number other => rules == other
      | _ => false
    boolean := fun v => match v with
      | boolean => true
      | _ => false
    null := fun v => match v with
      | null => true
      | _ => false
    binary := fun v => match v with
      | binary => true
      | _ => false
    literal := fun l v => match v with
      | literal other => l == other
      | _ => false
    union := fun tests v => match v with
      | union members => pointwise (fun test => test) tests members
      | _ => false
    intersection := fun tests v => match v with
      | intersection members => pointwise (fun test => test) tests members
      | _ => false
    array := fun test low high v => match v with
      | array items low' high' => test items && low == low' && high == high'
      | _ => false
    tuple := fun tests test v => match v with
      | tuple places rest =>
        pointwise (fun test => test) tests places && pointwise? (fun test => test) test rest
      | _ => false
    object := fun tests test v => match v with
      | object fields unknownKeys =>
        pointwise (fun field other => field.name == other.name && field.validator other.validator
          && field.optional == other.optional) tests fields && testUnknownKeys test unknownKeys
      | _ => false
    lazy := fun name v => match v with
      | lazy other => name == other
      | _ => false
    nullable := fun test v => match v with
      | nullable inner => test inner
      | _ => false
    refined := fun test refinements v => match v with
      | refined inner others => test inner && refinements == others
      | _ => false
    dispatch := fun tests test v => match v with
      | dispatch branches fallback =>
        pointwise (fun branch other => branch.status == other.status
          && branch.arm.agree (fun test => test) other.arm) tests branches
          && test.agree (fun test => test) fallback
      | _ => false }

instance : BEq Validator := ⟨same⟩

instance : BEq (Arm Validator) := ⟨Arm.agree same⟩

def occurrences : Validator → List String :=
  fold {
    unknown := []
    never := []
    string := fun _ => []
    number := fun _ => []
    boolean := []
    null := []
    binary := []
    literal := fun _ => []
    union := List.flatten
    intersection := List.flatten
    array := fun names _ _ => names
    tuple := fun places rest => places.flatten ++ rest.getD []
    object := fun fields unknownKeys => fields.flatMap Field.validator ++ (match unknownKeys with
      | .strict => []
      | .catchall names => names)
    lazy := fun name => [name]
    nullable := id
    refined := fun names _ => names
    dispatch := fun branches fallback =>
      branches.flatMap (fun branch => branch.arm.validators.flatten) ++ fallback.validators.flatten }

def references (v : Validator) : List String := distinct v.occurrences

def refine (refinements : List Refinement) (v : Validator) : Validator :=
  if refinements.isEmpty then v
  else match v with
    | refined inner others => refined inner (others ++ refinements)
    | v => refined v refinements

def unionParts : Validator → List Validator
  | union members => members
  | v => [v]

def unionOf (vs : List Validator) : Validator :=
  match distinct (vs.flatMap unionParts) with
  | [] => never
  | [v] => v
  | members => union members

def intersectionParts : Validator → List Validator
  | intersection members => members
  | unknown => []
  | v => [v]

def intersectionOf (vs : List Validator) : Validator :=
  match distinct (vs.flatMap intersectionParts) with
  | [] => unknown
  | [v] => v
  | members => intersection members

def orNull : Validator → Validator
  | null => null
  | nullable inner => nullable inner
  | unknown => unknown
  | v => nullable v

end Validator

end ApiContract
