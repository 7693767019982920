import ApiContract.Json.Writer
import ApiContract.Pattern.Basic
import ApiContract.Validator.Basic
import ApiContract.Validator.Issue

namespace ApiContract

-- `evaluate` takes the meaning of lazy references as an argument. `check` ties the
-- knot: a reference is followed a bounded number of times, which is never reached
-- unless references form a cycle that does not step into the value.

namespace Validator

abbrev Outcome := Except CheckError (List Issue)

namespace Outcome

def pass : Outcome := .ok []

def fail (message : String) : Outcome := .ok [.here message]

def expected (kind : String) (value : Json) : Outcome :=
  fail ("Expected " ++ kind ++ ", received " ++ value.kind)

def require (holds : Bool) (message : String) : Outcome := if holds then pass else fail message

def both (first second : Outcome) : Outcome :=
  first.bind fun issues => second.map (issues ++ ·)

def allOf {α : Type} (check : α → Outcome) : List α → Outcome
  | [] => pass
  | x :: rest => (check x).bind fun issues => (allOf check rest).map (issues ++ ·)

-- Passes if one of the outcomes does; an error counts if it comes before that one.
def anyOf {α : Type} (check : α → Outcome) : List α → Outcome
  | [] => fail "Invalid input"
  | x :: rest => (check x).bind fun issues => if issues.isEmpty then pass else anyOf check rest

def within (segment : Segment) (outcome : Outcome) : Outcome :=
  outcome.map fun issues => issues.map (Issue.within segment)

end Outcome

-- Numbers are compared by value, other literals as they are.
def literalHolds (literal : Literal) (value : Json) : Bool :=
  match literal, value with
  | .int n, .number m => m.toDouble == .ofInt n
  | .number x, .number m => m.toDouble == x
  | literal, value => literal.toJson == value

def aboveBound (x : Double) : Option Bound → Option String
  | none => none
  | some bound =>
    if bound.exclusive then
      if x.value ≤ bound.value.value then some ("Number must be greater than " ++ bound.text) else none
    else if x.value < bound.value.value then
      some ("Number must be greater than or equal to " ++ bound.text)
    else none

def belowBound (x : Double) : Option Bound → Option String
  | none => none
  | some bound =>
    if bound.exclusive then
      if bound.value.value ≤ x.value then some ("Number must be less than " ++ bound.text) else none
    else if bound.value.value < x.value then
      some ("Number must be less than or equal to " ++ bound.text)
    else none

def violation (x : Double) (min max : Option Bound) : Option String :=
  (aboveBound x min).or (belowBound x max)

def itemCount (count : Nat) (min max : Option Nat) : Outcome :=
  .both (.require (min.all (· ≤ count)) (Refinement.minItems (min.getD 0)).message)
    (.require (max.all (count ≤ ·)) (Refinement.maxItems (max.getD 0)).message)

def checkPattern [Pattern.Engine] (s : String) : Option String → Outcome
  | none => .pass
  | some text =>
    match Pattern.Engine.test? text with
    | none => .error (.pattern text)
    | some occursIn =>
      .require (occursIn s) ("Invalid string: must match pattern /" ++ text ++ "/")

def checkString [Pattern.Engine] (rules : StringRules) : Json → Outcome
  | .string s =>
    .both
      (.require (rules.minLength.all (· ≤ s.length))
        ("String must contain at least " ++ toString (rules.minLength.getD 0) ++ " character(s)"))
      (.both
        (.require (rules.maxLength.all (s.length ≤ ·))
          ("String must contain at most " ++ toString (rules.maxLength.getD 0) ++ " character(s)"))
        (checkPattern s rules.pattern))
  | value => .expected "string" value

def checkBounds (rules : NumberRules) (x : Double) : Outcome :=
  match violation x rules.min rules.max with
  | some message => .fail message
  | none => .pass

def checkMultiple (rules : NumberRules) (x : Double) : Outcome :=
  match rules.multipleOf with
  | some step =>
    .require (x.isMultipleOf step) ("Number must be a multiple of " ++ Number.Layout.plain.write step)
  | none => .pass

def checkNumber (rules : NumberRules) : Json → Outcome
  | .number n =>
    if rules.integer && !n.toDouble.isIntegral then .fail "Expected integer, received float"
    else .both (checkBounds rules n.toDouble) (checkMultiple rules n.toDouble)
  | value => .expected "number" value

def allDifferent : List Json → Bool
  | [] => true
  | item :: rest => rest.all (fun other => !(item == other)) && allDifferent rest

-- A refinement holds of everything that it is not about.
def refinementHolds (value : Json) : Refinement → Bool
  | .minItems limit => match value with
    | .array items => limit ≤ items.length
    | _ => true
  | .maxItems limit => match value with
    | .array items => items.length ≤ limit
    | _ => true
  | .uniqueItems => match value with
    | .array items => allDifferent items
    | _ => true
  | .minProperties limit => match value with
    | .object fields => limit ≤ fields.length
    | _ => true
  | .maxProperties limit => match value with
    | .object fields => fields.length ≤ limit
    | _ => true
  | .range min max => match value with
    | .number n => (violation n.toDouble min max).isNone
    | _ => true

def checkRefinements (refinements : List Refinement) (value : Json) : Outcome :=
  .allOf (fun refinement => .require (refinementHolds value refinement) refinement.message) refinements

abbrev Check := Json → Outcome

def checkArray (check : Check) (min max : Option Nat) : Check
  | .array items =>
    .both (itemCount items.length min max)
      (.allOf (fun entry => Outcome.within (.index entry.2) (check entry.1)) items.zipIdx)
  | value => .expected "array" value

def placeCheck (places : List Check) (rest : Option Check) (n : Nat) : Check :=
  ((places[n]?).or rest).getD fun _ => .pass

def checkTuple (places : List Check) (rest : Option Check) : Check
  | .array items =>
    .both (itemCount items.length (some places.length) (if rest.isNone then some places.length else none))
      (.allOf (fun entry => Outcome.within (.index entry.2) (placeCheck places rest entry.2 entry.1))
        items.zipIdx)
  | value => .expected "array" value

def checkField (fields : List (String × Json)) (field : Field Check) : Outcome :=
  match fields.lookup field.name with
  | some value => Outcome.within (.key field.name) (field.validator value)
  | none =>
    if field.optional then .pass else Outcome.within (.key field.name) (.fail "Required")

def checkExtra (extra : List (String × Json)) : UnknownKeys Check → Outcome
  | .strict =>
    .require extra.isEmpty ("Unrecognized key(s) in object: "
      ++ ", ".intercalate (extra.map fun field => "'" ++ field.1 ++ "'"))
  | .catchall check => .allOf (fun field => Outcome.within (.key field.1) (check field.2)) extra

def checkObject (declared : List (Field Check)) (unknownKeys : UnknownKeys Check) : Check
  | .object fields =>
    let extra := fields.filter fun field => !(declared.any fun d => d.name == field.1)
    .both (.allOf (checkField fields) declared) (checkExtra extra unknownKeys)
  | value => .expected "object" value

-- The status of a response, if it is an integer of 16 bits.
def statusOf? (response : Json) : Option Nat :=
  match response.get? "status" with
  | some (.number (.int n)) => if 0 ≤ n ∧ n < 65536 then some n.toNat else none
  | _ => none

def receivedText : Option Json → String
  | some (.string s) => s
  | some value => value.compact
  | none => "undefined"

def checkBody (check : Check) (response : Json) : Outcome :=
  Outcome.within (.key "body") (check ((response.get? "body").getD .null))

def checkArm (response : Json) : Arm Check → Outcome
  | .body check => checkBody check response
  | .media cases fallback =>
    match response.get? "mediaType" with
    | some (.string mediaType) => match cases.lookup mediaType with
      | some check => checkBody check response
      | none => checkArm response fallback
    | _ => checkArm response fallback
  | .reject field =>
    Outcome.within (.key field.key) (.fail (field.unexpected (receivedText (response.get? field.key))))

def selectArm {V : Type} (branches : List (Branch V)) (fallback : Arm V) : Option Nat → Arm V
  | none => fallback
  | some status => match branches.find? fun branch => branch.status.holds status with
    | some branch => branch.arm
    | none => fallback

def checkDispatch (branches : List (Branch Check)) (fallback : Arm Check) : Check
  | .object fields =>
    let response := Json.object fields
    checkArm response (selectArm branches fallback (statusOf? response))
  | value => .expected "object" value

variable [Pattern.Engine]

def evaluate (resolve : String → Check) : Validator → Check :=
  fold {
    unknown := fun _ => .pass
    never := Outcome.expected "never"
    string := checkString
    number := checkNumber
    boolean := fun value => match value with
      | .bool _ => .pass
      | value => .expected "boolean" value
    null := fun value => match value with
      | .null => .pass
      | value => .expected "null" value
    binary := Outcome.expected "binary"
    literal := fun l value =>
      .require (literalHolds l value) ("Invalid literal value, expected " ++ l.toJson.compact)
    union := fun checks value => .anyOf (fun check => check value) checks
    intersection := fun checks value => .allOf (fun check => check value) checks
    array := checkArray
    tuple := checkTuple
    object := checkObject
    lazy := resolve
    nullable := fun check value => match value with
      | .null => .pass
      | value => check value
    refined := fun check refinements value =>
      (check value).bind fun issues =>
        if issues.isEmpty then checkRefinements refinements value else .ok issues
    dispatch := checkDispatch }

abbrev Lookup := String → Option Validator

def resolveWithin (lookup : Lookup) : Nat → String → Check
  | 0, name, _ => .error (.endless name)
  | limit + 1, name, value =>
    match lookup name with
    | none => .error (.unresolved name)
    | some v => evaluate (resolveWithin lookup limit) v value

-- How many references can be followed one inside the other before one comes
-- back to a name without a step into the value.
def referenceLimit (names : Nat) (value : Json) : Nat := (names + 1) * (value.depth + 2)

def following (table : List (String × Validator)) (value : Json) : String → Check :=
  resolveWithin (fun name => table.lookup name) (referenceLimit table.length value)

def check (table : List (String × Validator)) (v : Validator) (value : Json) : Outcome :=
  evaluate (following table value) v value

end Validator

end ApiContract
