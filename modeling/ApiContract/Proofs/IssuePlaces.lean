import ApiContract.Pattern.Search
import ApiContract.Proofs.ValidatorNames

namespace ApiContract

-- Where issues are. The path of an issue leads through the checked value to a part of it, or ends with a
-- key that an object on the way does not have.

namespace Json

inductive Reaches : Json → List Segment → Json → Prop where
  | here {value : Json} : Reaches value [] value
  | key {fields : List (String × Json)} {name : String} {inner part : Json} {path : List Segment}
      (member : (name, inner) ∈ fields) (reached : Reaches inner path part) :
      Reaches (object fields) (.key name :: path) part
  | index {items : List Json} {n : Nat} {inner part : Json} {path : List Segment}
      (placed : items[n]? = some inner) (reached : Reaches inner path part) :
      Reaches (array items) (.index n :: path) part

def IsPlace (value : Json) (path : List Segment) : Prop :=
  (∃ part, value.Reaches path part) ∨
    ∃ outer key fields, path = outer ++ [.key key] ∧ value.Reaches outer (object fields) ∧ key ∉ Keyed.keys fields

section Places

variable {value inner : Json} {fields : List (String × Json)} {path : List Segment}

theorem isPlace_here : value.IsPlace [] := .inl ⟨value, .here⟩

theorem isPlace_key {name : String} (member : (name, inner) ∈ fields) (place : inner.IsPlace path) :
    (object fields).IsPlace (.key name :: path) := by
  rcases place with ⟨part, reached⟩ | ⟨outer, key, others, rfl, reached, absent⟩
  · exact .inl ⟨part, .key member reached⟩
  · exact .inr ⟨.key name :: outer, key, others, rfl, .key member reached, absent⟩

theorem isPlace_index {items : List Json} {n : Nat} (placed : items[n]? = some inner) (place : inner.IsPlace path) :
    (array items).IsPlace (.index n :: path) := by
  rcases place with ⟨part, reached⟩ | ⟨outer, key, others, rfl, reached, absent⟩
  · exact .inl ⟨part, .index placed reached⟩
  · exact .inr ⟨.index n :: outer, key, others, rfl, .index placed reached, absent⟩

theorem isPlace_missing {key : String} (absent : key ∉ Keyed.keys fields) : (object fields).IsPlace [.key key] :=
  .inr ⟨[], key, fields, rfl, .here, absent⟩

-- A field that is asked for can be pointed at whether it is there or not.
theorem isPlace_field (fields : List (String × Json)) (key : String) : (object fields).IsPlace [.key key] := by
  by_cases present : key ∈ Keyed.keys fields
  · obtain ⟨entry, member, rfl⟩ := List.mem_map.mp present
    exact isPlace_key member isPlace_here
  · exact isPlace_missing present

-- Nothing is inside null.
theorem isPlace_null (place : null.IsPlace path) : path = [] := by
  rcases place with ⟨_, ⟨⟩⟩ | ⟨_, _, _, _, ⟨⟩, _⟩
  rfl

end Places

end Json

namespace Validator

namespace Outcome

-- All issues are at places with the property. Where there is an error, there are no issues.
def AtPlaces (P : List Segment → Prop) (outcome : Outcome) : Prop :=
  ∀ issues, outcome = .ok issues → ∀ issue ∈ issues, P issue.path

variable {α : Type} {P : List Segment → Prop} {a b : Outcome}

theorem atPlaces_error (e : CheckError) : AtPlaces P (.error e) := by
  intro issues answered
  cases answered

theorem atPlaces_pass : AtPlaces P pass := by
  intro issues answered
  cases answered
  exact List.forall_mem_nil _

theorem atPlaces_fail (here : P []) (message : String) : AtPlaces P (fail message) := by
  intro issues answered
  cases answered
  exact List.forall_mem_singleton.mpr here

theorem atPlaces_require (here : P []) (holds : Bool) (message : String) : AtPlaces P (require holds message) := by
  cases holds with
  | true => exact atPlaces_pass
  | false => exact atPlaces_fail here message

theorem atPlaces_both (first : AtPlaces P a) (second : AtPlaces P b) : AtPlaces P (both a b) := by
  intro issues answered
  obtain ⟨found, early, next⟩ := bind_ok answered
  obtain ⟨others, late, rfl⟩ := map_ok next
  exact List.forall_mem_append.mpr ⟨first found early, second others late⟩

theorem atPlaces_allOf {check : α → Outcome} {xs : List α} (each : ∀ x ∈ xs, AtPlaces P (check x)) :
    AtPlaces P (allOf check xs) := by
  induction xs with
  | nil => exact atPlaces_pass
  | cons x rest ih =>
    obtain ⟨first, later⟩ := List.forall_mem_cons.mp each
    exact atPlaces_both first (ih later)

-- The issues of the members are dropped, so nothing is asked of them.
theorem atPlaces_anyOf (here : P []) (check : α → Outcome) (xs : List α) : AtPlaces P (anyOf check xs) := by
  induction xs with
  | nil => exact atPlaces_fail here _
  | cons x rest ih =>
    intro issues answered
    obtain ⟨found, _, next⟩ := bind_ok answered
    split at next
    · exact atPlaces_pass issues next
    · exact ih issues next

theorem atPlaces_within {segment : Segment} (inner : AtPlaces (fun path => P (segment :: path)) a) :
    AtPlaces P (within segment a) := by
  intro issues answered
  obtain ⟨found, inside, rfl⟩ := map_ok answered
  exact List.forall_mem_map.mpr (inner found inside)

theorem atPlaces_guarded (first : AtPlaces P a) (second : AtPlaces P b) :
    AtPlaces P (a.bind fun issues => if issues.isEmpty then b else .ok issues) := by
  intro issues answered
  obtain ⟨found, early, next⟩ := bind_ok answered
  split at next
  · exact second issues next
  · cases next
    exact first issues early

end Outcome

open Outcome (AtPlaces atPlaces_error atPlaces_pass atPlaces_fail atPlaces_require atPlaces_both atPlaces_allOf
  atPlaces_anyOf atPlaces_within atPlaces_guarded)

section Checks

def Locates (check : Check) : Prop := ∀ value : Json, AtPlaces value.IsPlace (check value)

theorem itemCount_places (value : Json) (count : Nat) (low high : Option Nat) :
    AtPlaces value.IsPlace (itemCount count low high) :=
  atPlaces_both (atPlaces_require Json.isPlace_here _ _) (atPlaces_require Json.isPlace_here _ _)

theorem expected_places (kind : String) (value : Json) : AtPlaces value.IsPlace (Outcome.expected kind value) :=
  atPlaces_fail Json.isPlace_here _

theorem indexed_places {check : Nat → Check} {items : List Json}
    (each : ∀ (n : Nat) item, items[n]? = some item → AtPlaces item.IsPlace (check n item)) :
    AtPlaces (Json.array items).IsPlace
      (.allOf (fun entry => Outcome.within (.index entry.2) (check entry.2 entry.1)) items.zipIdx) := by
  refine atPlaces_allOf fun entry member => atPlaces_within fun issues answered issue reported => ?_
  have placed := List.mk_mem_zipIdx_iff_getElem?.mp member
  exact Json.isPlace_index placed (each entry.2 entry.1 placed issues answered issue reported)

theorem checkString_locates [Pattern.Engine] (rules : StringRules) : Locates (checkString rules) := by
  intro value
  cases value with
  | string s =>
    refine atPlaces_both (atPlaces_require Json.isPlace_here _ _)
      (atPlaces_both (atPlaces_require Json.isPlace_here _ _) ?_)
    unfold checkPattern
    split
    · exact atPlaces_pass
    · split
      · exact atPlaces_error _
      · exact atPlaces_require Json.isPlace_here _ _
  | _ => exact expected_places _ _

theorem checkNumber_locates (rules : NumberRules) : Locates (checkNumber rules) := by
  intro value
  cases value with
  | number n =>
    rw [checkNumber]
    split
    · exact atPlaces_fail Json.isPlace_here _
    · refine atPlaces_both ?_ ?_
      · unfold checkBounds
        split
        · exact atPlaces_fail Json.isPlace_here _
        · exact atPlaces_pass
      · unfold checkMultiple
        split
        · exact atPlaces_require Json.isPlace_here _ _
        · exact atPlaces_pass
  | _ => exact expected_places _ _

theorem checkArray_locates {check : Check} (items : Locates check) (low high : Option Nat) :
    Locates (checkArray check low high) := by
  intro value
  cases value with
  | array elements =>
    exact atPlaces_both (itemCount_places _ _ _ _) (indexed_places fun _ element _ => items element)
  | _ => exact expected_places _ _

theorem checkTuple_locates {places : List Check} {rest : Option Check} (each : ∀ check ∈ places, Locates check)
    (last : ∀ check, rest = some check → Locates check) : Locates (checkTuple places rest) := by
  intro value
  cases value with
  | array elements =>
    refine atPlaces_both (itemCount_places _ _ _ _) (indexed_places fun n element _ => ?_)
    unfold placeCheck
    cases asked : (places[n]?).or rest with
    | none => exact atPlaces_pass
    | some check =>
      rcases Option.or_eq_some_iff.mp asked with inPlace | ⟨_, given⟩
      · exact each check (List.mem_of_getElem? inPlace) element
      · exact last check given element
  | _ => exact expected_places _ _

-- A field that is there is checked in its own place.
theorem field_places {check : Check} (inner : Locates check) {fields : List (String × Json)} {name : String}
    {value : Json} (member : (name, value) ∈ fields) :
    AtPlaces (Json.object fields).IsPlace (Outcome.within (.key name) (check value)) :=
  atPlaces_within fun issues answered issue reported =>
    Json.isPlace_key member (inner value issues answered issue reported)

theorem checkObject_locates {declared : List (Field Check)} {unknownKeys : UnknownKeys Check}
    (each : ∀ field ∈ declared, Locates field.validator)
    (others : ∀ check, unknownKeys = .catchall check → Locates check) :
    Locates (checkObject declared unknownKeys) := by
  intro value
  cases value with
  | object fields =>
    refine atPlaces_both (atPlaces_allOf fun field member => ?_) ?_
    · unfold checkField
      split
      · rename_i value found
        exact field_places (each field member) (lookup_mem found)
      · split
        · exact atPlaces_pass
        · exact atPlaces_within (atPlaces_fail (Json.isPlace_field fields field.name) _)
    · cases unknownKeys with
      | strict => exact atPlaces_require Json.isPlace_here _ _
      | catchall check =>
        refine atPlaces_allOf fun entry member => ?_
        exact field_places (others check rfl) (List.mem_of_mem_filter member)
  | _ => exact expected_places _ _

-- A body that is missing is checked as null. All that can be wrong with null is null itself, and so all
-- that is reported is the missing field.
theorem checkBody_locates {check : Check} (inner : Locates check) (fields : List (String × Json)) :
    AtPlaces (Json.object fields).IsPlace (checkBody check (.object fields)) := by
  unfold checkBody
  cases found : Json.get? "body" (.object fields) with
  | some body => exact field_places inner (lookup_mem found)
  | none =>
    refine atPlaces_within fun issues answered issue reported => ?_
    rw [Json.isPlace_null (inner .null issues answered issue reported)]
    exact Json.isPlace_field fields "body"

theorem checkArm_locates {arm : Arm Check} (each : ∀ check ∈ arm.validators, Locates check)
    (fields : List (String × Json)) : AtPlaces (Json.object fields).IsPlace (checkArm (.object fields) arm) := by
  induction arm with
  | body check => exact checkBody_locates (each check (List.mem_singleton_self _)) fields
  | media cases fallback ih =>
    obtain ⟨inCases, inFallback⟩ := List.forall_mem_append.mp each
    rw [checkArm_media]
    cases found : (receivedMediaType (.object fields)).bind fun received => cases.lookup received with
    | none => exact ih inFallback
    | some check =>
      obtain ⟨_, _, listed⟩ := Option.bind_eq_some_iff.mp found
      exact checkBody_locates (inCases check (List.mem_map_of_mem (f := Prod.snd) (lookup_mem listed))) fields
  | reject field => exact atPlaces_within (atPlaces_fail (Json.isPlace_field fields field.key) _)

theorem checkDispatch_locates {branches : List (Branch Check)} {fallback : Arm Check}
    (each : ∀ branch ∈ branches, ∀ check ∈ branch.arm.validators, Locates check)
    (last : ∀ check ∈ fallback.validators, Locates check) : Locates (checkDispatch branches fallback) := by
  intro value
  cases value with
  | object fields =>
    refine checkArm_locates ?_ fields
    unfold selectArm
    split
    · exact last
    · split
      · rename_i branch found
        exact each branch (List.mem_of_find?_eq_some found)
      · exact last
  | _ => exact expected_places _ _

end Checks

section References

variable {resolve : String → Check}

theorem evaluate_locates [Pattern.Engine] (named : ∀ name, Locates (resolve name)) (v : Validator) :
    Locates (evaluate resolve v) := by
  induction v using parts_induction with
  | step v ih =>
    intro value
    cases v with
    | unknown => exact atPlaces_pass
    | never => exact expected_places _ _
    | string rules => exact checkString_locates rules value
    | number rules => exact checkNumber_locates rules value
    | boolean =>
      cases value with
      | bool b => exact atPlaces_pass
      | _ => exact expected_places _ _
    | null =>
      cases value with
      | null => exact atPlaces_pass
      | _ => exact expected_places _ _
    | binary => exact expected_places _ _
    | literal l => exact atPlaces_require Json.isPlace_here _ _
    | union members =>
      rw [evaluate_union]
      exact atPlaces_anyOf Json.isPlace_here _ _
    | intersection members =>
      rw [evaluate_intersection]
      exact atPlaces_allOf fun member inside => ih member inside value
    | array items low high =>
      rw [evaluate_array]
      exact checkArray_locates (ih items (List.mem_singleton_self _)) low high value
    | tuple places rest =>
      obtain ⟨inPlaces, inRest⟩ := List.forall_mem_append.mp ih
      rw [evaluate_tuple]
      refine checkTuple_locates (List.forall_mem_map.mpr inPlaces) ?_ value
      intro check given
      obtain ⟨last, rfl, rfl⟩ := Option.map_eq_some_iff.mp given
      exact inRest last (List.mem_singleton_self _)
    | object fields unknownKeys =>
      rw [evaluate_object]
      refine checkObject_locates (List.forall_mem_map.mpr fun field member => ih _ (field_part member)) ?_ value
      intro check given
      cases unknownKeys with
      | strict => cases given
      | catchall rest =>
        cases given
        exact ih rest List.mem_cons_self
    | lazy name => exact named name value
    | nullable inner =>
      rw [evaluate_nullable]
      split
      · exact atPlaces_pass
      · exact ih inner (List.mem_singleton_self _) _
    | refined inner refinements =>
      rw [evaluate_refined]
      refine atPlaces_guarded (ih inner (List.mem_singleton_self _) value) ?_
      exact atPlaces_allOf fun refinement _ => atPlaces_require Json.isPlace_here _ _
    | dispatch branches fallback =>
      obtain ⟨inBranches, inFallback⟩ := List.forall_mem_append.mp ih
      rw [evaluate_dispatch]
      refine checkDispatch_locates (List.forall_mem_map.mpr fun branch member => ?_) ?_ value
      · rw [Branch.map, validators_map]
        refine List.forall_mem_map.mpr fun v inside => inBranches v ?_
        exact List.mem_flatMap.mpr ⟨branch, member, inside⟩
      · rw [validators_map]
        exact List.forall_mem_map.mpr inFallback

-- A reference is checked at the value itself, however often references are followed.
theorem resolveWithin_locates [Pattern.Engine] (lookup : Lookup) (limit : Nat) (name : String) :
    Locates (resolveWithin lookup limit name) := by
  induction limit generalizing name with
  | zero => exact fun value => atPlaces_error _
  | succ limit ih =>
    intro value
    rw [resolveWithin]
    split
    · exact atPlaces_error _
    · exact evaluate_locates ih _ value

-- Every issue that a check reports points at a part of the value or at a key that is missing there.
theorem issue_points_at_place [Pattern.Engine] {table : List (String × Validator)} {v : Validator} {value : Json}
    {issues : List Issue} (answered : check table v value = .ok issues) {issue : Issue} (reported : issue ∈ issues) :
    value.IsPlace issue.path :=
  evaluate_locates (resolveWithin_locates _ _) v value issues answered issue reported

def shrubs : List (String × Validator) :=
  [("Shrub", .object [⟨"label", .string {}, false⟩, ⟨"below", .array (.lazy "Shrub") none none, true⟩] .strict)]

-- Shrubs beside a body that has to be there.
def hedgeCheck : Validator :=
  .intersection [.object [⟨"shrubs", .array (.lazy "Shrub") none none, false⟩] (.catchall .unknown),
    .dispatch [] (.body .boolean)]

def hedge : Json :=
  .object [("shrubs", .array [.object [("label", .string "box")], .object [("below", .array [.object []]),
    ("label", .null)]])]

-- Below the second shrub a label is missing, its own label is there but is not a string, and the body is
-- missing.
def hedgeIssues : List Issue :=
  [⟨[.key "shrubs", .index 1, .key "label"], "Expected string, received null"⟩,
    ⟨[.key "shrubs", .index 1, .key "below", .index 0, .key "label"], "Required"⟩,
    ⟨[.key "body"], "Expected boolean, received null"⟩]

theorem hedge_issues_placed :
    check shrubs hedgeCheck hedge = .ok hedgeIssues ∧ ∀ issue ∈ hedgeIssues, hedge.IsPlace issue.path := by
  have answered : check shrubs hedgeCheck hedge = .ok hedgeIssues := by rfl
  exact ⟨answered, fun issue reported => issue_points_at_place answered reported⟩

end References

end Validator

end ApiContract
