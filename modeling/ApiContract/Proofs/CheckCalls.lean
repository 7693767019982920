import ApiContract.Proofs.ValidatorNames

namespace ApiContract

-- What a check asks of the parts of a validator, and where. Nothing else of the parts matters to it, so
-- two ways of checking the parts that are related wherever they are asked give related outcomes.

namespace Json

theorem depth_item {items : List Json} {item : Json} (member : item ∈ items) :
    item.depth < (array items).depth := by
  show item.depth < depthAll items + 1
  induction items with
  | nil => cases member
  | cons first rest ih =>
    rw [depthAll]
    rcases List.mem_cons.mp member with rfl | later
    · omega
    · have := ih later
      omega

theorem depth_field {fields : List (String × Json)} {field : String × Json} (member : field ∈ fields) :
    field.2.depth < (object fields).depth := by
  show field.2.depth < depthFields fields + 1
  induction fields with
  | nil => cases member
  | cons first rest ih =>
    rw [depthFields]
    rcases List.mem_cons.mp member with rfl | later
    · omega
    · have := ih later
      omega

-- A missing body is taken for a null, which is no part of the response but is less deep.
theorem depth_body (fields : List (String × Json)) :
    ((get? "body" (object fields)).getD null).depth < (object fields).depth := by
  cases found : get? "body" (object fields) with
  | none => exact Nat.succ_pos _
  | some body => exact depth_field (lookup_mem found)

-- A value, or one that is less deep.
def Within (next value : Json) : Prop := next = value ∨ next.depth < value.depth

theorem Within.depth_le {next value : Json} (within : next.Within value) : next.depth ≤ value.depth := by
  rcases within with rfl | smaller
  · exact Nat.le_refl _
  · exact Nat.le_of_lt smaller

theorem Within.trans {a b c : Json} (first : a.Within b) (second : b.Within c) : a.Within c := by
  rcases first with rfl | smaller
  · exact second
  · rcases second with rfl | smaller'
    · exact .inr smaller
    · exact .inr (Nat.lt_trans smaller smaller')

end Json

namespace Validator

namespace Outcome

-- A relation between outcomes that checks respect: it holds of what is the same on both sides without
-- asking for anything, and of what goes on from related outcomes in related ways.
structure Compatible (R : Outcome → Outcome → Prop) : Prop where
  issues : ∀ found, R (.ok found) (.ok found)
  pattern : ∀ text, R (.error (.pattern text)) (.error (.pattern text))
  bind : ∀ {a b : Outcome} {next next' : List Issue → Outcome}, R a b →
    (∀ found, R (next found) (next' found)) → R (a.bind next) (b.bind next')

namespace Compatible

variable {R : Outcome → Outcome → Prop} {α : Type}

theorem map (compatible : Compatible R) {a b : Outcome} (related : R a b) (f : List Issue → List Issue) :
    R (a.map f) (b.map f) := by
  have split (outcome : Outcome) : outcome.map f = outcome.bind fun found => .ok (f found) := by
    cases outcome <;> rfl
  rw [split, split]
  exact compatible.bind related fun found => compatible.issues _

theorem both (compatible : Compatible R) {a b c d : Outcome} (first : R a b) (second : R c d) :
    R (both a c) (both b d) :=
  compatible.bind first fun _ => compatible.map second _

theorem require (compatible : Compatible R) (holds : Bool) (message : String) :
    R (require holds message) (require holds message) := by
  cases holds <;> exact compatible.issues _

theorem allOf (compatible : Compatible R) {check other : α → Outcome} {xs : List α}
    (each : ∀ x ∈ xs, R (check x) (other x)) : R (allOf check xs) (allOf other xs) := by
  induction xs with
  | nil => exact compatible.issues _
  | cons x rest ih =>
    obtain ⟨first, later⟩ := List.forall_mem_cons.mp each
    exact compatible.both first (ih later)

theorem anyOf (compatible : Compatible R) {check other : α → Outcome} {xs : List α}
    (each : ∀ x ∈ xs, R (check x) (other x)) : R (anyOf check xs) (anyOf other xs) := by
  induction xs with
  | nil => exact compatible.issues _
  | cons x rest ih =>
    obtain ⟨first, later⟩ := List.forall_mem_cons.mp each
    refine compatible.bind first fun found => ?_
    split
    · exact compatible.issues _
    · exact ih later

end Compatible

theorem compatible_eq : Compatible Eq where
  issues _ := rfl
  pattern _ := rfl
  bind {a b next next'} first second := by rw [first, funext second]

end Outcome

open Outcome (Compatible)

-- One level of an evaluation: the parts are checked by `recur`, and `resolve` has the meaning of names.
def layer [Pattern.Engine] (resolve : String → Check) (recur : Validator → Check) : Validator → Check
  | unknown => fun _ => .pass
  | never => Outcome.expected "never"
  | string rules => checkString rules
  | number rules => checkNumber rules
  | boolean => fun value => match value with
    | .bool _ => .pass
    | value => .expected "boolean" value
  | null => fun value => match value with
    | .null => .pass
    | value => .expected "null" value
  | binary => Outcome.expected "binary"
  | literal l => fun value =>
    .require (literalHolds l value) ("Invalid literal value, expected " ++ l.toJson.compact)
  | union members => fun value => .anyOf (fun v => recur v value) members
  | intersection members => fun value => .allOf (fun v => recur v value) members
  | array items low high => checkArray (recur items) low high
  | tuple places rest => checkTuple (places.map recur) (rest.map recur)
  | object fields unknownKeys => checkObject (fields.map (Field.map recur)) (unknownKeys.map recur)
  | lazy name => resolve name
  | nullable inner => fun value => match value with
    | .null => .pass
    | value => recur inner value
  | refined inner refinements => fun value => (recur inner value).bind fun issues =>
    if issues.isEmpty then checkRefinements refinements value else .ok issues
  | dispatch branches fallback =>
    checkDispatch (branches.map (Branch.map recur)) (fallback.map recur)

theorem evaluate_layer [Pattern.Engine] (resolve : String → Check) (v : Validator) :
    evaluate resolve v = layer resolve (evaluate resolve) v := by
  funext value
  cases v with
  | union members => exact evaluate_union resolve members value
  | intersection members => exact evaluate_intersection resolve members value
  | tuple places rest => rw [evaluate_tuple, layer]
  | object fields unknownKeys => rw [evaluate_object, layer]
  | dispatch branches fallback => rw [evaluate_dispatch, layer]
  | _ => rfl

-- The check of a validator at a value can ask for the check of another one at a value: a member or an
-- inner validator at the value itself, and what stands in a container at what the value has there.
inductive Asks : Validator → Json → Validator → Json → Prop where
  | union {members : List Validator} {v : Validator} {value : Json} (member : v ∈ members) :
      Asks (union members) value v value
  | intersection {members : List Validator} {v : Validator} {value : Json} (member : v ∈ members) :
      Asks (intersection members) value v value
  | nullable {inner : Validator} {value : Json} : Asks (nullable inner) value inner value
  | refined {inner : Validator} {refinements : List Refinement} {value : Json} :
      Asks (refined inner refinements) value inner value
  | item {items : Validator} {low high : Option Nat} {elements : List Json} {x : Json} (member : x ∈ elements) :
      Asks (array items low high) (.array elements) items x
  | place {places : List Validator} {rest : Option Validator} {elements : List Json} {n : Nat} {v : Validator}
      {x : Json} (asked : (places[n]?).or rest = some v) (given : elements[n]? = some x) :
      Asks (tuple places rest) (.array elements) v x
  | field {fields : List (Field Validator)} {unknownKeys : UnknownKeys Validator} {entries : List (String × Json)}
      {field : Field Validator} {x : Json} (member : field ∈ fields)
      (given : entries.lookup field.name = some x) :
      Asks (object fields unknownKeys) (.object entries) field.validator x
  | extra {fields : List (Field Validator)} {v : Validator} {entries : List (String × Json)}
      {entry : String × Json} (member : entry ∈ entries) :
      Asks (object fields (.catchall v)) (.object entries) v entry.2
  | body {branches : List (Branch Validator)} {fallback : Arm Validator} {entries : List (String × Json)}
      {v : Validator} (member : v ∈ (dispatch branches fallback).parts) :
      Asks (dispatch branches fallback) (.object entries) v
        ((Json.get? "body" (.object entries)).getD .null)

-- The validators that look at the value through others, without a step into it.
inductive Wraps : Validator → Validator → Prop where
  | union {members : List Validator} {v : Validator} (member : v ∈ members) : Wraps (union members) v
  | intersection {members : List Validator} {v : Validator} (member : v ∈ members) :
      Wraps (intersection members) v
  | nullable {inner : Validator} : Wraps (nullable inner) inner
  | refined {inner : Validator} {refinements : List Refinement} : Wraps (refined inner refinements) inner

section Asks

variable {v part : Validator} {value next : Json}

theorem asks_part (asks : Asks v value part next) : part ∈ v.parts := by
  cases asks with
  | union member => exact member
  | intersection member => exact member
  | nullable => exact List.mem_singleton_self _
  | refined => exact List.mem_singleton_self _
  | item => exact List.mem_singleton_self _
  | place asked =>
    rcases Option.or_eq_some_iff.mp asked with placed | ⟨_, last⟩
    · exact List.mem_append_left _ (List.mem_of_getElem? placed)
    · exact List.mem_append_right _ (Option.mem_toList.mpr last)
  | field member => exact field_part member
  | extra => exact List.mem_cons_self
  | body member => exact member

theorem asks_wraps (asks : Asks v value part next) :
    Wraps v part ∧ next = value ∨ next.depth < value.depth := by
  cases asks with
  | union member => exact .inl ⟨.union member, rfl⟩
  | intersection member => exact .inl ⟨.intersection member, rfl⟩
  | nullable => exact .inl ⟨.nullable, rfl⟩
  | refined => exact .inl ⟨.refined, rfl⟩
  | item member => exact .inr (Json.depth_item member)
  | place _ given => exact .inr (Json.depth_item (List.mem_of_getElem? given))
  | field _ given => exact .inr (Json.depth_field (lookup_mem given))
  | extra member => exact .inr (Json.depth_field member)
  | body => exact .inr (Json.depth_body _)

theorem asks_within (asks : Asks v value part next) : next.Within value :=
  (asks_wraps asks).imp_left And.right

end Asks

section Related

variable {R : Outcome → Outcome → Prop} (compatible : Compatible R) {f g : Validator → Check}

include compatible

theorem related_itemCount (count : Nat) (low high : Option Nat) :
    R (itemCount count low high) (itemCount count low high) :=
  compatible.both (compatible.require _ _) (compatible.require _ _)

theorem related_string [Pattern.Engine] (rules : StringRules) (value : Json) :
    R (checkString rules value) (checkString rules value) := by
  have pattern (s : String) : R (checkPattern s rules.pattern) (checkPattern s rules.pattern) := by
    unfold checkPattern
    split
    · exact compatible.issues _
    · split
      · exact compatible.pattern _
      · exact compatible.require _ _
  cases value with
  | string s =>
    exact compatible.both (compatible.require _ _) (compatible.both (compatible.require _ _) (pattern s))
  | _ => exact compatible.issues _

theorem related_number (rules : NumberRules) (value : Json) :
    R (checkNumber rules value) (checkNumber rules value) := by
  have bounds (x : Double) : R (checkBounds rules x) (checkBounds rules x) := by
    unfold checkBounds
    split <;> exact compatible.issues _
  have multiple (x : Double) : R (checkMultiple rules x) (checkMultiple rules x) := by
    unfold checkMultiple
    split
    · exact compatible.require _ _
    · exact compatible.issues _
  cases value with
  | number n =>
    simp only [checkNumber]
    split
    · exact compatible.issues _
    · exact compatible.both (bounds _) (multiple _)
  | _ => exact compatible.issues _

theorem related_refinements (refinements : List Refinement) (value : Json) :
    R (checkRefinements refinements value) (checkRefinements refinements value) :=
  compatible.allOf fun _ _ => compatible.require _ _

theorem related_array {items : Validator} {low high : Option Nat} {value : Json}
    (asked : ∀ part next, Asks (array items low high) value part next → R (f part next) (g part next)) :
    R (checkArray (f items) low high value) (checkArray (g items) low high value) := by
  cases value with
  | array elements =>
    refine compatible.both (related_itemCount compatible _ _ _) (compatible.allOf fun entry member => ?_)
    exact compatible.map (asked items entry.1 (.item (List.fst_mem_of_mem_zipIdx member))) _
  | _ => exact compatible.issues _

theorem related_place {places : List Validator} {rest : Option Validator} {elements : List Json}
    (asked : ∀ part next, Asks (tuple places rest) (.array elements) part next → R (f part next) (g part next))
    {n : Nat} {x : Json} (given : elements[n]? = some x) :
    R (placeCheck (places.map f) (rest.map f) n x) (placeCheck (places.map g) (rest.map g) n x) := by
  have split (check : Validator → Check) : placeCheck (places.map check) (rest.map check) n
      = (((places[n]?).or rest).map check).getD fun _ => .pass := by
    rw [placeCheck, List.getElem?_map, Option.map_or]
  rw [split, split]
  cases found : (places[n]?).or rest with
  | none => exact compatible.issues _
  | some v => exact asked v x (.place found given)

theorem related_tuple {places : List Validator} {rest : Option Validator} {value : Json}
    (asked : ∀ part next, Asks (tuple places rest) value part next → R (f part next) (g part next)) :
    R (checkTuple (places.map f) (rest.map f) value) (checkTuple (places.map g) (rest.map g) value) := by
  cases value with
  | array elements =>
    simp only [checkTuple, List.length_map, Option.isNone_map]
    refine compatible.both (related_itemCount compatible _ _ _) (compatible.allOf fun entry member => ?_)
    exact compatible.map (related_place compatible asked (List.mem_zipIdx_iff_getElem?.mp member)) _
  | _ => exact compatible.issues _

theorem related_field {field : Field Validator} {entries : List (String × Json)}
    (asked : ∀ x, entries.lookup field.name = some x → R (f field.validator x) (g field.validator x)) :
    R (checkField entries (field.map f)) (checkField entries (field.map g)) := by
  obtain ⟨name, v, optional⟩ := field
  simp only [checkField, Field.map]
  split
  · rename_i x found
    exact compatible.map (asked x found) _
  · cases optional with
    | true => exact compatible.issues _
    | false => exact compatible.map (compatible.issues _) _

theorem related_object {fields : List (Field Validator)} {unknownKeys : UnknownKeys Validator} {value : Json}
    (asked : ∀ part next, Asks (object fields unknownKeys) value part next → R (f part next) (g part next)) :
    R (checkObject (fields.map (Field.map f)) (unknownKeys.map f) value)
      (checkObject (fields.map (Field.map g)) (unknownKeys.map g) value) := by
  cases value with
  | object entries =>
    have declared (check : Validator → Check) (entry : String × Json) :
        (fields.map (Field.map check)).any (fun field => field.name == entry.1)
          = fields.any fun field => field.name == entry.1 := List.any_map
    simp only [checkObject, declared, Outcome.allOf_map]
    refine compatible.both (compatible.allOf fun field member => ?_) ?_
    · exact related_field compatible fun x given => asked field.validator x (.field member given)
    · cases unknownKeys with
      | strict => exact compatible.require _ _
      | catchall v =>
        refine compatible.allOf fun entry member => compatible.map (asked v entry.2 ?_) _
        exact .extra (List.mem_of_mem_filter member)
  | _ => exact compatible.issues _

theorem related_arm {arm : Arm Validator} {response : Json}
    (asked : ∀ v ∈ arm.validators,
      R (f v ((response.get? "body").getD .null)) (g v ((response.get? "body").getD .null))) :
    R (checkArm response (arm.map f)) (checkArm response (arm.map g)) := by
  induction arm with
  | body v => exact compatible.map (asked v (List.mem_singleton_self _)) _
  | media cases fallback ih =>
    obtain ⟨inCases, inFallback⟩ := List.forall_mem_append.mp asked
    simp only [Arm.map, checkArm, lookup_map]
    split
    · rename_i mediaType _
      cases found : cases.lookup mediaType with
      | none => exact ih inFallback
      | some v =>
        exact compatible.map (inCases v (List.mem_map_of_mem (f := Prod.snd) (lookup_mem found))) _
    · exact ih inFallback
  | reject field => exact compatible.map (compatible.issues _) _

theorem related_dispatch {branches : List (Branch Validator)} {fallback : Arm Validator} {value : Json}
    (asked : ∀ part next, Asks (dispatch branches fallback) value part next → R (f part next) (g part next)) :
    R (checkDispatch (branches.map (Branch.map f)) (fallback.map f) value)
      (checkDispatch (branches.map (Branch.map g)) (fallback.map g) value) := by
  cases value with
  | object entries =>
    simp only [checkDispatch, selectArm_map]
    refine related_arm compatible fun v member => asked v _ (.body ?_)
    -- Whatever the status selects is the arm of a branch or the fallback.
    unfold selectArm at member
    split at member
    · exact List.mem_append_right _ member
    · split at member
      · rename_i branch found
        exact List.mem_append_left _
          (List.mem_flatMap.mpr ⟨branch, List.mem_of_find?_eq_some found, member⟩)
      · exact List.mem_append_right _ member
  | _ => exact compatible.issues _

-- One case for each kind of validator; only a reference asks for a meaning.
theorem related_layer [Pattern.Engine] (resolve other : String → Check) {v : Validator} {value : Json}
    (named : ∀ name, v = lazy name → R (resolve name value) (other name value))
    (asked : ∀ part next, Asks v value part next → R (f part next) (g part next)) :
    R (layer resolve f v value) (layer other g v value) := by
  cases v with
  | unknown => exact compatible.issues _
  | never => exact compatible.issues _
  | string rules => exact related_string compatible rules value
  | number rules => exact related_number compatible rules value
  | boolean => cases value <;> exact compatible.issues _
  | null => cases value <;> exact compatible.issues _
  | binary => exact compatible.issues _
  | literal l => exact compatible.require _ _
  | union members => exact compatible.anyOf fun v member => asked v value (.union member)
  | intersection members => exact compatible.allOf fun v member => asked v value (.intersection member)
  | array items low high => exact related_array compatible asked
  | tuple places rest => exact related_tuple compatible asked
  | object fields unknownKeys => exact related_object compatible asked
  | lazy name => exact named name rfl
  | nullable inner =>
    cases value with
    | null => exact compatible.issues _
    | _ => exact asked inner _ .nullable
  | refined inner refinements =>
    refine compatible.bind (asked inner value .refined) fun found => ?_
    split
    · exact related_refinements compatible refinements value
    · exact compatible.issues _
  | dispatch branches fallback => exact related_dispatch compatible asked

-- A whole evaluation asks for the meanings of the names in the validator, at the value or less deep.
theorem related_evaluate [Pattern.Engine] (resolve other : String → Check) {v : Validator} {value : Json}
    (named : v.NamesIn fun name => ∀ next : Json, next.Within value →
      R (resolve name next) (other name next)) :
    R (evaluate resolve v value) (evaluate other v value) := by
  induction v using parts_induction generalizing value with
  | step v ih =>
    rw [evaluate_layer, evaluate_layer]
    refine related_layer compatible resolve other ?_ fun part next asks => ih part (asks_part asks) ?_
    · rintro name rfl
      exact named name .here value (.inl rfl)
    · intro name mentioned deeper within
      exact named name (.inside (asks_part asks) mentioned) deeper (within.trans (asks_within asks))

end Related

end Validator

end ApiContract
