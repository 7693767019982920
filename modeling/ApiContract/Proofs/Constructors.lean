import ApiContract.Proofs.ValidatorEquality

namespace ApiContract.Validator

-- Building a validator in canonical form does not change what it accepts. Only verdicts are compared:
-- a union that is left with one member reports that member's issues instead of its own.

namespace Outcome

variable {α : Type}

theorem anyOf_append (check : α → Outcome) (xs ys : List α) :
    anyOf check (xs ++ ys)
      = (anyOf check xs).bind fun issues => if issues.isEmpty then pass else anyOf check ys := by
  induction xs with
  | nil => rfl
  | cons x rest ih =>
    simp only [List.cons_append, anyOf]
    cases check x with
    | error e => rfl
    | ok issues =>
      cases issues with
      | nil => rfl
      | cons issue issues => exact ih

theorem allOf_append (check : α → Outcome) (xs ys : List α) :
    allOf check (xs ++ ys) = both (allOf check xs) (allOf check ys) := by
  induction xs with
  | nil =>
    show allOf check ys = (allOf check ys).map ([] ++ ·)
    cases allOf check ys <;> rfl
  | cons x rest ih =>
    simp only [List.cons_append, allOf, ih]
    cases check x with
    | error e => rfl
    | ok issues =>
      cases allOf check rest with
      | error e => rfl
      | ok others =>
        cases allOf check ys with
        | error e => rfl
        | ok last => simp [both, Except.bind, Except.map]

-- Members that fail without an error can be left out of a union.
theorem anyOf_filter (check : α → Outcome) (keep : α → Bool) (xs : List α)
    (dropped : ∀ x ∈ xs, keep x = false → verdict (check x) = .ok false) :
    anyOf check (xs.filter keep) = anyOf check xs := by
  induction xs with
  | nil => rfl
  | cons x rest ih =>
    have later := ih fun y member => dropped y (List.mem_cons_of_mem x member)
    cases kept : keep x with
    | true => simp only [List.filter_cons, kept, if_true, anyOf, later]
    | false =>
      have fails := dropped x List.mem_cons_self kept
      obtain ⟨issues, checked, some⟩ := map_ok fails
      simp only [List.filter_cons, kept, Bool.false_eq_true, if_false, later, anyOf, checked]
      show _ = if issues.isEmpty then pass else anyOf check rest
      rw [some, if_neg Bool.false_ne_true]

-- A member found equal to an earlier one is reached only when that one has failed.
theorem anyOf_distinct [BEq α] (check : α → Outcome)
    (respects : ∀ x y, (x == y) = true → verdict (check x) = verdict (check y)) (xs : List α) :
    anyOf check (distinct xs) = anyOf check xs := by
  induction xs with
  | nil => rfl
  | cons x rest ih =>
    simp only [distinct, anyOf]
    cases checked : check x with
    | error e => rfl
    | ok issues =>
      cases issues with
      | nil => rfl
      | cons issue issues =>
        show anyOf check _ = anyOf check rest
        rw [anyOf_filter, ih]
        intro y _ equal
        rw [← respects x y (by simpa using equal), checked]
        rfl

theorem verdict_both (first second : Outcome) :
    verdict (both first second)
      = (verdict first).bind fun passed => (verdict second).map (passed && ·) := by
  cases first with
  | error e => rfl
  | ok issues =>
    cases second with
    | error e => rfl
    | ok others => cases issues <;> simp [verdict, both, Except.bind, Except.map]

-- Once one verdict counts, further members with the same verdict change nothing.
theorem verdict_allOf_filter (check : α → Outcome) (keep : α → Bool) (passed : Bool) (xs : List α)
    (dropped : ∀ x ∈ xs, keep x = false → verdict (check x) = .ok passed) :
    (verdict (allOf check (xs.filter keep))).map (passed && ·)
      = (verdict (allOf check xs)).map (passed && ·) := by
  induction xs with
  | nil => rfl
  | cons x rest ih =>
    have later := ih fun y member => dropped y (List.mem_cons_of_mem x member)
    have split (ys : List α) : allOf check (x :: ys) = both (check x) (allOf check ys) := rfl
    cases kept : keep x with
    | true =>
      simp only [List.filter_cons, kept, if_true, split, verdict_both]
      cases verdict (check x) with
      | error e => rfl
      | ok b =>
        generalize verdict (allOf check (rest.filter keep)) = first at later ⊢
        generalize verdict (allOf check rest) = second at later ⊢
        cases first <;> cases second <;> cases passed <;> cases b <;>
          simp_all [Except.map, Except.bind]
    | false =>
      simp only [List.filter_cons, kept, Bool.false_eq_true, if_false, split, verdict_both,
        dropped x List.mem_cons_self kept, later]
      generalize verdict (allOf check rest) = second
      cases second <;> cases passed <;> simp [Except.map, Except.bind]

theorem verdict_allOf_distinct [BEq α] (check : α → Outcome)
    (respects : ∀ x y, (x == y) = true → verdict (check x) = verdict (check y)) (xs : List α) :
    verdict (allOf check (distinct xs)) = verdict (allOf check xs) := by
  induction xs with
  | nil => rfl
  | cons x rest ih =>
    have split (ys : List α) : allOf check (x :: ys) = both (check x) (allOf check ys) := rfl
    rw [distinct, split, split, verdict_both, verdict_both, ← ih]
    cases decided : verdict (check x) with
    | error e => rfl
    | ok passed =>
      apply verdict_allOf_filter
      intro y _ equal
      rw [← respects x y (by simpa using equal), decided]

end Outcome

-- Refinements themselves never raise an error.
theorem checkRefinements_ok (value : Json) (refinements : List Refinement) :
    ∃ issues, checkRefinements refinements value = .ok issues := by
  unfold checkRefinements
  induction refinements with
  | nil => exact ⟨[], rfl⟩
  | cons refinement rest ih =>
    obtain ⟨issues, later⟩ := ih
    simp only [Outcome.allOf, later]
    cases refinementHolds value refinement with
    | true => exact ⟨_, rfl⟩
    | false => exact ⟨_, rfl⟩

section Constructors

variable [Pattern.Engine] (resolve : String → Check) (value : Json)

theorem verdict_same (v w : Validator) (equal : (v == w) = true) :
    Outcome.verdict (evaluate resolve v value) = Outcome.verdict (evaluate resolve w value) :=
  Outcome.verdict_of_paths (same_replaceable resolve v w equal value)

theorem anyOf_unionParts (vs : List Validator) :
    Outcome.anyOf (fun v => evaluate resolve v value) (vs.flatMap unionParts)
      = Outcome.anyOf (fun v => evaluate resolve v value) vs := by
  induction vs with
  | nil => rfl
  | cons v rest ih =>
    rw [List.flatMap_cons, Outcome.anyOf_append, ih]
    cases v with
    | union members =>
      show (Outcome.anyOf _ members).bind _ = (evaluate resolve (union members) value).bind _
      rw [evaluate_union]
    | _ =>
      simp only [unionParts, Outcome.anyOf]
      generalize evaluate resolve _ value = first
      cases first with
      | error e => rfl
      | ok issues => cases issues <;> rfl

theorem verdict_unionOf (vs : List Validator) :
    Outcome.verdict (evaluate resolve (unionOf vs) value)
      = Outcome.verdict (evaluate resolve (union vs) value) := by
  have flat : Outcome.anyOf (fun v => evaluate resolve v value) (distinct (vs.flatMap unionParts))
      = evaluate resolve (union vs) value := by
    rw [Outcome.anyOf_distinct _ (verdict_same resolve value), anyOf_unionParts, evaluate_union]
  rw [← flat, unionOf]
  cases distinct (vs.flatMap unionParts) with
  | nil => rfl
  | cons v rest =>
    cases rest with
    | nil =>
      simp only [Outcome.anyOf]
      generalize evaluate resolve v value = first
      cases first with
      | error e => rfl
      | ok issues => cases issues <;> rfl
    | cons w rest => rw [evaluate_union]

theorem allOf_intersectionParts (vs : List Validator) :
    Outcome.allOf (fun v => evaluate resolve v value) (vs.flatMap intersectionParts)
      = Outcome.allOf (fun v => evaluate resolve v value) vs := by
  induction vs with
  | nil => rfl
  | cons v rest ih =>
    rw [List.flatMap_cons, Outcome.allOf_append, ih]
    cases v with
    | intersection members =>
      show Outcome.both (Outcome.allOf _ members) _ = Outcome.both (evaluate resolve (intersection members) value) _
      rw [evaluate_intersection]
    | unknown => rfl
    | _ =>
      simp only [intersectionParts, Outcome.allOf]
      generalize evaluate resolve _ value = first
      cases first with
      | error e => rfl
      | ok issues => simp [Outcome.both, Outcome.pass, Except.bind, Except.map]

theorem verdict_intersectionOf (vs : List Validator) :
    Outcome.verdict (evaluate resolve (intersectionOf vs) value)
      = Outcome.verdict (evaluate resolve (intersection vs) value) := by
  have flat : Outcome.verdict (Outcome.allOf (fun v => evaluate resolve v value)
        (distinct (vs.flatMap intersectionParts)))
      = Outcome.verdict (evaluate resolve (intersection vs) value) := by
    rw [Outcome.verdict_allOf_distinct _ (verdict_same resolve value), allOf_intersectionParts,
      evaluate_intersection]
  rw [← flat, intersectionOf]
  cases distinct (vs.flatMap intersectionParts) with
  | nil => rfl
  | cons v rest =>
    cases rest with
    | nil =>
      simp only [Outcome.allOf]
      generalize evaluate resolve v value = first
      cases first with
      | error e => rfl
      | ok issues => simp [Outcome.pass, Except.bind, Except.map]
    | cons w rest => rw [evaluate_intersection]

theorem verdict_refine (refinements : List Refinement) (v : Validator) :
    Outcome.verdict (evaluate resolve (refine refinements v) value)
      = Outcome.verdict (evaluate resolve (refined v refinements) value) := by
  cases refinements with
  | nil =>
    show Outcome.verdict (evaluate resolve v value) = _
    rw [evaluate_refined]
    generalize evaluate resolve v value = first
    cases first with
    | error e => rfl
    | ok issues => cases issues <;> rfl
  | cons refinement rest =>
    cases v with
    | refined inner others =>
      show Outcome.verdict (evaluate resolve (refined inner (others ++ refinement :: rest)) value) = _
      rw [evaluate_refined, evaluate_refined, evaluate_refined]
      generalize evaluate resolve inner value = first
      cases first with
      | error e => rfl
      | ok issues =>
        cases issues with
        | cons issue issues => rfl
        | nil =>
          have split : checkRefinements (others ++ refinement :: rest) value
              = .both (checkRefinements others value) (checkRefinements (refinement :: rest) value) :=
            Outcome.allOf_append _ _ _
          obtain ⟨first, early⟩ := checkRefinements_ok value others
          obtain ⟨second, late⟩ := checkRefinements_ok value (refinement :: rest)
          simp only [Except.bind, List.isEmpty_nil, if_true, split, early, late]
          cases first <;> rfl
    | _ => rfl

variable {resolve value}

theorem orNull_pass {v : Validator} : evaluate resolve v.orNull value = .ok [] ↔
    value = .null ∨ evaluate resolve v value = .ok [] := by
  unfold orNull
  split
  · exact ⟨.inr, fun either => either.elim (fun null => by rw [null]; rfl) id⟩
  · rw [evaluate_nullable]
    exact ⟨.inr, fun either => either.elim (fun null => by rw [null]; rfl) id⟩
  · exact ⟨.inr, fun _ => rfl⟩
  · rw [evaluate_nullable]
    cases value with
    | null => exact ⟨fun _ => .inl rfl, fun _ => rfl⟩
    | _ => exact ⟨.inr, fun either => either.elim nofun id⟩

end Constructors

-- The limit on references goes by the table and the value, so it is the same on both sides.
theorem constructors_keep_verdicts [Pattern.Engine] (table : List (String × Validator))
    (members : List Validator) (v : Validator) (refinements : List Refinement) (value : Json) :
    Outcome.verdict (check table (unionOf members) value) = Outcome.verdict (check table (union members) value) ∧
    Outcome.verdict (check table (intersectionOf members) value)
      = Outcome.verdict (check table (intersection members) value) ∧
    Outcome.verdict (check table (refine refinements v) value)
      = Outcome.verdict (check table (refined v refinements) value) :=
  ⟨verdict_unionOf _ value members, verdict_intersectionOf _ value members, verdict_refine _ value refinements v⟩

end ApiContract.Validator
