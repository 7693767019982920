import ApiContract.Pattern.Search
import ApiContract.Proofs.Acceptance
import ApiContract.Proofs.RoundedIntegers

namespace ApiContract

-- A table with one status and one media type has a validator of its own kind, an object that spells both
-- out as numbers and texts. What it passes is compared here with what the branches made from the same
-- table would pass.

def Status.Takes (code : Nat) : Status → Prop
  | .code n => n = code
  | .range hundreds => code / 100 = hundreds
  | .default => True

instance (code : Nat) (status : Status) : Decidable (status.Takes code) :=
  match status with
  | .code n => inferInstanceAs (Decidable (n = code))
  | .range hundreds => inferInstanceAs (Decidable (code / 100 = hundreds))
  | .default => inferInstanceAs (Decidable True)

namespace Validator

-- A response as it is validated. One that came without a media type has null in its place.
def received (code : Nat) (mediaType : Option String) (body : Json) : Json :=
  .object [("body", body), ("mediaType", (mediaType.map .string).getD .null), ("status", .number (.int code))]

section Shortcut

variable [Pattern.Engine] {resolve : String → Check} {code : Nat}

theorem codeValidator_pass (small : code ≤ 65535) (n : Nat) :
    evaluate resolve (statusValidator (.code n)) (.number (.int code)) = .ok [] ↔ n = code := by
  have fits : code < Nat.pow 2 52 := Nat.lt_of_le_of_lt small (by decide)
  refine Outcome.require_pass.trans ?_
  show (Double.ofInt code == Double.ofInt n) = true ↔ _
  rw [Double.beq_iff, Double.ofInt_eq_ofInt fits, eq_comm]

theorem rangeValidator_pass (small : code ≤ 65535) (hundreds : Nat) :
    evaluate resolve (statusValidator (.range hundreds)) (.number (.int code)) = .ok [] ↔ code / 100 = hundreds := by
  have fits : code < Nat.pow 2 52 := Nat.lt_of_le_of_lt small (by decide)
  have lower : (Bound.inclusive (.ofInt (hundreds * 100))).IsBelow (.ofInt code) ↔ hundreds * 100 ≤ code :=
    Double.ofInt_le_ofInt fits
  have upper : (Bound.strict (.ofInt (hundreds * 100 + 100))).IsAbove (.ofInt code) ↔ code < hundreds * 100 + 100 :=
    Double.ofInt_lt_ofInt fits
  have between : code / 100 = hundreds ↔ hundreds * 100 ≤ code ∧ code < hundreds * 100 + 100 := by omega
  rw [statusValidator, number_pass, between, ← lower, ← upper]
  simp only [← fitsNumber_iff]
  constructor
  · rintro ⟨_, ⟨⟩, _, range, _⟩
    exact ⟨range.above _ rfl, range.below _ rfl⟩
  · rintro ⟨above, below⟩
    refine ⟨_, rfl, fun _ => Double.isIntegral_ofInt code, ⟨?_, ?_⟩, by simp⟩
    · rintro _ ⟨⟩
      exact above
    · rintro _ ⟨⟩
      exact below

theorem statusValidator_pass (small : code ≤ 65535) (status : Status) :
    evaluate resolve (statusValidator status) (.number (.int code)) = .ok [] ↔ status.Takes code := by
  cases status with
  | code n => exact codeValidator_pass small n
  | range hundreds => exact rangeValidator_pass small hundreds
  | default =>
    refine iff_of_true (number_pass.mpr ⟨_, rfl, ?_, rfl, rfl, by simp⟩) trivial
    exact fun _ => Double.isIntegral_ofInt code

-- Any media type will do for the wildcard, but there has to be one.
theorem mediaTypeValidator_pass (mediaType : String) (given : Option String) :
    evaluate resolve (if mediaType = MediaType.wildcard then .string {} else .literal (.string mediaType))
        ((given.map .string).getD .null) = .ok [] ↔
      (given = some mediaType ∨ mediaType = MediaType.wildcard) ∧ (mediaType = MediaType.wildcard → given ≠ none) := by
  by_cases wild : mediaType = MediaType.wildcard
  · rw [if_pos wild]
    cases given with
    | none => exact iff_of_false Outcome.expected_ne_pass (by simp [wild])
    | some text => exact iff_of_true rfl (by simp [wild])
  · rw [if_neg wild]
    refine (Outcome.require_pass.trans literalHolds_iff).trans ?_
    cases given with
    | none => simp [Literal.Denotes, wild]
    | some text => simp [Literal.Denotes, wild, eq_comm]

theorem envelope_pass_iff (small : code ≤ 65535) (status : Status) (mediaType : String) (body : Option Validator)
    (given : Option String) (b : Json) :
    evaluate resolve (envelope status mediaType body) (received code given b) = .ok [] ↔
      status.Takes code ∧
      ((given = some mediaType ∨ mediaType = MediaType.wildcard) ∧ (mediaType = MediaType.wildcard → given ≠ none)) ∧
      evaluate resolve (bodyOf body) b = .ok [] := by
  rw [← statusValidator_pass small, ← mediaTypeValidator_pass mediaType given, envelope, received, object_pass]
  constructor
  · rintro ⟨_, ⟨⟩, passes⟩
    obtain ⟨first, later⟩ := List.forall_mem_cons.mp passes.present
    obtain ⟨second, last⟩ := List.forall_mem_cons.mp later
    exact ⟨first _ rfl, second _ rfl, List.forall_mem_singleton.mp last _ rfl⟩
  · rintro ⟨first, second, third⟩
    refine ⟨_, rfl, ?_, ?_, ?_, ?_⟩
    · exact List.forall_mem_cons.mpr ⟨fun _ => rfl, List.forall_mem_cons.mpr
        ⟨fun _ => rfl, List.forall_mem_singleton.mpr fun _ => rfl⟩⟩
    · refine List.forall_mem_cons.mpr ⟨?_, List.forall_mem_cons.mpr ⟨?_, List.forall_mem_singleton.mpr ?_⟩⟩
      · exact fun x found => Option.some.inj found ▸ first
      · exact fun x found => Option.some.inj found ▸ second
      · exact fun x found => Option.some.inj found ▸ third
    · intro strict
      cases strict
    · rintro _ ⟨⟩ key x _ _
      rfl

end Shortcut

section Branches

variable {resolve : String → Check} {code : Nat} {status : Status} {mediaType : String} {body : Option Validator}
  {given : Option String} {b : Json}

theorem lookup_single {κ α : Type} [DecidableEq κ] (key listed : κ) (x : α) :
    [(listed, x)].lookup key = if key = listed then some x else none := by
  by_cases same : key = listed
  · simp [same]
  · rw [List.lookup_cons, beq_false_of_ne same, if_neg same]
    rfl

theorem entryFor_single (status : Status) (media : MediaTable) (code : Nat) :
    entryFor [(status, media)] (some code) = if status.Takes code then some media else none := by
  cases status with
  | code n => simp [entryFor, lookup_single, Status.Takes, eq_comm]
  | range hundreds =>
    by_cases inside : code / 100 = hundreds
    · simp [entryFor, lookup_single, Status.Takes, inside]
    · simp [entryFor, lookup_single, Status.Takes, inside]
  | default => simp [entryFor, lookup_single, Status.Takes]

theorem ruleFor_single (mediaType : String) (body : Option Validator) (given : Option String) :
    ruleFor [(mediaType, body)] given =
      if given = some mediaType ∨ mediaType = MediaType.wildcard then some body else none := by
  have wildcard : ("*/*" = mediaType) = (mediaType = MediaType.wildcard) := propext eq_comm
  cases given with
  | none => simp [ruleFor, lookup_single, wildcard]
  | some text =>
    by_cases same : text = mediaType
    · simp [ruleFor, lookup_single, same]
    · simp [ruleFor, lookup_single, same, wildcard]

theorem branchSequence_pass_iff [Pattern.Engine] (small : code ≤ 65535) :
    evaluate resolve (branchSequence [(status, [(mediaType, body)])]) (received code given b) = .ok [] ↔
      status.Takes code ∧ (given = some mediaType ∨ mediaType = MediaType.wildcard) ∧
      evaluate resolve (bodyOf body) b = .ok [] := by
  have isMap : IsMap [(status, [(mediaType, body)])] := ⟨by simp [Keyed.keys], by simp [Keyed.keys]⟩
  have coded : receivedStatus (received code given b) = some code := if_pos small
  have typed : receivedMediaType (received code given b) = given := by cases given <;> rfl
  have looked : Outcome.paths (evaluate resolve (branchSequence [(status, [(mediaType, body)])])
        (received code given b)) =
      Outcome.paths (lookupResponse (evaluate resolve) [(status, [(mediaType, body)])] (received code given b)) :=
    branchSequence_paths isMap _
  rw [← Outcome.verdict_pass, Outcome.verdict_of_paths looked, Outcome.verdict_pass, lookupResponse, coded,
    entryFor_single]
  by_cases taken : status.Takes code
  · rw [if_pos taken, and_iff_right taken]
    dsimp only [lookupBody]
    rw [if_neg (List.cons_ne_nil _ _), typed, ruleFor_single]
    by_cases ruled : given = some mediaType ∨ mediaType = MediaType.wildcard
    · rw [if_pos ruled, and_iff_right ruled]
      cases body with
      | none => exact iff_of_true rfl rfl
      | some v => exact Outcome.within_pass
    · rw [if_neg ruled]
      exact iff_of_false (by simp [unexpectedField]) fun passes => ruled passes.1
  · rw [if_neg taken]
    exact iff_of_false (by simp [unexpectedField]) fun passes => taken passes.1

end Branches

-- The two agree but for the wildcard: the object asks for some media type, the branches for none.
theorem shortcut_agrees_with_branches [Pattern.Engine] {code : Nat} (small : code ≤ 65535) (status : Status)
    (mediaType : String) (body : Option Validator) (table : List (String × Validator))
    (given : Option String) (b : Json) :
    check table (ofResponses [(status, [(mediaType, body)])]) (received code given b) = .ok [] ↔
      check table (branchSequence [(status, [(mediaType, body)])]) (received code given b) = .ok [] ∧
        (mediaType = MediaType.wildcard → given ≠ none) := by
  show evaluate _ (envelope status mediaType body) _ = _ ↔ evaluate _ (branchSequence _) _ = _ ∧ _
  rw [envelope_pass_iff small, branchSequence_pass_iff small]
  constructor
  · rintro ⟨taken, ⟨ruled, typed⟩, passed⟩
    exact ⟨⟨taken, ruled, passed⟩, typed⟩
  · rintro ⟨⟨taken, ruled, passed⟩, typed⟩
    exact ⟨taken, ⟨ruled, typed⟩, passed⟩

def flagAnswers : ResponseTable := [(.range 2, [("*/*", some .boolean)])]

-- A flag of some media type passes both ways, a flag without one only by branches.
theorem untyped_flag_passes_by_branches :
    check [] (branchSequence flagAnswers) (received 299 (some "text/plain") (.bool true)) = .ok [] ∧
    check [] (ofResponses flagAnswers) (received 299 (some "text/plain") (.bool true)) = .ok [] ∧
    check [] (branchSequence flagAnswers) (received 299 none (.bool true)) = .ok [] ∧
    check [] (ofResponses flagAnswers) (received 299 none (.bool true)) ≠ .ok [] := by
  have typed : check [] (branchSequence flagAnswers) (received 299 (some "text/plain") (.bool true)) = .ok [] := by rfl
  have untyped : check [] (branchSequence flagAnswers) (received 299 none (.bool true)) = .ok [] := by rfl
  have agrees (given : Option String) := shortcut_agrees_with_branches (show 299 ≤ 65535 by decide) (.range 2) "*/*"
    (some .boolean) [] given (.bool true)
  refine ⟨typed, (agrees _).mpr ⟨typed, by simp⟩, untyped, fun passed => ?_⟩
  exact ((agrees none).mp passed).2 rfl rfl

end Validator

end ApiContract
