import ApiContract.Pattern.Search
import ApiContract.Proofs.ValidatorEquality
import ApiContract.Validator.Dispatch

namespace ApiContract.Validator

-- The responses of an operation, looked up in the table as it was written: no branch is left out, and
-- nothing is said of the order in which branches are tried.

section Lookup

-- The status of a response, if it is an integer from 0 to 65535.
def receivedStatus (response : Json) : Option Nat :=
  match response.get? "status" with
  | some (.number (.int (.ofNat status))) => if status ≤ 65535 then some status else none
  | _ => none

def receivedMediaType (response : Json) : Option String :=
  match response.get? "mediaType" with
  | some (.string mediaType) => some mediaType
  | _ => none

def receivedBody (response : Json) : Json := (response.get? "body").getD .null

-- The entry of the code itself, else that of its class, else the one for all others.
def entryFor (responses : ResponseTable) : Option Nat → Option MediaTable
  | some status => (responses.lookup (.code status)).or
      ((responses.lookup (.range (status / 100))).or (responses.lookup .default))
  | none => responses.lookup .default

-- The rule for bodies of a media type that is listed, else the rule for all others.
def ruleFor (media : MediaTable) (mediaType : Option String) : Option (Option Validator) :=
  (mediaType.bind fun listed => media.lookup listed).or (media.lookup "*/*")

def unexpectedField (field : Rejection) (response : Json) : Outcome :=
  .ok [⟨[.key field.key], field.unexpected (receivedText (response.get? field.key))⟩]

def lookupBody (bodyCheck : Validator → Check) (media : MediaTable) (response : Json) : Outcome :=
  if media = [] then .pass
  else match ruleFor media (receivedMediaType response) with
    | some (some validator) => .within (.key "body") (bodyCheck validator (receivedBody response))
    | some none => .pass
    | none => unexpectedField .mediaType response

def lookupResponse (bodyCheck : Validator → Check) (responses : ResponseTable) (response : Json) :
    Outcome :=
  match entryFor responses (receivedStatus response) with
  | some media => lookupBody bodyCheck media response
  | none => unexpectedField .status response

theorem receivedStatus_eq (response : Json) : receivedStatus response = statusOf? response := by
  unfold receivedStatus statusOf?
  generalize response.get? "status" = status
  cases status with
  | none => rfl
  | some value =>
    cases value with
    | number n =>
      cases n with
      | int n =>
        cases n with
        | ofNat n =>
          have fits : (0 ≤ (n : Int) ∧ (n : Int) < 65536) ↔ n ≤ 65535 := by omega
          show _ = if 0 ≤ (n : Int) ∧ (n : Int) < 65536 then some n else none
          simp only [fits]
        | negSucc n => rfl
      | _ => rfl
    | _ => rfl

end Lookup

-- What is done with the responses of one status, however it was pruned.
section Media

variable {resolve : String → Check}

-- The arm of one rule for all bodies; without a rule the media type is rejected.
def ruleArm (rule : Option (Option Validator)) : Arm Validator :=
  match rule with
  | some body => .body (bodyOf body)
  | none => .reject .mediaType

theorem ruleArm_paths [Pattern.Engine] {media : MediaTable} (listed : media ≠ []) (response : Json) :
    Outcome.paths (checkArm response
        ((ruleArm (ruleFor media (receivedMediaType response))).map (evaluate resolve)))
      = Outcome.paths (lookupBody (evaluate resolve) media response) := by
  unfold lookupBody
  rw [if_neg listed]
  cases ruleFor media (receivedMediaType response) with
  | none => rfl
  | some body => cases body <;> rfl

theorem same_arm_paths [Pattern.Engine] {arm other : Arm Validator} (equal : (arm == other) = true) (response : Json) :
    Outcome.paths (checkArm response (arm.map (evaluate resolve)))
      = Outcome.paths (checkArm response (other.map (evaluate resolve))) :=
  checkArm_alike (arm_alike (fun v _ => same_replaceable resolve v) equal) response

-- A media type has a case of its own unless it is the wildcard or its validator is that of the fallback.
theorem mediaCases_lookup {media : MediaTable} (distinct : (Keyed.keys media).Nodup)
    (fallback : Arm Validator) (mediaType : String) :
    (mediaCases fallback media).lookup mediaType = (media.lookup mediaType).bind fun body =>
      if mediaType = MediaType.wildcard ∨ (fallback == .body (bodyOf body)) = true then none
      else some (bodyOf body) := by
  have kept : mediaCases fallback media = media.filterMap fun entry =>
      if (entry.1 != MediaType.wildcard) = true then
        if fallback == .body (bodyOf entry.2) then none else some (entry.1, bodyOf entry.2)
      else none := List.filterMap_filter
  rw [lookup_eq_find?, kept, find?_kept mediaType distinct]
  · cases media.lookup mediaType with
    | none => rfl
    | some body =>
      simp only [Option.bind_some, bne_iff_ne, ne_eq, ite_not]
      by_cases wild : mediaType = MediaType.wildcard
      · rw [if_pos wild, if_pos (.inl wild), Option.map_none]
      · by_cases equal : (fallback == .body (bodyOf body)) = true
        · rw [if_neg wild, if_pos equal, if_pos (.inr equal), Option.map_none]
        · rw [if_neg wild, if_neg equal, if_neg (not_or.mpr ⟨wild, equal⟩), Option.map_some]
  · intro entry case made
    split at made
    · split at made
      · cases made
      · cases made
        exact beq_iff_eq
    · cases made

theorem checkArm_media (cases : List (String × Check)) (fallback : Arm Check) (response : Json) :
    checkArm response (.media cases fallback)
      = checkArm response ((((receivedMediaType response).bind fun mediaType =>
        cases.lookup mediaType).map .body).getD fallback) := by
  rw [checkArm]
  unfold receivedMediaType
  generalize response.get? "mediaType" = received
  cases received with
  | none => rfl
  | some value =>
    cases value with
    | string mediaType =>
      dsimp only [Option.bind_some]
      cases cases.lookup mediaType <;> rfl
    | _ => rfl

theorem mediaArm_eq {media : MediaTable} (listed : media ≠ []) :
    mediaArm media = match mediaCases (ruleArm (media.lookup MediaType.wildcard)) media with
      | [] => ruleArm (media.lookup MediaType.wildcard)
      | cases => .media cases (ruleArm (media.lookup MediaType.wildcard)) := by
  unfold mediaArm
  rw [if_neg (by simpa using listed)]
  rfl

-- With or without cases: the validator of the case for the media type, else the fallback.
theorem checkArm_mediaArm [Pattern.Engine] {media : MediaTable} (listed : media ≠ []) (response : Json) :
    checkArm response ((mediaArm media).map (evaluate resolve))
      = checkArm response (((((receivedMediaType response).bind fun mediaType =>
        (mediaCases (ruleArm (media.lookup MediaType.wildcard)) media).lookup mediaType).map .body).getD
          (ruleArm (media.lookup MediaType.wildcard))).map (evaluate resolve)) := by
  rw [mediaArm_eq listed]
  generalize ruleArm (media.lookup MediaType.wildcard) = fallback
  generalize mediaCases fallback media = cases
  cases cases with
  | nil => cases receivedMediaType response <;> rfl
  | cons first rest =>
    dsimp only
    rw [Arm.map, checkArm_media]
    cases receivedMediaType response with
    | none => rfl
    | some mediaType =>
      simp only [Option.bind_some]
      rw [lookup_map]
      cases (first :: rest).lookup mediaType <;> rfl

theorem mediaArm_paths [Pattern.Engine] {media : MediaTable} (distinct : (Keyed.keys media).Nodup) (response : Json) :
    Outcome.paths (checkArm response ((mediaArm media).map (evaluate resolve)))
      = Outcome.paths (lookupBody (evaluate resolve) media response) := by
  by_cases empty : media = []
  · subst empty
    rfl
  · rw [checkArm_mediaArm empty, ← ruleArm_paths empty]
    unfold ruleFor
    cases receivedMediaType response with
    | none => rfl
    | some mediaType =>
      simp only [Option.bind_some]
      rw [mediaCases_lookup distinct]
      cases found : media.lookup mediaType with
      | none => rfl
      | some body =>
        rw [Option.bind_some, Option.some_or]
        split
        · rename_i pruned
          rcases pruned with wild | equal
          · rw [← wild, found]
            rfl
          · exact same_arm_paths equal response
        · rfl

end Media

-- Which entry a status falls to. A branch that was left out behaves as the fallback, and nothing that
-- is left stands in its way.
section Statuses

variable {responses : ResponseTable}

theorem codeBranches_find (distinct : (Keyed.keys responses).Nodup) (status : Nat) :
    (codeBranches responses).find? (fun branch => branch.status.holds status)
      = (responses.lookup (.code status)).bind fun media =>
        if mediaArm media == fallbackArm responses
            && !(rangeBranches responses).any fun range => range.status.holds status then none
        else some ⟨.exact status, mediaArm media⟩ := by
  refine find?_kept (.code status) distinct ?_
  rintro ⟨key, media⟩ branch made
  cases key with
  | code code =>
    dsimp only at made
    split at made
    · cases made
    · cases made
      simp [StatusMatch.holds]
  | range hundreds => cases made
  | default => cases made

theorem rangeBranches_find (distinct : (Keyed.keys responses).Nodup) (status : Nat) :
    (rangeBranches responses).find? (fun branch => branch.status.holds status)
      = (responses.lookup (.range (status / 100))).bind fun media =>
        if mediaArm media == fallbackArm responses then none
        else some ⟨.range (status / 100), mediaArm media⟩ := by
  refine find?_kept (.range (status / 100)) distinct ?_
  rintro ⟨key, media⟩ branch made
  cases key with
  | code code => cases made
  | range hundreds =>
    dsimp only at made
    split at made
    · cases made
    · cases made
      show (status / 100 == hundreds) = true ↔ Status.range hundreds = .range (status / 100)
      rw [beq_iff_eq, Status.range.injEq, eq_comm]
  | default => cases made

theorem selectArm_some {V : Type} (branches : List (Branch V)) (fallback : Arm V) (status : Nat) :
    selectArm branches fallback (some status)
      = ((branches.find? fun branch => branch.status.holds status).map Branch.arm).getD fallback := by
  unfold selectArm
  dsimp only
  cases branches.find? fun branch => branch.status.holds status <;> rfl

theorem selectArm_map {V W : Type} (f : V → W) (branches : List (Branch V)) (fallback : Arm V)
    (status : Option Nat) :
    selectArm (branches.map (Branch.map f)) (fallback.map f) status
      = (selectArm branches fallback status).map f := by
  cases status with
  | none => rfl
  | some status =>
    have sameStatus : ((fun branch : Branch W => branch.status.holds status) ∘ Branch.map f)
        = fun branch => branch.status.holds status := rfl
    rw [selectArm_some, selectArm_some, List.find?_map, sameStatus]
    cases branches.find? fun branch => branch.status.holds status <;> rfl

-- The arm of the entry for a status, without a look at any other entry.
def armFor (responses : ResponseTable) (status : Option Nat) : Arm Validator :=
  ((entryFor responses status).map mediaArm).getD (.reject .status)

theorem fallbackArm_eq (responses : ResponseTable) : fallbackArm responses = armFor responses none := by
  unfold fallbackArm
  show _ = ((responses.lookup .default).map mediaArm).getD _
  cases responses.lookup .default <;> rfl

theorem armFor_code {status : Nat} {media : MediaTable} (found : responses.lookup (.code status) = some media) :
    armFor responses (some status) = mediaArm media := by
  dsimp only [armFor, entryFor]
  rw [found]
  rfl

theorem armFor_range {status : Nat} (absent : responses.lookup (.code status) = none) :
    armFor responses (some status)
      = ((responses.lookup (.range (status / 100))).map mediaArm).getD (fallbackArm responses) := by
  rw [fallbackArm_eq]
  dsimp only [armFor, entryFor]
  rw [absent, Option.none_or]
  cases responses.lookup (.range (status / 100)) <;> rfl

theorem selectArm_paths [Pattern.Engine] {resolve : String → Check} (distinct : (Keyed.keys responses).Nodup)
    (status : Option Nat) (response : Json) :
    Outcome.paths (checkArm response ((selectArm (codeBranches responses ++ rangeBranches responses)
        (fallbackArm responses) status).map (evaluate resolve)))
      = Outcome.paths (checkArm response ((armFor responses status).map (evaluate resolve))) := by
  cases status with
  | none =>
    rw [← fallbackArm_eq]
    rfl
  | some status =>
    rw [selectArm_some, List.find?_append, codeBranches_find distinct]
    cases exact : responses.lookup (.code status) with
    | some media =>
      rw [armFor_code exact, Option.bind_some]
      split
      · rename_i pruned
        obtain ⟨equal, uncovered⟩ := (Bool.and_eq_true _ _).mp pruned
        have unmatched : (rangeBranches responses).find? (fun branch => branch.status.holds status) = none :=
          List.find?_eq_none.mpr (List.any_eq_false.mp ((Bool.not_eq_true' _).mp uncovered))
        rw [unmatched]
        exact (same_arm_paths equal response).symm
      · rfl
    | none =>
      rw [armFor_range exact, Option.bind_none, Option.none_or, rangeBranches_find distinct]
      cases responses.lookup (.range (status / 100)) with
      | none => rfl
      | some media =>
        rw [Option.bind_some]
        split
        · rename_i equal
          exact (same_arm_paths equal response).symm
        · rfl

end Statuses

-- A map from statuses to maps from media types.
structure IsMap (responses : ResponseTable) : Prop where
  statuses : (Keyed.keys responses).Nodup
  mediaTypes : ∀ entry ∈ responses, (Keyed.keys entry.2).Nodup

theorem entryFor_mem {responses : ResponseTable} {status : Option Nat} {media : MediaTable}
    (found : entryFor responses status = some media) : ∃ key, (key, media) ∈ responses := by
  cases status with
  | none => exact ⟨_, lookup_mem found⟩
  | some status =>
    rcases Option.or_eq_some_iff.mp found with exact | ⟨_, found⟩
    · exact ⟨_, lookup_mem exact⟩
    · rcases Option.or_eq_some_iff.mp found with ranged | ⟨_, found⟩
      · exact ⟨_, lookup_mem ranged⟩
      · exact ⟨_, lookup_mem found⟩

theorem armFor_paths [Pattern.Engine] {resolve : String → Check} {responses : ResponseTable} (isMap : IsMap responses)
    (response : Json) :
    Outcome.paths (checkArm response
        ((armFor responses (receivedStatus response)).map (evaluate resolve)))
      = Outcome.paths (lookupResponse (evaluate resolve) responses response) := by
  unfold armFor lookupResponse
  cases found : entryFor responses (receivedStatus response) with
  | none => rfl
  | some media =>
    obtain ⟨key, member⟩ := entryFor_mem found
    exact mediaArm_paths (isMap.mediaTypes _ member) response

theorem branchSequence_paths [Pattern.Engine] {resolve : String → Check} {responses : ResponseTable}
    (isMap : IsMap responses) (fields : List (String × Json)) :
    Outcome.paths (evaluate resolve (branchSequence responses) (.object fields))
      = Outcome.paths (lookupResponse (evaluate resolve) responses (.object fields)) := by
  unfold branchSequence
  rw [evaluate_dispatch, checkDispatch, selectArm_map, ← receivedStatus_eq,
    selectArm_paths isMap.statuses, armFor_paths isMap]

theorem ofResponses_dispatch {responses : ResponseTable} {branches : List (Branch Validator)}
    {fallback : Arm Validator} (dispatched : ofResponses responses = .dispatch branches fallback) :
    branchSequence responses = .dispatch branches fallback := by
  unfold ofResponses at dispatched
  split at dispatched
  · cases dispatched
  · split at dispatched
    · cases dispatched
    · exact dispatched

-- Where responses have a dispatch, leaving out and reordering branches changes neither the verdict nor
-- the places of the issues.
theorem dispatch_agrees_with_lookup [Pattern.Engine] {responses : ResponseTable} {branches : List (Branch Validator)}
    {fallback : Arm Validator} (isMap : IsMap responses)
    (dispatched : ofResponses responses = .dispatch branches fallback)
    (table : List (String × Validator)) (fields : List (String × Json)) :
    Outcome.paths (check table (.dispatch branches fallback) (.object fields))
      = Outcome.paths (lookupResponse (evaluate (following table (.object fields))) responses
          (.object fields)) := by
  rw [← ofResponses_dispatch dispatched]
  exact branchSequence_paths isMap fields

-- Code 404 behaves as the fallback but keeps its branch, since 4XX does not; code 500 has none.
def answers : ResponseTable :=
  [(.range 4, [("application/json", some .boolean)]),
    (.code 200, [("application/json", some (.string {})), ("*/*", none)]),
    (.code 404, [("*/*", some .null)]),
    (.code 500, [("text/plain", some .null), ("*/*", some .null)]),
    (.default, [("*/*", some .null)])]

def missing : List (String × Json) := [("body", .bool true), ("status", .number (.int 404))]

theorem missing_agrees_with_lookup :
    IsMap answers ∧
    ofResponses answers = .dispatch
      [⟨.exact 200, .media [("application/json", .string {})] (.body .unknown)⟩,
        ⟨.exact 404, .body .null⟩,
        ⟨.range 4, .media [("application/json", .boolean)] (.reject .mediaType)⟩] (.body .null) ∧
    Outcome.paths (check [] (ofResponses answers) (.object missing)) = .ok [[.key "body"]] ∧
    Outcome.paths (check [] (ofResponses answers) (.object missing))
      = Outcome.paths (lookupResponse (evaluate (following [] (.object missing))) answers
          (.object missing)) := by
  have isMap : IsMap answers := ⟨by decide, by decide⟩
  exact ⟨isMap, rfl, by rfl, dispatch_agrees_with_lookup isMap rfl [] missing⟩

end ApiContract.Validator
