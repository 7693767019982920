import ApiContract.Pattern.Search
import ApiContract.Proofs.ContractReferences
import ApiContract.Proofs.PassingValues
import ApiContract.Proofs.ReferenceLimits

namespace ApiContract

-- How the validator of a response treats the answers of each variant. It was made from a table by status
-- and media type, in which a later variant takes the place of an earlier one.

open Validator (IsMap bodyOf branchSequence check evaluate ofResponses)

namespace ResponseContract

section Table

-- The variant that is left for a status and a media type.
def lastFor (variants : List ResponseVariant) (status : Status) (mediaType : String) : Option ResponseVariant :=
  variants.reverse.find? fun variant => variant.status == status && variant.mediaType == some mediaType

theorem lastFor_concat (variants : List ResponseVariant) (variant : ResponseVariant) (status : Status)
    (mediaType : String) :
    lastFor (variants ++ [variant]) status mediaType =
      if variant.status = status ∧ variant.mediaType = some mediaType then some variant
      else lastFor variants status mediaType := by
  unfold lastFor
  rw [List.reverse_append, List.reverse_singleton, List.singleton_append, List.find?_cons]
  by_cases here : variant.status = status ∧ variant.mediaType = some mediaType
  · rw [if_pos here]
    simp [here]
  · rw [if_neg here]
    split
    · rename_i found
      simp only [Bool.and_eq_true, beq_iff_eq] at found
      exact absurd found here
    · rfl

theorem table_concat (variants : List ResponseVariant) (variant : ResponseVariant) :
    table (variants ++ [variant]) = variant.intoTable (table variants) :=
  List.foldl_concat ..

-- The validator of a status and a media type; the outer option tells whether they are in the table.
def ruleOf (responses : ResponseTable) (status : Status) (mediaType : String) : Option (Option Validator) :=
  (responses.lookup status).bind fun media => media.lookup mediaType

theorem lookup_getD (responses : ResponseTable) (status : Status) (mediaType : String) :
    ((responses.lookup status).getD []).lookup mediaType = ruleOf responses status mediaType := by
  unfold ruleOf
  cases responses.lookup status <;> rfl

theorem ruleOf_intoTable (responses : ResponseTable) (variant : ResponseVariant) (status : Status)
    (mediaType : String) :
    ruleOf (variant.intoTable responses) status mediaType =
      if variant.status = status ∧ variant.mediaType = some mediaType then some variant.validator
      else ruleOf responses status mediaType := by
  unfold ResponseVariant.intoTable Keyed.update
  by_cases same : status = variant.status
  · subst same
    rw [ruleOf, lookup_insert_self, Option.bind_some]
    cases variant.mediaType with
    | none => simpa using lookup_getD responses variant.status mediaType
    | some other =>
      dsimp only
      by_cases equal : other = mediaType
      · rw [if_pos ⟨rfl, congrArg some equal⟩, equal, lookup_insert_self]
      · rw [if_neg fun both => equal (Option.some.inj both.2), lookup_insert_of_ne (Ne.symm equal), lookup_getD]
  · rw [ruleOf, lookup_insert_of_ne same, if_neg fun both => same both.1.symm]
    rfl

theorem ruleOf_table (variants : List ResponseVariant) (status : Status) (mediaType : String) :
    ruleOf (table variants) status mediaType =
      (lastFor variants status mediaType).map ResponseVariant.validator := by
  induction variants using List.reverseRecOn with
  | nil => rfl
  | append_singleton variants variant ih =>
    rw [table_concat, ruleOf_intoTable, lastFor_concat, ih]
    split <;> rfl

theorem isMap_intoTable {responses : ResponseTable} (isMap : IsMap responses) (variant : ResponseVariant) :
    IsMap (variant.intoTable responses) := by
  have before : (Keyed.keys ((responses.lookup variant.status).getD [])).Nodup := by
    cases found : responses.lookup variant.status with
    | none => exact List.nodup_nil
    | some media => exact isMap.mediaTypes _ (lookup_mem found)
  refine ⟨nodup_keys_insert _ _ isMap.statuses, fun entry member => ?_⟩
  rcases mem_insert member with old | rfl
  · exact isMap.mediaTypes entry old
  · dsimp only
    split
    · exact before
    · exact nodup_keys_insert _ _ before

theorem isMap_table (variants : List ResponseVariant) : IsMap (table variants) := by
  induction variants using List.reverseRecOn with
  | nil => exact ⟨List.nodup_nil, List.forall_mem_nil _⟩
  | append_singleton variants variant ih =>
    rw [table_concat]
    exact isMap_intoTable ih variant

end Table

section Passing

variable [Pattern.Engine] {resolve : String → Validator.Check} {code : Nat} {mediaType : String}
  {body : Option Validator} {b : Json}

-- An answer as it is validated.
def answer (code : Nat) (mediaType : String) (body : Json) : Json :=
  .object [("body", body), ("mediaType", .string mediaType), ("status", .number (.int code))]

theorem status_pass (resolve : String → Validator.Check) (code : Nat) :
    evaluate resolve (Validator.statusValidator (.code code)) (.number (.int code)) = .ok [] :=
  Validator.Outcome.require_pass.mpr (Double.beq_iff.mpr rfl)

theorem mediaType_pass (resolve : String → Validator.Check) (mediaType : String) :
    evaluate resolve (if mediaType = MediaType.wildcard then .string {} else .literal (.string mediaType))
      (.string mediaType) = .ok [] := by
  split
  · rfl
  · exact Validator.Outcome.require_pass.mpr (beq_self_eq_true mediaType)

theorem envelope_pass :
    evaluate resolve (Validator.envelope (.code code) mediaType body) (answer code mediaType b) = .ok [] ↔
      evaluate resolve (bodyOf body) b = .ok [] := by
  unfold Validator.envelope answer
  rw [Validator.object_pass]
  constructor
  · rintro ⟨_, equal, passes⟩
    cases equal
    exact passes.present ⟨"body", bodyOf body, false⟩ (by simp) b rfl
  · intro passed
    refine ⟨_, rfl, ?_, ?_, ?_, ?_⟩
    · exact List.forall_mem_cons.mpr ⟨fun _ => rfl, List.forall_mem_cons.mpr
        ⟨fun _ => rfl, List.forall_mem_singleton.mpr fun _ => rfl⟩⟩
    · refine List.forall_mem_cons.mpr ⟨?_, List.forall_mem_cons.mpr ⟨?_, List.forall_mem_singleton.mpr ?_⟩⟩
      · exact fun x found => Option.some.inj found ▸ status_pass resolve code
      · exact fun x found => Option.some.inj found ▸ mediaType_pass resolve mediaType
      · exact fun x found => Option.some.inj found ▸ passed
    · intro closed
      cases closed
    · intro rest equal key x _ _
      cases equal
      rfl

-- The entry of a code is found whatever else stands in the table, and so is its rule for a media type.
theorem branchSequence_pass {responses : ResponseTable} (isMap : IsMap responses) (small : code ≤ 65535)
    (ruled : ruleOf responses (.code code) mediaType = some body) :
    evaluate resolve (branchSequence responses) (answer code mediaType b) = .ok [] ↔
      evaluate resolve (bodyOf body) b = .ok [] := by
  obtain ⟨media, found, listed⟩ := Option.bind_eq_some_iff.mp ruled
  have status : Validator.receivedStatus (answer code mediaType b) = some code := if_pos small
  have entry : Validator.entryFor responses (some code) = some media := by
    rw [Validator.entryFor, found, Option.some_or]
  have rule : Validator.ruleFor media (Validator.receivedMediaType (answer code mediaType b)) = some body := by
    show (media.lookup mediaType).or _ = some body
    rw [listed, Option.some_or]
  have some : media ≠ [] := by
    rintro rfl
    cases listed
  have looked : Validator.Outcome.paths (evaluate resolve (branchSequence responses) (answer code mediaType b)) =
      Validator.Outcome.paths (Validator.lookupBody (evaluate resolve) media (answer code mediaType b)) := by
    refine (Validator.branchSequence_paths isMap _).trans (congrArg Validator.Outcome.paths ?_)
    show Validator.lookupResponse _ responses (answer code mediaType b) = _
    rw [Validator.lookupResponse, status, entry]
  rw [← Validator.Outcome.verdict_pass, Validator.Outcome.verdict_of_paths looked,
    Validator.Outcome.verdict_pass, Validator.lookupBody, if_neg some, rule]
  cases body with
  | none => exact ⟨fun _ => rfl, fun _ => rfl⟩
  | some v => exact Validator.Outcome.within_pass

theorem ofResponses_pass {responses : ResponseTable} (isMap : IsMap responses) (small : code ≤ 65535)
    (ruled : ruleOf responses (.code code) mediaType = some body) :
    evaluate resolve (ofResponses responses) (answer code mediaType b) = .ok [] ↔
      evaluate resolve (bodyOf body) b = .ok [] := by
  obtain ⟨media, found, listed⟩ := Option.bind_eq_some_iff.mp ruled
  unfold ofResponses
  split
  · -- One status with one media type: it is the one that was found.
    obtain ⟨rfl⟩ := List.mem_singleton.mp (lookup_mem found)
    obtain ⟨rfl⟩ := List.mem_singleton.mp (lookup_mem listed)
    exact envelope_pass
  · split
    · rename_i empty
      have none := List.isEmpty_iff.mp (List.all_eq_true.mp empty _ (lookup_mem found))
      dsimp only at none
      rw [none] at listed
      cases listed
    · exact branchSequence_pass isMap small ruled

end Passing

end ResponseContract

theorem Status.parse?_code {text : String} {code : Nat} (parsed : Status.parse? text = some (.code code)) :
    code ≤ 599 := by
  unfold Status.parse? at parsed
  split at parsed
  · cases parsed
  · split at parsed
    · obtain ⟨_, _, equal⟩ := Option.map_eq_some_iff.mp parsed
      cases equal
    · obtain ⟨n, found, equal⟩ := Option.map_eq_some_iff.mp parsed
      cases equal
      have bounds := (Option.filter_eq_some_iff.mp found).2
      simp only [Bool.and_eq_true, decide_eq_true_eq] at bounds
      exact bounds.2

-- What the variants of an operation are declared under.
section Keys

variable {index : ModelIndex} {op : Operation}

def ResponseVariant.key (variant : ResponseVariant) : Status × Option String := (variant.status, variant.mediaType)

-- A response without content is declared once, for no media type.
def Response.mediaTypes (response : Response) : List (Option String) :=
  if response.content.isEmpty then [none] else response.content.map fun entry => some entry.1

theorem settleSuccess_keys (variants : List ResponseVariant) :
    (ResponseVariant.settleSuccess variants).map ResponseVariant.key = variants.map ResponseVariant.key := by
  unfold ResponseVariant.settleSuccess
  split
  · rfl
  · rw [List.map_map]
    rfl

theorem ofResponse_keys {response : Response} {variants : List ResponseVariant}
    (made : ResponseVariant.ofResponse index op response = .ok variants) :
    ∃ status, Status.parse? response.status = some status ∧
      variants.map ResponseVariant.key = response.mediaTypes.map fun mediaType => (status, mediaType) := by
  obtain ⟨status, parsed, ⟨empty, rfl⟩ | ⟨some, related⟩⟩ := ofResponse_cases made
  · refine ⟨status, parsed, ?_⟩
    rw [Response.mediaTypes, empty]
    rfl
  · refine ⟨status, parsed, ?_⟩
    rw [Response.mediaTypes, if_neg fun empty => some (List.isEmpty_iff.mp empty), List.map_map]
    refine (map_related related fun entry variant made => ?_).symm
    obtain ⟨body, _, rfl⟩ := map_ok made
    rfl

theorem ofResponse_status {response : Response} {variants : List ResponseVariant}
    (made : ResponseVariant.ofResponse index op response = .ok variants) :
    ∀ variant ∈ variants, Status.parse? response.status = some variant.status := by
  intro variant member
  obtain ⟨status, parsed, keys⟩ := ofResponse_keys made
  have listed : variant.key ∈ response.mediaTypes.map fun mediaType => (status, mediaType) := by
    rw [← keys]
    exact List.mem_map_of_mem member
  obtain ⟨_, _, same⟩ := List.mem_map.mp listed
  rw [parsed, (Prod.mk.inj same).1]

theorem mediaTypes_nodup {response : Response} (distinct : (Keyed.keys response.content).Nodup) :
    response.mediaTypes.Nodup := by
  unfold Response.mediaTypes
  split
  · exact List.nodup_singleton _
  · have apart := distinct.map (Option.some_injective String)
    rwa [Keyed.keys, List.map_map] at apart

-- The variants of different responses differ in status, and those of one response in media type.
theorem keys_nodup {responses : List Response} {groups : List (List ResponseVariant)}
    (made : List.Forall₂ (fun response group => ResponseVariant.ofResponse index op response = .ok group)
      responses groups)
    (statuses : (responses.map fun response => Status.parse? response.status).Nodup)
    (content : ∀ response ∈ responses, (Keyed.keys response.content).Nodup) :
    (groups.flatten.map ResponseVariant.key).Nodup := by
  induction made with
  | nil => exact List.nodup_nil
  | @cons response group responses groups first rest ih =>
    obtain ⟨fresh, later⟩ := List.nodup_cons.mp statuses
    obtain ⟨own, others⟩ := List.forall_mem_cons.mp content
    obtain ⟨status, _, keys⟩ := ofResponse_keys first
    rw [List.flatten_cons, List.map_append, List.nodup_append']
    refine ⟨?_, ih later others, ?_⟩
    · rw [keys]
      exact (mediaTypes_nodup own).map (Prod.mk_right_injective status)
    · intro key inFirst inRest
      obtain ⟨variant, member, rfl⟩ := List.mem_map.mp inFirst
      obtain ⟨other, listed, equal⟩ := List.mem_map.mp inRest
      obtain ⟨its, inside, there⟩ := List.mem_flatten.mp listed
      obtain ⟨source, given, made⟩ := related_right rest inside
      refine fresh (List.mem_map.mpr ⟨source, given, ?_⟩)
      have same : other.status = variant.status := congrArg Prod.fst equal
      exact (ofResponse_status made other there).trans (same ▸ (ofResponse_status first variant member).symm)

end Keys

namespace Contract

variable {settings : Settings} {index : ModelIndex} {op : Operation} {contract : Contract}

theorem answer_keys {parameters : List ParameterContract} {variants : List (List ResponseVariant)}
    (made : Compiled settings index op contract parameters variants) :
    contract.response.variants.map ResponseVariant.key = variants.flatten.map ResponseVariant.key := by
  rw [← made.response, ofVariants_variants, settleSuccess_keys]

theorem answer_codes (compiled : Contract.ofOperation settings index op = .ok contract) :
    ∀ variant ∈ contract.response.variants, ∀ code, variant.status = .code code → code ≤ 599 := by
  obtain ⟨parameters, variants, made⟩ := ofOperation_compiled compiled
  intro variant member code coded
  obtain ⟨source, inside, same⟩ := List.mem_map.mp (answer_keys made ▸ List.mem_map_of_mem member)
  obtain ⟨response, _, group, responded, inside⟩ := variant_source made.variantsMade inside
  have parsed := ofResponse_status responded source inside
  rw [show source.status = .code code from (congrArg Prod.fst same).trans coded] at parsed
  exact Status.parse?_code parsed

theorem response_validator (compiled : Contract.ofOperation settings index op = .ok contract)
    (validated : settings.validateResponses = true) (some : contract.response.variants ≠ []) :
    contract.response.validator =
      Option.some (ofResponses (ResponseContract.table contract.response.variants)) := by
  obtain ⟨parameters, variants, made⟩ := ofOperation_compiled compiled
  rw [← made.response, ofVariants_variants] at some ⊢
  unfold ResponseContract.ofVariants
  rw [if_neg fun empty => some (List.isEmpty_iff.mp empty)]
  exact if_pos validated

end Contract

namespace ResponseVariant

-- A body passes if the variant has no validator or has one that accepts it.
def Accepts [Pattern.Engine] (known : List (String × Validator)) (variant : ResponseVariant) (body : Json) : Prop :=
  ∀ v, variant.validator = some v → check known v body = .ok []

theorem accepts_iff [Pattern.Engine] {known : List (String × Validator)} {variant : ResponseVariant} {body : Json} :
    variant.Accepts known body ↔ check known (Validator.bodyOf variant.validator) body = .ok [] := by
  unfold Accepts
  cases variant.validator with
  | none => exact ⟨fun _ => rfl, fun _ v equal => by cases equal⟩
  | some v => exact ⟨fun accepts => accepts v rfl, fun passed w equal => by cases equal; exact passed⟩

end ResponseVariant

namespace ResponseContract

-- The validator of the response passes just the answers of the variant that the variant accepts.
def Agrees [Pattern.Engine] (contract : ResponseContract) (variant : ResponseVariant) (code : Nat)
    (mediaType : String) : Prop :=
  ∃ validator, contract.validator = some validator ∧ ∀ known body,
    check known validator (answer code mediaType body) = .ok [] ↔ variant.Accepts known body

theorem lastFor_mem {variants : List ResponseVariant} {variant : ResponseVariant} {status : Status}
    {mediaType : String} (last : lastFor variants status mediaType = some variant) :
    variant ∈ variants ∧ variant.status = status ∧ variant.mediaType = some mediaType := by
  have holds := List.find?_some last
  simp only [Bool.and_eq_true, beq_iff_eq] at holds
  exact ⟨List.mem_reverse.mp (List.mem_of_find?_eq_some last), holds⟩

theorem lastFor_of_nodup {variants : List ResponseVariant} (distinct : (variants.map ResponseVariant.key).Nodup)
    {variant : ResponseVariant} (member : variant ∈ variants) {mediaType : String}
    (typed : variant.mediaType = some mediaType) : lastFor variants variant.status mediaType = some variant := by
  cases found : lastFor variants variant.status mediaType with
  | none => simpa [typed] using List.find?_eq_none.mp found variant (List.mem_reverse.mpr member)
  | some other =>
    obtain ⟨inside, status, same⟩ := lastFor_mem found
    have key : other.key = variant.key := Prod.ext status (same.trans typed.symm)
    rw [List.inj_on_of_nodup_map distinct inside member key]

theorem answer_depth (code : Nat) (mediaType : String) (body : Json) :
    body.depth ≤ (answer code mediaType body).depth := by
  have inside : ("body", body) ∈
      [("body", body), ("mediaType", .string mediaType), ("status", .number (.int code))] := List.mem_cons_self
  exact (Json.depth_field inside).le

theorem agrees_with_last [Pattern.Engine] {settings : Settings} {index : ModelIndex} {op : Operation}
    {contract : Contract} (compiled : Contract.ofOperation settings index op = .ok contract)
    (validated : settings.validateResponses = true) {variant : ResponseVariant} {code : Nat} {mediaType : String}
    (last : lastFor contract.response.variants (.code code) mediaType = some variant) :
    Agrees contract.response variant code mediaType := by
  obtain ⟨member, status, _⟩ := lastFor_mem last
  have small := Contract.answer_codes compiled variant member code status
  refine ⟨_, Contract.response_validator compiled validated (List.ne_nil_of_mem member), fun known body => ?_⟩
  have ruled : ruleOf (table contract.response.variants) (.code code) mediaType = some variant.validator := by
    rw [ruleOf_table, last, Option.map_some]
  have limit := Validator.referenceLimit_mono known.length (answer_depth code mediaType body)
  rw [ResponseVariant.accepts_iff, ← Validator.evaluate_eq_check limit]
  exact ofResponses_pass (isMap_table _) (by omega) ruled

end ResponseContract

open ResponseContract (Agrees lastFor)

-- The validator of a response goes by the last variant of each status and media type. No two variants
-- have both in common, and so it goes by every variant, unless two responses spell one status.
theorem validator_goes_by_last_variant [Pattern.Engine] {settings : Settings} {index : ModelIndex} {op : Operation}
    {contract : Contract} (compiled : Contract.ofOperation settings index op = .ok contract)
    (validated : settings.validateResponses = true)
    (content : ∀ response ∈ op.responses, (Keyed.keys response.content).Nodup) :
    (∀ variant code mediaType, lastFor contract.response.variants (.code code) mediaType = some variant →
      Agrees contract.response variant code mediaType) ∧
    ((op.responses.map fun response => Status.parse? response.status).Nodup →
      (contract.response.variants.map ResponseVariant.key).Nodup ∧
      ∀ variant ∈ contract.response.variants, ∀ code mediaType, variant.status = .code code →
        variant.mediaType = some mediaType → Agrees contract.response variant code mediaType) := by
  refine ⟨fun variant code mediaType => ResponseContract.agrees_with_last compiled validated, fun statuses => ?_⟩
  obtain ⟨parameters, variants, made⟩ := ofOperation_compiled compiled
  have distinct : (contract.response.variants.map ResponseVariant.key).Nodup := by
    rw [Contract.answer_keys made]
    exact keys_nodup (traverse_ok made.variantsMade) statuses content
  refine ⟨distinct, fun variant member code mediaType coded typed => ?_⟩
  apply ResponseContract.agrees_with_last compiled validated
  rw [← coded]
  exact ResponseContract.lastFor_of_nodup distinct member typed

-- Names are answered under two keys: one name under the first, a list of names under the second.
def namesOperation (first second : String) : Operation where
  name := "listNames"
  method := .get
  path := "/names"
  responses :=
    [⟨first, none, [("application/json", some .string)]⟩,
      ⟨second, none, [("application/json", some (.list .string))]⟩]

-- Different statuses have a variant each. Where both keys spell one status, the second variant counts.
theorem names_go_by_last :
    (∃ contract : Contract, Contract.ofOperation {} {} (namesOperation "200" "404") = .ok contract ∧
      contract.response.variants.map ResponseVariant.key =
        [(.code 200, some "application/json"), (.code 404, some "application/json")] ∧
      ∀ variant ∈ contract.response.variants, ∀ code, variant.status = .code code →
        variant.mediaType = some "application/json" → Agrees contract.response variant code "application/json") ∧
    ∃ contract first second, Contract.ofOperation {} {} (namesOperation "200" "+200") = .ok contract ∧
      contract.response.variants = [first, second] ∧ first.key = second.key ∧
      first.Accepts [] (.string "Rex") ∧ ¬ second.Accepts [] (.string "Rex") ∧
      Agrees contract.response second 200 "application/json" ∧
      ¬ Agrees contract.response first 200 "application/json" := by
  constructor
  · have evaluated : ((Contract.ofOperation {} {} (namesOperation "200" "404")).toOption.map fun contract =>
        contract.response.variants.map ResponseVariant.key) =
        some [(.code 200, some "application/json"), (.code 404, some "application/json")] := by decide +kernel
    obtain ⟨contract, built, keys⟩ := Option.map_eq_some_iff.mp evaluated
    have compiled := toOption_some built
    obtain ⟨_, agrees⟩ := (validator_goes_by_last_variant compiled rfl (by decide)).2 (by decide +kernel)
    exact ⟨contract, compiled, keys, fun variant member code => agrees variant member code "application/json"⟩
  have evaluated : ((Contract.ofOperation {} {} (namesOperation "200" "+200")).toOption.map fun contract =>
      contract.response.variants.map fun variant => (variant.key, variant.validator.map fun v =>
        (check [] v (.string "Rex")).toOption == some [])) =
      some [((.code 200, some "application/json"), some true),
        ((.code 200, some "application/json"), some false)] := by
    decide +kernel
  obtain ⟨contract, built, rows⟩ := Option.map_eq_some_iff.mp evaluated
  obtain ⟨first, rest, listed, row, rows⟩ := List.map_eq_cons_iff.mp rows
  obtain ⟨second, none, rfl, later, rows⟩ := List.map_eq_cons_iff.mp rows
  cases List.map_eq_nil_iff.mp rows
  obtain ⟨key, checked⟩ := Prod.mk.inj row
  obtain ⟨again, refused⟩ := Prod.mk.inj later
  obtain ⟨v, given, passed⟩ := Option.map_eq_some_iff.mp checked
  obtain ⟨w, instead, failed⟩ := Option.map_eq_some_iff.mp refused
  have compiled := toOption_some built
  have accepts : first.Accepts [] (.string "Rex") := by
    intro validator present
    rw [given] at present
    cases present
    exact toOption_some (beq_iff_eq.mp passed)
  have refuses : ¬ second.Accepts [] (.string "Rex") := by
    intro accepts
    rw [accepts w instead] at failed
    cases failed
  have last : lastFor contract.response.variants (.code 200) "application/json" = some second := by
    have status : second.status = .code 200 := congrArg Prod.fst again
    have typed : second.mediaType = some "application/json" := congrArg Prod.snd again
    simp [listed, lastFor, status, typed]
  have agrees := (validator_goes_by_last_variant compiled rfl (by decide)).1 second 200 "application/json" last
  refine ⟨contract, first, second, compiled, listed, key.trans again.symm, accepts, refuses, agrees, ?_⟩
  rintro ⟨validator, present, passes⟩
  obtain ⟨other, same, instead⟩ := agrees
  rw [present] at same
  cases same
  exact refuses ((instead [] (.string "Rex")).mp ((passes [] (.string "Rex")).mpr accepts))

end ApiContract
