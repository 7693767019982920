import ApiContract.Proofs.CanonicalContracts
import ApiContract.Proofs.ExactUnions

namespace ApiContract

-- What the types of a response contract say about answers and about what the caller gets. Each of them
-- is put together from the types of the variants; here they are compared with the variants themselves.

-- The value is an object with this field, and the property holds of what stands there.
def Json.HasField (key : String) (P : Json → Prop) (v : Json) : Prop := ∃ x, v.get? key = some x ∧ P x

theorem Json.isObject_of_get? {v x : Json} {key : String} (found : v.get? key = some x) : v.isObject = true := by
  cases v with
  | object fields => rfl
  | _ => cases found

namespace TypeExpr

variable {r : Reading} {v : Json}

theorem inhabits_primitive {p : Primitive} : Inhabits r [] (primitive p) v ↔ r.primitive p v := by
  constructor
  · intro inhabited
    cases inhabited with
    | primitive holds => exact holds
  · exact .primitive

theorem inhabits_literal {l : Literal} : Inhabits r [] (literal l) v ↔ Validator.literalHolds l v = true := by
  constructor
  · intro inhabited
    cases inhabited with
    | literal holds => exact holds
  · exact .literal

-- A literal that is no number holds of itself only.
theorem inhabits_scalar {l : Literal} (scalar : ∀ n, l.toJson ≠ .number n) :
    Inhabits r [] (literal l) v ↔ v = l.toJson := by
  rw [inhabits_literal]
  cases l with
  | int n => exact absurd rfl (scalar _)
  | number x => exact absurd rfl (scalar _)
  | _ => cases v <;> simp [Validator.literalHolds, Literal.toJson, BEq.beq, Json.same, eq_comm]

theorem inhabits_code {code : Nat} :
    Inhabits r [] (literal (.int code)) v ↔ ∃ n, v = .number n ∧ (n.toDouble == .ofInt code) = true := by
  rw [inhabits_literal]
  cases v with
  | number n =>
    constructor
    · exact fun holds => ⟨n, rfl, holds⟩
    · rintro ⟨_, equal, holds⟩
      cases equal
      exact holds
  | _ =>
    refine ⟨fun holds => absurd holds Bool.false_ne_true, ?_⟩
    rintro ⟨_, equal, _⟩
    cases equal

theorem property_required {p : Property TypeExpr} (required : p.optional = false) :
    PropertyHolds r p v ↔ v.HasField p.name (Inhabits r [] p.type) := by
  constructor
  · intro holds
    obtain ⟨x, found⟩ := Option.isSome_iff_exists.mp (holds.required required)
    exact ⟨x, found, holds.present x found⟩
  · rintro ⟨x, found, inhabited⟩
    refine ⟨Json.isObject_of_get? found, fun _ => Option.isSome_iff_exists.mpr ⟨x, found⟩, ?_⟩
    intro y also
    cases found.symm.trans also
    exact inhabited

end TypeExpr

open TypeExpr (Inhabits Reading inhabits_unionOf_map)

namespace ResponseVariant

-- The status of an answer is the code of the variant, by value; a class or the default takes any number.
def StatusFits (variant : ResponseVariant) (v : Json) : Prop :=
  match variant.status with
  | .code code => ∃ n, v = .number n ∧ (n.toDouble == .ofInt code) = true
  | _ => ∃ n, v = .number n

-- The wildcard takes any text, and a response without content has no media type.
def MediaTypeFits (variant : ResponseVariant) (v : Json) : Prop :=
  match variant.mediaType with
  | none => v = .null
  | some mediaType => if mediaType = MediaType.wildcard then ∃ s, v = .string s else v = .string mediaType

-- The value is an answer of this variant.
structure Describes (r : Reading) (variant : ResponseVariant) (v : Json) : Prop where
  status : v.HasField "status" variant.StatusFits
  mediaType : v.HasField "mediaType" variant.MediaTypeFits
  body : v.HasField "body" (Inhabits r [] variant.type)

variable {r : Reading} {variant : ResponseVariant} {v : Json}

theorem inhabits_envelope : Inhabits r [] variant.envelope v ↔ variant.Describes r v := by
  have fields : variant.Describes r v ↔ v.HasField "status" variant.StatusFits ∧
      v.HasField "mediaType" variant.MediaTypeFits ∧ v.HasField "body" (Inhabits r [] variant.type) :=
    ⟨fun d => ⟨d.status, d.mediaType, d.body⟩, fun d => ⟨d.1, d.2.1, d.2.2⟩⟩
  unfold envelope
  rw [fields, TypeExpr.inhabits_object, List.forall_mem_cons, List.forall_mem_cons, List.forall_mem_singleton,
    TypeExpr.property_required rfl, TypeExpr.property_required rfl, TypeExpr.property_required rfl]
  refine and_congr (exists_congr fun x => and_congr_right fun _ => ?_)
    (and_congr_left fun _ => exists_congr fun x => and_congr_right fun _ => ?_)
  · unfold StatusFits
    cases variant.status with
    | code code => exact TypeExpr.inhabits_code
    | range hundreds => exact TypeExpr.inhabits_primitive
    | default => exact TypeExpr.inhabits_primitive
  · unfold MediaTypeFits
    cases variant.mediaType with
    | none => exact TypeExpr.inhabits_scalar fun n equal => by cases equal
    | some mediaType =>
      dsimp only
      split
      · exact TypeExpr.inhabits_primitive
      · exact TypeExpr.inhabits_scalar fun n equal => by cases equal

end ResponseVariant

-- Which answers count as successful.
section Success

variable {index : ModelIndex} {op : Operation} {variants : List ResponseVariant}

theorem ofResponse_success {response : Response}
    (made : ResponseVariant.ofResponse index op response = .ok variants) :
    ∀ variant ∈ variants, variant.success = variant.status.isSuccess := by
  obtain ⟨status, _, ⟨_, rfl⟩ | ⟨_, related⟩⟩ := ofResponse_cases made
  · exact List.forall_mem_singleton.mpr rfl
  · intro variant member
    obtain ⟨entry, _, made⟩ := related_right related member
    obtain ⟨body, _, rfl⟩ := map_ok made
    rfl

theorem ofResponse_ne_nil {response : Response}
    (made : ResponseVariant.ofResponse index op response = .ok variants) : variants ≠ [] := by
  obtain ⟨status, _, ⟨_, rfl⟩ | ⟨some, related⟩⟩ := ofResponse_cases made
  · exact List.cons_ne_nil _ _
  · rintro rfl
    exact some (List.length_eq_zero_iff.mp related.length_eq)

-- Only the default response can turn out successful against its status.
theorem settleSuccess_code (own : ∀ variant ∈ variants, variant.success = variant.status.isSuccess) :
    ∀ variant ∈ ResponseVariant.settleSuccess variants, variant.status ≠ .default →
      variant.success = variant.status.isSuccess := by
  unfold ResponseVariant.settleSuccess
  split
  · exact fun variant member _ => own variant member
  · rename_i failing
    refine List.forall_mem_map.mpr fun variant member other => ?_
    have failed : variant.success = false := by
      rw [← Bool.not_eq_true]
      exact fun succeeds => failing (List.any_eq_true.mpr ⟨variant, member, succeeds⟩)
    dsimp only at other ⊢
    rw [← own variant member, failed]
    exact beq_eq_false_iff_ne.mpr other

end Success

-- What is made of the successful answers.
namespace ResponseContract

variable {settings : Settings} {index : ModelIndex} {op : Operation} {variants : List ResponseVariant}

theorem shortcutField_ne (index : ModelIndex) (op : Operation) : shortcutField index op ≠ "created" := by
  unfold shortcutField
  dsimp only
  split
  · decide
  · split
    · split
      · decide
      · assumption
    · decide

-- The three ways in which the steps end.
theorem resultOf_cases (settings : Settings) (index : ModelIndex) (op : Operation)
    (variants : List ResponseVariant) : ∃ start, (∀ field, .createdShortcut field ∉ start) ∧
    ((resultOf settings index op variants = (.void, start ++ [.discardBody]) ∧
        ∀ variant ∈ variants, variant.success = true → variant.type = .void) ∨
      (resultOf settings index op variants =
          (createdResult (variants.filter ResponseVariant.success) (shortcutField index op),
            start ++ [.createdShortcut (shortcutField index op), .extractBody]) ∧
        isCreatedPair (variants.filter ResponseVariant.success) = true) ∨
      resultOf settings index op variants =
        (.unionOf ((variants.filter ResponseVariant.success).map ResponseVariant.type),
          start ++ [.extractBody])) := by
  have plain (field : String) :
      Step.createdShortcut field ∉ if settings.validateResponses then [Step.validate] else [] := by
    split <;> simp
  have coerced (field : String) : Step.createdShortcut field ∉ Step.coerce (coercions variants) ::
      if settings.validateResponses then [Step.validate] else [] :=
    List.not_mem_cons_of_ne_of_not_mem (by simp) (plain field)
  unfold resultOf
  dsimp only
  split
  · rename_i void
    refine ⟨_, plain, .inl ⟨rfl, ?_⟩⟩
    intro variant member succeeds
    exact TypeExpr.same_primitive (List.all_eq_true.mp void variant (List.mem_filter.mpr ⟨member, succeeds⟩))
  · split
    · rename_i created
      exact ⟨_, coerced, .inr (.inl ⟨rfl, ((Bool.and_eq_true _ _).mp created).2⟩)⟩
    · exact ⟨_, coerced, .inr (.inr rfl)⟩

-- A value of the union is a value of one of the bodies.
theorem inhabits_bodies {r : Reading} {v : Json}
    (canonical : ∀ variant ∈ variants, TypeExpr.Canonical variant.type) :
    Inhabits r [] (.unionOf (variants.map ResponseVariant.type)) v ↔
      ∃ variant ∈ variants, Inhabits r [] variant.type v :=
  inhabits_unionOf_map fun variant member => (canonical variant member).distinctKeys

theorem inhabits_envelopes {r : Reading} {v : Json}
    (canonical : ∀ variant ∈ variants, TypeExpr.Canonical variant.type) :
    Inhabits r [] (.unionOf (variants.map ResponseVariant.envelope)) v ↔
      ∃ variant ∈ variants, variant.Describes r v := by
  rw [inhabits_unionOf_map fun variant member => (envelope_canonical (canonical variant member)).distinctKeys]
  exact exists_congr fun variant => and_congr_right fun _ => ResponseVariant.inhabits_envelope

-- The value is flagged as created or not, and holds a body of the status code that says so.
def Tells (r : Reading) (variants : List ResponseVariant) (field : String) (v : Json) (created : Bool)
    (code : Nat) : Prop :=
  v.HasField "created" (· = .bool created) ∧
    ∃ variant ∈ variants, variant.status = .code code ∧ v.HasField field (Inhabits r [] variant.type)

theorem inhabits_member {r : Reading} {v : Json}
    (canonical : ∀ variant ∈ variants, TypeExpr.Canonical variant.type) (field : String) (created : Bool)
    (code : Nat) :
    Inhabits r [] (.object [{ name := "created", type := .flag created },
      { name := field, type := bodyUnder variants code }]) v ↔ Tells r variants field v created code := by
  have body (x : Json) : Inhabits r [] (bodyUnder variants code) x ↔
      ∃ variant ∈ variants, variant.status = .code code ∧ Inhabits r [] variant.type x := by
    unfold bodyUnder
    rw [inhabits_bodies fun variant member => canonical variant (List.mem_of_mem_filter member)]
    simp only [List.mem_filter, beq_iff_eq, and_assoc]
  rw [TypeExpr.inhabits_object, List.forall_mem_cons, List.forall_mem_singleton,
    TypeExpr.property_required rfl, TypeExpr.property_required rfl]
  refine and_congr (exists_congr fun x => and_congr_right fun _ => ?_) ?_
  · exact TypeExpr.inhabits_scalar fun n equal => by cases equal
  constructor
  · rintro ⟨x, found, inhabited⟩
    obtain ⟨variant, member, coded, inside⟩ := (body x).mp inhabited
    exact ⟨variant, member, coded, x, found, inside⟩
  · rintro ⟨variant, member, coded, x, found, inside⟩
    exact ⟨x, found, (body x).mpr ⟨variant, member, coded, inside⟩⟩

theorem inhabits_createdResult {r : Reading} {v : Json} {field : String}
    (canonical : ∀ variant ∈ variants, TypeExpr.Canonical variant.type) :
    Inhabits r [] (createdResult variants field) v ↔
      Tells r variants field v true 201 ∨ Tells r variants field v false 200 := by
  rw [← inhabits_member canonical field true 201, ← inhabits_member canonical field false 200]
  constructor
  · intro inhabited
    cases inhabited with
    | union inside holds =>
      rcases List.mem_cons.mp inside with rfl | second
      · exact .inl holds
      · cases List.mem_singleton.mp second
        exact .inr holds
  · rintro (inhabited | inhabited)
    · exact .union List.mem_cons_self inhabited
    · exact .union (List.mem_cons_of_mem _ List.mem_cons_self) inhabited

-- What succeeds under both codes is all that succeeds.
theorem success_of_createdPair (pair : isCreatedPair (variants.filter ResponseVariant.success) = true)
    (coded : ∀ variant ∈ variants, variant.status ≠ .default → variant.success = variant.status.isSuccess) :
    ∀ variant ∈ variants, variant.success = true ↔ variant.status = .code 200 ∨ variant.status = .code 201 := by
  intro variant member
  constructor
  · intro succeeds
    have all := ((Bool.and_eq_true _ _).mp ((Bool.and_eq_true _ _).mp pair).1).1
    have either := List.all_eq_true.mp all variant (List.mem_filter.mpr ⟨member, succeeds⟩)
    simpa only [Bool.or_eq_true, beq_iff_eq] using either
  · rintro (status | status)
    all_goals
      rw [coded variant member (by simp [status]), status]
      rfl

theorem tells_filter {r : Reading} {v : Json} {field : String} {created : Bool} {code : Nat}
    (succeeds : ∀ variant ∈ variants, variant.status = .code code → variant.success = true) :
    Tells r (variants.filter ResponseVariant.success) field v created code ↔
      Tells r variants field v created code := by
  refine and_congr_right fun _ => exists_congr fun variant => ?_
  rw [List.mem_filter]
  constructor
  · rintro ⟨⟨member, _⟩, coded, inside⟩
    exact ⟨member, coded, inside⟩
  · rintro ⟨member, coded, inside⟩
    exact ⟨⟨member, succeeds variant member coded⟩, coded, inside⟩

end ResponseContract

namespace Contract

variable {settings : Settings} {index : ModelIndex} {op : Operation} {contract : Contract}

theorem answers_iff_responses (compiled : Contract.ofOperation settings index op = .ok contract) :
    contract.response.variants = [] ↔ op.responses = [] := by
  obtain ⟨parameters, variants, made⟩ := ofOperation_compiled compiled
  rw [← made.response, ofVariants_variants]
  have related := traverse_ok made.variantsMade
  constructor
  · intro none
    by_contra some
    obtain ⟨response, given⟩ := List.exists_mem_of_ne_nil _ some
    obtain ⟨group, inside, responded⟩ := related_left related given
    obtain ⟨variant, member⟩ := List.exists_mem_of_ne_nil _ (ofResponse_ne_nil responded)
    have listed : variant ∈ variants.flatten := List.mem_flatten.mpr ⟨group, inside, member⟩
    unfold ResponseVariant.settleSuccess at none
    split at none
    · exact List.ne_nil_of_mem listed none
    · exact List.ne_nil_of_mem listed (List.map_eq_nil_iff.mp none)
  · intro none
    rw [none] at related
    cases related
    rfl

theorem answers_success (compiled : Contract.ofOperation settings index op = .ok contract) :
    ∀ variant ∈ contract.response.variants, variant.status ≠ .default →
      variant.success = variant.status.isSuccess := by
  obtain ⟨parameters, variants, made⟩ := ofOperation_compiled compiled
  rw [← made.response, ofVariants_variants]
  refine settleSuccess_code fun variant member => ?_
  obtain ⟨response, _, group, responded, inside⟩ := variant_source made.variantsMade member
  exact ofResponse_success responded variant inside

-- What is made of no answer, and what is made of some.
theorem response_eq (compiled : Contract.ofOperation settings index op = .ok contract) :
    (contract.response.variants = [] ∧ contract.response.envelope = .void ∧
        contract.response.result = .void ∧ contract.steps = []) ∨
      (contract.response.variants ≠ [] ∧
        contract.response.envelope = .unionOf
          ((contract.response.variants.filter ResponseVariant.success).map ResponseVariant.envelope) ∧
        (contract.response.result, contract.steps) =
          ResponseContract.resultOf settings index op contract.response.variants) := by
  obtain ⟨parameters, variants, made⟩ := ofOperation_compiled compiled
  rw [← made.response, ← made.steps, ofVariants_variants]
  unfold ResponseContract.ofVariants
  split
  · rename_i empty
    exact .inl ⟨List.isEmpty_iff.mp empty, rfl, rfl, rfl⟩
  · rename_i some
    exact .inr ⟨fun empty => some (List.isEmpty_iff.mpr empty), rfl, rfl⟩

end Contract

open ResponseContract (Tells)

-- The types of a response hold of just the values that the answers and the steps lead to. An operation
-- without responses has no answers, and its types say nothing about any.
theorem response_types_exact {settings : Settings} {index : ModelIndex} {op : Operation} {contract : Contract}
    (names : ∀ node ∈ op.schemas, node.DistinctNames)
    (compiled : Contract.ofOperation settings index op = .ok contract) (r : Reading) (v : Json) :
    (op.responses ≠ [] → (Inhabits r [] contract.response.envelope v ↔
      ∃ variant ∈ contract.response.variants, variant.success = true ∧ variant.Describes r v)) ∧
    (op.responses = [] → contract.response.variants = [] ∧ contract.response.envelope = .void ∧
      contract.response.result = .void ∧ contract.steps = []) ∧
    (contract.steps.getLast? = some .extractBody → (∀ field, .createdShortcut field ∉ contract.steps) →
      (Inhabits r [] contract.response.result v ↔
        ∃ variant ∈ contract.response.variants, variant.success = true ∧ Inhabits r [] variant.type v)) ∧
    (contract.steps.getLast? = some .discardBody → contract.response.result = .void ∧
      ∀ variant ∈ contract.response.variants, variant.success = true → variant.type = .void) ∧
    ∀ field, .createdShortcut field ∈ contract.steps → field ≠ "created" ∧
      (∀ variant ∈ contract.response.variants,
        variant.success = true ↔ variant.status = .code 200 ∨ variant.status = .code 201) ∧
      (Inhabits r [] contract.response.result v ↔
        Tells r contract.response.variants field v true 201 ∨
        Tells r contract.response.variants field v false 200) := by
  have canonical : ∀ variant ∈ contract.response.variants.filter ResponseVariant.success,
      TypeExpr.Canonical variant.type := fun variant member =>
    (Contract.ofOperation_canonical compiled names).answers variant (List.mem_of_mem_filter member)
  rw [Ne, ← Contract.answers_iff_responses compiled]
  rcases Contract.response_eq compiled with ⟨none, envelope, result, steps⟩ | ⟨some, envelope, ended⟩
  · rw [steps]
    refine ⟨fun some => absurd none some, fun _ => ⟨none, envelope, result, rfl⟩, ?_, ?_, ?_⟩
    · exact fun last => by cases last
    · exact fun last => by cases last
    · exact fun field member => by cases member
  refine ⟨fun _ => ?_, fun none => absurd none some, ?_⟩
  · rw [envelope, ResponseContract.inhabits_envelopes canonical]
    simp only [List.mem_filter, and_assoc]
  obtain ⟨start, plain, ⟨equal, void⟩ | ⟨equal, pair⟩ | equal⟩ :=
    ResponseContract.resultOf_cases settings index op contract.response.variants
  all_goals
    obtain ⟨result, steps⟩ := Prod.mk.inj (ended.trans equal)
    rw [result, steps]
  · -- No successful answer has a body.
    refine ⟨fun last => ?_, fun _ => ⟨rfl, void⟩, fun field member => ?_⟩
    · simp at last
    · simp [plain field] at member
  · -- The answers of the two codes are told apart.
    have coded := ResponseContract.success_of_createdPair pair (Contract.answers_success compiled)
    refine ⟨fun _ free => ?_, fun last => ?_, fun field member => ?_⟩
    · exact absurd (List.mem_append_right start List.mem_cons_self) (free _)
    · simp at last
    · obtain rfl : field = ResponseContract.shortcutField index op := by simpa [plain field] using member
      refine ⟨ResponseContract.shortcutField_ne index op, coded, ?_⟩
      rw [ResponseContract.inhabits_createdResult canonical,
        ResponseContract.tells_filter fun variant inside code => (coded variant inside).mpr (.inr code),
        ResponseContract.tells_filter fun variant inside code => (coded variant inside).mpr (.inl code)]
  · -- The body is all that is left of an answer.
    refine ⟨fun _ _ => ?_, fun last => ?_, fun field member => ?_⟩
    · rw [ResponseContract.inhabits_bodies canonical]
      simp only [List.mem_filter, and_assoc]
    · simp at last
    · simp [plain field] at member

-- The field that a step puts the resource under.
def Step.field? : Step → Option String
  | createdShortcut field => some field
  | _ => none

theorem Step.eq_of_field? {step : Step} {field : String} (found : step.field? = some field) :
    step = .createdShortcut field := by
  cases step with
  | createdShortcut other =>
    cases found
    rfl
  | _ => cases found

-- A pet is stored: its name comes back where it was there before, and its names where it was not.
def storeOperation : Operation where
  name := "storePet"
  method := .put
  path := "/pets"
  responses :=
    [⟨"200", none, [("application/json", some .string)]⟩,
      ⟨"201", none, [("application/json", some (.list .string))]⟩, ⟨"404", none, []⟩]

theorem stored_pet_typed : ∃ contract : Contract, Contract.ofOperation {} {} storeOperation = .ok contract ∧
    .createdShortcut "body" ∈ contract.steps ∧ ∀ r : Reading,
      Inhabits r [] contract.response.result (.object [("body", .string "Rex"), ("created", .bool false)]) ∧
      Inhabits r [] contract.response.envelope (.object [("body", .string "Rex"),
        ("mediaType", .string "application/json"), ("status", .number (.int 200))]) := by
  have names : ∀ node ∈ storeOperation.schemas, node.DistinctNames := by
    unfold Node.DistinctNames
    decide +kernel
  have evaluated : ((Contract.ofOperation {} {} storeOperation).toOption.map fun contract =>
      (contract.steps.filterMap Step.field?, contract.response.variants.map fun variant =>
        (variant.status, variant.mediaType, variant.success, variant.type == .string))) =
      some (["body"], [(.code 200, some "application/json", true, true),
        (.code 201, some "application/json", true, false), (.code 404, none, false, false)]) := by
    decide +kernel
  obtain ⟨contract, built, found⟩ := Option.map_eq_some_iff.mp evaluated
  obtain ⟨fields, variants⟩ := Prod.mk.inj found
  have compiled := toOption_some built
  obtain ⟨step, inside, field⟩ := List.mem_filterMap.mp (fields ▸ List.mem_singleton_self "body")
  cases Step.eq_of_field? field
  obtain ⟨variant, member, row⟩ := List.mem_map.mp (variants ▸ List.mem_cons_self)
  obtain ⟨status, row⟩ := Prod.mk.inj row
  obtain ⟨mediaType, row⟩ := Prod.mk.inj row
  obtain ⟨success, type⟩ := Prod.mk.inj row
  have text (r : Reading) : Inhabits r [] variant.type (.string "Rex") := by
    rw [TypeExpr.same_primitive type]
    exact .primitive ⟨"Rex", rfl⟩
  refine ⟨contract, compiled, inside, fun r => ⟨?_, ?_⟩⟩
  · refine ((response_types_exact names compiled r _).2.2.2.2 "body" inside).2.2.mpr (.inr ⟨⟨_, rfl, rfl⟩, ?_⟩)
    exact ⟨variant, member, status, _, rfl, text r⟩
  · refine ((response_types_exact names compiled r _).1 (by decide)).mpr ⟨variant, member, success, ?_, ?_, ?_⟩
    · refine ⟨_, rfl, ?_⟩
      unfold ResponseVariant.StatusFits
      rw [status]
      exact ⟨_, rfl, by decide +kernel⟩
    · refine ⟨_, rfl, ?_⟩
      unfold ResponseVariant.MediaTypeFits
      rw [mediaType]
      dsimp only
      rw [if_neg (by decide +kernel)]
    · exact ⟨_, rfl, text r⟩

-- An operation that declares no response.
def silentOperation : Operation where
  name := "ping"
  method := .get
  path := "/ping"

theorem silent_envelope_holds : ∃ (contract : Contract) (r : Reading) (v : Json),
    Contract.ofOperation {} {} silentOperation = .ok contract ∧
    Inhabits r [] contract.response.envelope v ∧
    ¬ ∃ variant ∈ contract.response.variants, variant.success = true ∧ variant.Describes r v := by
  refine ⟨_, ⟨fun _ => none, fun _ _ => False, fun v => v = .null, fun _ => False, false⟩, .null, rfl, ?_, ?_⟩
  · exact .primitive rfl
  · rintro ⟨variant, member, _⟩
    cases member

end ApiContract
