import ApiContract.Proofs.AnswerTypes
import ApiContract.Proofs.DiscriminatedBodies

namespace ApiContract

-- When a caller gets nothing. The steps are chosen by the types of the answers, the result is their union,
-- and a union leaves `never` out.

namespace TypeExpr

-- When a union is `void`: it depends on the flattened members only.
section Unions

variable {types : List TypeExpr} {join : TypeExpr → TypeExpr → TypeExpr}

theorem distinct_keeps (found : ∃ type ∈ types, type ≠ void) : ∃ type ∈ distinct types, type ≠ void := by
  refine exists_mem_distinct ?_ found
  intro a b equal other none
  rw [none] at equal
  exact other (same_primitive (same_symm equal))

theorem mem_dropNever {type : TypeExpr} (member : type ∈ types) (possible : type ≠ never) :
    type ∈ dropNever types := by
  unfold dropNever
  split
  · refine List.mem_filter.mpr ⟨member, ?_⟩
    rw [bne, Bool.not_eq_true', Bool.eq_false_iff]
    exact fun equal => possible (same_primitive equal)
  · exact member

theorem collapseFlags_keeps (found : ∃ type ∈ types, type ≠ void) :
    ∃ type ∈ collapseFlags types, type ≠ void := by
  obtain ⟨type, member, given⟩ := found
  unfold collapseFlags
  split
  · refine distinct_keeps ⟨_, List.mem_map_of_mem member, ?_⟩
    split
    · exact fun equal => by cases equal
    · exact given
  · split
    · rename_i absorbing
      exact ⟨boolean, List.mem_filter.mpr ⟨contains_boolean absorbing, rfl⟩, fun equal => by cases equal⟩
    · exact ⟨type, member, given⟩

theorem mergePair?_object {a b merged : TypeExpr} (merges : mergePair? join a b = some merged) :
    ∃ properties, merged = object properties := by
  obtain ⟨_, _, _, _, _, _, _, _, equal⟩ := mergePair?_some merges
  exact ⟨_, equal⟩

-- A merge leaves the object type that it makes.
theorem mergeOnce?_keeps {merged : List TypeExpr} (found : mergeOnce? join types = some merged) :
    ∃ type ∈ merged, type ≠ void := by
  induction types generalizing merged with
  | nil => cases found
  | cons type rest ih =>
    unfold mergeOnce? at found
    split at found
    · rename_i result others merges
      cases found
      obtain ⟨other, _, merges, _⟩ := mergeWith?_some merges
      obtain ⟨properties, rfl⟩ := mergePair?_object merges
      exact ⟨_, List.mem_cons_self, fun equal => by cases equal⟩
    · obtain ⟨left, later, rfl⟩ := Option.map_eq_some_iff.mp found
      obtain ⟨kept, member, given⟩ := ih later
      exact ⟨kept, List.mem_cons_of_mem type member, given⟩

theorem mergeUpTo_keeps (join : TypeExpr → TypeExpr → TypeExpr) (steps : Nat) (found : ∃ type ∈ types, type ≠ void) :
    ∃ type ∈ mergeUpTo join steps types, type ≠ void := by
  induction steps generalizing types with
  | zero => exact found
  | succ steps ih =>
    unfold mergeUpTo
    split
    · rename_i merged once
      exact ih (distinct_keeps (mergeOnce?_keeps once))
    · exact found

theorem unionOfParts_void (none : unionOfParts types = void) : types = [void] := by
  match types with
  | [] => cases none
  | [type] => rw [show type = void from none]
  | first :: second :: rest => cases none

theorem settledParts_void (present : void ∈ unionPartsAll types)
    (all : ∀ part ∈ unionPartsAll types, part = void ∨ part = never) : settledParts types = [void] := by
  have kept : ∀ part ∈ dropNever (unionPartsAll types), part = void := by
    intro part member
    refine (all part (dropNever_subset member)).resolve_right fun impossible => ?_
    rw [impossible] at member
    rw [dropNever_alone member] at present
    cases List.mem_singleton.mp present
  have some : dropNever (unionPartsAll types) ≠ [] :=
    List.ne_nil_of_mem (mem_dropNever present fun equal => by cases equal)
  unfold settledParts
  rw [distinct_of_forall_eq some kept]
  rfl

-- No step makes `void`, and none takes the last of the other types that have values.
theorem unionMembers_ne_void (absent : void ∉ unionPartsAll types) :
    ∀ type ∈ unionMembers join types, type ≠ void := by
  refine mergeUpTo_keep ?_ _ ?_
  · intro a b merged merges _ _
    obtain ⟨properties, rfl⟩ := mergePair?_object merges
    exact fun equal => by cases equal
  · intro type member
    rcases mem_collapseFlags member with kept | rfl
    · exact fun equal => absent (equal ▸ dropNever_subset (distinct_subset kept))
    · exact fun equal => by cases equal

theorem unionMembers_keeps (join : TypeExpr → TypeExpr → TypeExpr) {part : TypeExpr}
    (member : part ∈ unionPartsAll types) (given : part ≠ void) (possible : part ≠ never) :
    ∃ type ∈ unionMembers join types, type ≠ void := by
  have kept : ∃ type ∈ dropNever (unionPartsAll types), type ≠ void :=
    ⟨part, mem_dropNever member possible, given⟩
  exact mergeUpTo_keeps join _ (collapseFlags_keeps (distinct_keeps kept))

theorem unionOf_eq_void : unionOf types = void ↔
    void ∈ unionPartsAll types ∧ ∀ part ∈ unionPartsAll types, part = void ∨ part = never := by
  obtain ⟨join, equal⟩ := unionAt_eq (nestingAll types)
  rw [unionOf, equal, unionWith_eq]
  constructor
  · intro none
    have only : unionMembers join types = [void] := unionOfParts_void none
    constructor
    · by_contra absent
      exact unionMembers_ne_void absent void (only ▸ List.mem_singleton_self void) rfl
    · intro part member
      by_contra other
      obtain ⟨given, possible⟩ := not_or.mp other
      obtain ⟨kept, left, given⟩ := unionMembers_keeps join member given possible
      rw [only] at left
      exact given (List.mem_singleton.mp left)
  · rintro ⟨present, all⟩
    rw [unionMembers, settledParts_void present all]
    rfl

end Unions

-- The types of bodies that are there.
section Bodies

-- Neither `void` nor put together from other types.
def isSimple : TypeExpr → Bool
  | primitive .void => false
  | union _ => false
  | intersection _ => false
  | _ => true

-- Seen through intersections and unions such a type is simple everywhere, and its unions are proper ones.
inductive Solid : TypeExpr → Prop where
  | simple {type : TypeExpr} (simple : type.isSimple = true) : Solid type
  | intersection {members : List TypeExpr} (all : ∀ member ∈ members, Solid member) :
      Solid (intersection members)
  | union {members : List TypeExpr} (several : 2 ≤ members.length) (reduced : UnionReduced members)
      (all : ∀ member ∈ members, Solid member) : Solid (union members)

theorem Solid.ne_void {type : TypeExpr} (solid : Solid type) : type ≠ void := by
  intro none
  rw [none] at solid
  cases solid with
  | simple simple => cases simple

-- A proper union has a member besides `void` and `never`.
theorem Solid.never_of_parts {type : TypeExpr} (solid : Solid type)
    (parts : ∀ part ∈ unionParts type, part = void ∨ part = never) : type = never := by
  have own (member : type ∈ unionParts type) : type = never := (parts type member).resolve_left solid.ne_void
  cases solid with
  | @simple type simple =>
    cases type with
    | union => cases simple
    | _ => exact own (List.mem_singleton_self _)
  | intersection => exact own (List.mem_singleton_self _)
  | union several reduced all =>
    rw [unionParts, unionPartsAll_flat reduced.flat] at parts
    obtain ⟨member, listed⟩ := List.exists_mem_of_length_pos (Nat.lt_of_lt_of_le Nat.zero_lt_two several)
    have impossible := (parts member listed).resolve_left (all member listed).ne_void
    rw [reduced.alone (impossible ▸ listed)] at several
    simp at several

variable {types : List TypeExpr}

theorem unionOf_solid (all : ∀ type ∈ types, Solid type) : Solid (unionOf types) := by
  obtain ⟨join, equal⟩ := unionAt_eq (nestingAll types)
  have members : ∀ type ∈ unionMembers join types, Solid type := by
    refine unionMembers_keep (.simple rfl) ?_ ?_ all
    · intro members solid
      cases solid with
      | simple simple => cases simple
      | union _ _ all => exact all
    · intro a b merged merges _ _
      obtain ⟨properties, rfl⟩ := mergePair?_object merges
      exact .simple rfl
  have reduced := unionMembers_reduced join types
  rw [unionOf, equal, unionWith_eq]
  generalize unionMembers join types = found at members reduced ⊢
  rcases found with _ | ⟨type, _ | ⟨second, rest⟩⟩
  · exact .simple rfl
  · exact members type (List.mem_singleton_self _)
  · exact .union (by simp) reduced members

theorem intersectionOf_solid (all : ∀ type ∈ types, Solid type) : Solid (intersectionOf types) := by
  obtain ⟨meet, equal⟩ := intersectionAt_eq (nestingAll types)
  have members : ∀ type ∈ intersectionMembers meet types, Solid type := by
    refine intersectionMembers_keep ?_ (fun _ _ _ _ => .simple rfl) all
    intro members solid
    cases solid with
    | simple simple => cases simple
    | intersection all => exact all
  rw [intersectionOf, equal, intersectionWith_eq]
  split
  · exact .simple rfl
  · unfold intersectionOfParts
    split
    · split
      · exact .simple rfl
      · exact .simple rfl
    · rename_i type single
      exact members type (single ▸ List.mem_singleton_self type)
    · exact .intersection members

theorem orNull_solid (nullable : Bool) {type : TypeExpr} (solid : Solid type) : Solid (type.orNull nullable) := by
  unfold orNull
  split
  · exact unionOf_solid (forall_pair solid (.simple rfl))
  · exact solid

theorem ofLiterals_solid (values : List Json) : Solid (ofLiterals values) := by
  refine unionOf_solid (List.forall_mem_map.mpr fun value _ => ?_)
  cases Literal.ofJson? value with
  | none => exact .simple rfl
  | some l => exact .simple rfl

theorem ofScalar_solid (scalar : Scalar) : Solid (ofScalar scalar) := by
  unfold ofScalar
  split
  · split <;> exact .simple rfl
  · exact .simple rfl
  · exact .simple rfl
  · exact .simple rfl
  · exact .simple rfl

theorem ofObject_solid (o : ObjectShape (Node × TypeExpr)) : Solid (ofObject o) := by
  refine intersectionOf_solid (List.forall_mem_cons.mpr ⟨.simple rfl, ?_⟩)
  split
  · exact List.forall_mem_nil _
  · exact List.forall_mem_singleton.mpr (.simple rfl)

theorem ofShape_solid {typed : Node → TypeExpr} {shape : Shape Node}
    (children : ∀ child ∈ shape.children, Solid (typed child)) :
    Solid (ofShape (shape.map fun child => (child, typed child))) := by
  cases shape with
  | bool value => cases value <;> exact .simple rfl
  | ref name => exact .simple rfl
  | scalar scalar => exact ofScalar_solid scalar
  | array a =>
    obtain ⟨items, places, low, high, unique⟩ := a
    cases places <;> exact .simple rfl
  | object o => exact ofObject_solid _
  | composition op branches =>
    have all : ∀ type ∈ (branches.map fun node => (node, typed node)).map Prod.snd, Solid type := by
      rw [List.map_map]
      exact List.forall_mem_map.mpr children
    cases op with
    | oneOf => exact unionOf_solid all
    | anyOf => exact unionOf_solid all
    | allOf => exact intersectionOf_solid all
  | const value => exact ofLiterals_solid [value]
  | enum values => exact ofLiterals_solid values

theorem ofNode_solid (node : Node) : Solid (ofNode node) := by
  induction node using Node.children_induction with
  | step node ih =>
    rw [ofNode, Node.foldPaired_eq]
    refine orNull_solid node.nullable ?_
    cases node.target? with
    | some name => exact .simple rfl
    | none => exact ofShape_solid ih

-- Bodies that are there make nothing of each other: the union is `void` only beside types of no value.
theorem unionOf_bodies_eq_void (bodies : ∀ type ∈ types, type = void ∨ Solid type) :
    unionOf types = void ↔ void ∈ types ∧ ∀ type ∈ types, type = void ∨ type = never := by
  rw [unionOf_eq_void, unionPartsAll_eq]
  constructor
  · intro parts
    obtain ⟨present, all⟩ := parts
    have types : ∀ type ∈ types, type = void ∨ type = never := fun type member =>
      (bodies type member).imp_right fun solid =>
        solid.never_of_parts fun part inside => all part (List.mem_flatMap.mpr ⟨type, member, inside⟩)
    obtain ⟨type, member, inside⟩ := List.mem_flatMap.mp present
    refine ⟨?_, types⟩
    rcases types type member with equal | equal
    · exact equal ▸ member
    · rw [equal] at inside
      cases List.mem_singleton.mp inside
  · intro members
    obtain ⟨present, all⟩ := members
    have single (part : TypeExpr) (inside : part ∈ types.flatMap unionParts) : part ∈ types := by
      obtain ⟨type, member, inside⟩ := List.mem_flatMap.mp inside
      rcases all type member with equal | equal
      all_goals
        rw [equal] at inside
        exact (List.mem_singleton.mp inside).symm ▸ equal ▸ member
    refine ⟨List.mem_flatMap.mpr ⟨void, present, List.mem_singleton_self _⟩, ?_⟩
    exact fun part inside => all part (single part inside)

end Bodies

end TypeExpr

open TypeExpr (Solid)

-- The types of the answers.
section Answers

-- A response without content has no body, and one under 204 has none whatever it declares.
inductive ResponseVariant.BodyTyped (variant : ResponseVariant) : Prop where
  | absent (bare : variant.mediaType = none ∨ variant.status = .code 204) (void : variant.type = .void)
  | present (declared : variant.mediaType ≠ none) (other : variant.status ≠ .code 204) (solid : Solid variant.type)

variable {settings : Settings} {index : ModelIndex} {op : Operation} {contract : Contract}

theorem ResponseVariant.BodyTyped.void_iff {variant : ResponseVariant} (typed : variant.BodyTyped) :
    variant.type = .void ↔ variant.mediaType = none ∨ variant.status = .code 204 := by
  cases typed with
  | absent bare void => exact iff_of_true void bare
  | present declared other solid => exact iff_of_false solid.ne_void (not_or.mpr ⟨declared, other⟩)

theorem bodyOf_typed {status : Status} {representation : MediaType.Representation} {node : Option Node}
    {body : TypeExpr × Option Validator}
    (made : ResponseVariant.bodyOf index status representation node = .ok body) :
    (status = .code 204 ∧ body.1 = .void) ∨ (status ≠ .code 204 ∧ Solid body.1) := by
  unfold ResponseVariant.bodyOf at made
  split at made
  · rename_i bare
    cases made
    exact .inl ⟨bare, rfl⟩
  · rename_i other
    refine .inr ⟨other, ?_⟩
    split at made
    · obtain ⟨occurrence, occurs, rfl⟩ := map_ok made
      dsimp only
      rw [BodyContract.occurrence_type occurs]
      exact TypeExpr.ofNode_solid _
    all_goals
      cases made
      exact .simple rfl

theorem ofResponse_typed {response : Response} {variants : List ResponseVariant}
    (made : ResponseVariant.ofResponse index op response = .ok variants) :
    ∀ variant ∈ variants, variant.BodyTyped := by
  obtain ⟨status, _, ⟨_, rfl⟩ | ⟨_, related⟩⟩ := ofResponse_cases made
  · exact List.forall_mem_singleton.mpr (.absent (.inl rfl) rfl)
  · intro variant member
    obtain ⟨entry, _, made⟩ := related_right related member
    obtain ⟨body, built, rfl⟩ := map_ok made
    rcases bodyOf_typed built with ⟨bare, void⟩ | ⟨other, solid⟩
    · exact .absent (.inr bare) void
    · exact .present (Option.some_ne_none _) other solid

theorem Contract.answers_typed (compiled : Contract.ofOperation settings index op = .ok contract) :
    ∀ variant ∈ contract.response.variants, variant.BodyTyped := by
  obtain ⟨parameters, groups, made⟩ := ofOperation_compiled compiled
  have typed : ∀ variant ∈ groups.flatten, variant.BodyTyped := by
    intro variant member
    obtain ⟨response, _, group, responded, inside⟩ := variant_source made.variantsMade member
    exact ofResponse_typed responded variant inside
  rw [← made.response, ofVariants_variants]
  unfold ResponseVariant.settleSuccess
  split
  · exact typed
  · refine List.forall_mem_map.mpr fun variant member => ?_
    cases typed variant member with
    | absent bare void => exact .absent bare void
    | present declared other solid => exact .present declared other solid

end Answers

namespace ResponseContract

variable {settings : Settings} {index : ModelIndex} {op : Operation} {variants : List ResponseVariant}

theorem extractBody_mem_resultOf :
    .extractBody ∈ (resultOf settings index op variants).2 ↔
      ∃ variant ∈ variants, variant.success = true ∧ variant.type ≠ .void := by
  unfold resultOf
  dsimp only
  split
  · rename_i void
    refine iff_of_false ?_ ?_
    · split <;> simp
    · rintro ⟨variant, member, succeeds, bodied⟩
      have equal := List.all_eq_true.mp void variant (List.mem_filter.mpr ⟨member, succeeds⟩)
      exact bodied (TypeExpr.same_primitive equal)
  · rename_i bodied
    refine iff_of_true ?_ ?_
    · split <;> simp
    · by_contra none
      refine bodied (List.all_eq_true.mpr fun variant member => ?_)
      obtain ⟨listed, succeeds⟩ := List.mem_filter.mp member
      have void : variant.type = .void := by
        by_contra other
        exact none ⟨variant, listed, succeeds, other⟩
      rw [void]
      rfl

-- Some answer that succeeds has no body, and the others that do have one that cannot be.
def OnlyImpossible (variants : List ResponseVariant) : Prop :=
  (∃ variant ∈ variants, variant.success = true ∧ variant.type = .void) ∧
    ∀ variant ∈ variants, variant.success = true → variant.type = .void ∨ variant.type = .never

theorem unionOf_success_eq_void (typed : ∀ variant ∈ variants, variant.BodyTyped) :
    TypeExpr.unionOf ((variants.filter ResponseVariant.success).map ResponseVariant.type) = .void ↔
      OnlyImpossible variants := by
  rw [TypeExpr.unionOf_bodies_eq_void]
  · refine and_congr ?_ ?_
    · simp only [List.mem_map, List.mem_filter, and_assoc]
    · simp only [List.forall_mem_map, List.mem_filter, and_imp]
  · refine List.forall_mem_map.mpr fun variant member => ?_
    cases typed variant (List.mem_of_mem_filter member) with
    | absent _ void => exact .inl void
    | present _ _ solid => exact .inr solid

theorem resultOf_eq_void (typed : ∀ variant ∈ variants, variant.BodyTyped) :
    (resultOf settings index op variants).1 = .void ↔
      .extractBody ∉ (resultOf settings index op variants).2 ∨
        (∀ field, .createdShortcut field ∉ (resultOf settings index op variants).2) ∧
          OnlyImpossible variants := by
  obtain ⟨start, plain, ⟨equal, void⟩ | ⟨equal, pair⟩ | equal⟩ := resultOf_cases settings index op variants
  · refine iff_of_true (by rw [equal]) (.inl ?_)
    rw [extractBody_mem_resultOf]
    rintro ⟨variant, member, succeeds, bodied⟩
    exact bodied (void variant member succeeds)
  · rw [equal]
    refine iff_of_false (fun void => by cases void) ?_
    rintro (unused | ⟨plain, _⟩)
    · exact unused (by simp)
    · exact plain _ (List.mem_append_right start List.mem_cons_self)
  · rw [equal, unionOf_success_eq_void typed]
    have extracts : Step.extractBody ∈ start ++ [.extractBody] := by simp
    have unflagged (field : String) : Step.createdShortcut field ∉ start ++ [.extractBody] := by
      simp [plain field]
    exact ⟨fun only => .inr ⟨unflagged, only⟩, fun either => (either.resolve_left (not_not_intro extracts)).2⟩

end ResponseContract

open ResponseContract (OnlyImpossible)

section Steps

variable {settings : Settings} {index : ModelIndex} {op : Operation} {contract : Contract}

theorem Contract.extractBody_mem_steps (compiled : Contract.ofOperation settings index op = .ok contract) :
    .extractBody ∈ contract.steps ↔
      ∃ variant ∈ contract.response.variants, variant.success = true ∧ variant.type ≠ .void := by
  rcases Contract.response_eq compiled with ⟨none, _, _, steps⟩ | ⟨_, _, ended⟩
  · rw [none, steps]
    simp
  · rw [show contract.steps = _ from congrArg Prod.snd ended]
    exact ResponseContract.extractBody_mem_resultOf

theorem Contract.result_eq_void (compiled : Contract.ofOperation settings index op = .ok contract) :
    contract.response.result = .void ↔ .extractBody ∉ contract.steps ∨
      (∀ field, .createdShortcut field ∉ contract.steps) ∧ OnlyImpossible contract.response.variants := by
  rcases Contract.response_eq compiled with ⟨_, _, result, steps⟩ | ⟨_, _, ended⟩
  · rw [result, steps]
    exact iff_of_true rfl (.inl List.not_mem_nil)
  · rw [show contract.steps = _ from congrArg Prod.snd ended,
      show contract.response.result = _ from congrArg Prod.fst ended]
    exact ResponseContract.resultOf_eq_void (Contract.answers_typed compiled)

end Steps

-- The caller gets nothing where no body is extracted. A body of a type without values is extracted too,
-- although the result leaves it out: beside an answer without a body the caller then gets nothing as well.
theorem void_result_iff {settings : Settings} {index : ModelIndex} {op : Operation} {contract : Contract}
    (compiled : Contract.ofOperation settings index op = .ok contract) :
    (∀ variant ∈ contract.response.variants,
      variant.type = .void ↔ variant.mediaType = none ∨ variant.status = .code 204) ∧
    (.extractBody ∈ contract.steps ↔
      ∃ variant ∈ contract.response.variants, variant.success = true ∧ variant.type ≠ .void) ∧
    (contract.response.result = .void ↔ .extractBody ∉ contract.steps ∨
      (∀ field, .createdShortcut field ∉ contract.steps) ∧ OnlyImpossible contract.response.variants) ∧
    ((∀ variant ∈ contract.response.variants, variant.success = true → variant.type ≠ .never) →
      (contract.response.result = .void ↔ .extractBody ∉ contract.steps)) := by
  have extracts := Contract.extractBody_mem_steps compiled
  have void := Contract.result_eq_void compiled
  refine ⟨fun variant member => (Contract.answers_typed compiled variant member).void_iff, extracts, void, ?_⟩
  intro possible
  rw [void]
  refine ⟨fun either => either.elim id fun ⟨_, _, only⟩ => ?_, .inl⟩
  rw [extracts]
  rintro ⟨variant, member, succeeds, bodied⟩
  exact (only variant member succeeds).elim bodied (possible variant member succeeds)

-- Pets are dropped, and a successful answer may come with a body that cannot be.
def dropOperation : Operation where
  name := "dropPets"
  method := .delete
  path := "/pets"
  responses := [⟨"200", none, [("application/json", some .never)]⟩, ⟨"204", none, []⟩]

theorem dropped_pets_extracted : ∃ contract, Contract.ofOperation {} {} dropOperation = .ok contract ∧
    contract.response.result = .void ∧ .extractBody ∈ contract.steps := by
  have evaluated : ((Contract.ofOperation {} {} dropOperation).toOption.map fun contract =>
      (contract.steps.filterMap Step.field?,
        contract.response.variants.any fun variant => variant.success && variant.type == .void,
        contract.response.variants.any fun variant => variant.success && variant.type == .never,
        contract.response.variants.all fun variant => variant.type == .void || variant.type == .never)) =
      some ([], true, true, true) := by
    decide +kernel
  obtain ⟨contract, built, found⟩ := Option.map_eq_some_iff.mp evaluated
  obtain ⟨fields, found⟩ := Prod.mk.inj found
  obtain ⟨bare, found⟩ := Prod.mk.inj found
  obtain ⟨bodied, all⟩ := Prod.mk.inj found
  have compiled := toOption_some built
  obtain ⟨_, extracts, void, _⟩ := void_result_iff compiled
  refine ⟨contract, compiled, void.mpr (.inr ⟨?_, ?_, ?_⟩), extracts.mpr ?_⟩
  · intro field inside
    have used : field ∈ contract.steps.filterMap Step.field? := List.mem_filterMap.mpr ⟨_, inside, rfl⟩
    rw [fields] at used
    cases used
  · obtain ⟨variant, member, both⟩ := List.any_eq_true.mp bare
    obtain ⟨succeeds, equal⟩ := (Bool.and_eq_true _ _).mp both
    exact ⟨variant, member, succeeds, TypeExpr.same_primitive equal⟩
  · intro variant member _
    have either := (Bool.or_eq_true _ _).mp (List.all_eq_true.mp all variant member)
    exact either.imp TypeExpr.same_primitive TypeExpr.same_primitive
  · obtain ⟨variant, member, both⟩ := List.any_eq_true.mp bodied
    obtain ⟨succeeds, equal⟩ := (Bool.and_eq_true _ _).mp both
    refine ⟨variant, member, succeeds, ?_⟩
    rw [TypeExpr.same_primitive equal]
    exact fun same => by cases same

end ApiContract
