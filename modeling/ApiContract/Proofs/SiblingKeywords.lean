import ApiContract.Pattern.Search
import ApiContract.Proofs.KeywordParts
import ApiContract.Proofs.StricterKeywords

namespace ApiContract

-- The branches of a composition are read with the keywords beside it, and where both declare one the
-- branch wins. So a composition keeps what stands beside it only where a branch carries it.

namespace Keywords

variable {k : Keywords Schema} {known : String → Bool}

section Compositions

open Validator (evaluate)

variable {resolve : String → Validator.Check} {value : Json} {op : Composition} {branches : List Schema}

-- A branch with what it inherits.
def inherited (k : Keywords Schema) (op : Composition) : Schema → Schema := (k.siblings.without op).inherit

theorem step_composition (ref : k.ref = none) (found : k.composition? = some (op, branches)) :
    (Schema.object k).step = .ok (.composition op (branches.map (k.inherited op))) := by
  rw [step_plain ref]
  unfold plainShape
  rw [found]
  rfl

theorem composition_compiles (ref : k.ref = none) (found : k.composition? = some (op, branches)) :
    (Schema.object k).Compiles known ↔
      k.unsupported = [] ∧ ∀ branch ∈ branches, (k.inherited op branch).Compiles known := by
  rw [Schema.compiles_iff (step_composition ref found) nofun]
  exact and_congr_right fun _ => List.forall_mem_map

theorem composition_validator (ref : k.ref = none) (found : k.composition? = some (op, branches))
    (compiles : (Schema.object k).Compiles known) : (Schema.object k).validator known =
      .orNullIf k.isNullable (.ofComposition op (branches.map fun branch => (k.inherited op branch).validator known)) := by
  rw [Schema.validator_eq (step_composition ref found) compiles]
  show Validator.orNullIf k.isNullable
    (.ofComposition op (((branches.map (k.inherited op)).map (Schema.compiled known)).map Prod.snd)) = _
  rw [List.map_map, List.map_map]
  rfl

theorem composition_pass [Pattern.Engine] (ref : k.ref = none) (found : k.composition? = some (op, branches))
    (compiles : (Schema.object k).Compiles known) :
    evaluate resolve ((Schema.object k).validator known) value = .ok [] ↔
      value = .null ∧ k.isNullable = true ∨ evaluate resolve
        (.ofComposition op (branches.map fun branch => (k.inherited op branch).validator known)) value = .ok [] := by
  rw [composition_validator ref found compiles, Validator.orNullIf_pass]

-- What the base asks for reaches a schema that inherits from it. One branch of `allOf` is enough; of `oneOf`
-- and `anyOf` each has to do. A branch that is a reference inherits nothing, so nothing reaches it.
inductive Carries (base : Keywords Schema) : Schema → Prop where
  | never (nullable : base.isNullable = false) : Carries base (.bool false)
  | plain {top : Keywords Schema} (plain : top.Plain) (nullable : top.isNullable = true → base.isNullable = true)
      (keeps : Keeps base top) : Carries base (.object top)
  | each {top : Keywords Schema} {branches : List Schema} {branch : Schema} (ref : top.ref = none)
      (found : top.composition? = some (.allOf, branches)) (nullable : top.isNullable = true → base.isNullable = true)
      (inside : branch ∈ branches) (carries : Carries base (top.inherited .allOf branch)) : Carries base (.object top)
  | one {top : Keywords Schema} {op : Composition} {branches : List Schema} (ref : top.ref = none)
      (found : top.composition? = some (op, branches)) (alternatives : op ≠ .allOf)
      (nullable : top.isNullable = true → base.isNullable = true) (some : base.isNullable = true → branches ≠ [])
      (carries : ∀ branch ∈ branches, Carries base (top.inherited op branch)) : Carries base (.object top)

theorem alternative_pass [Pattern.Engine] {vs : List Validator} (alternatives : op ≠ .allOf)
    (passed : evaluate resolve (.ofComposition op vs) value = .ok []) : ∃ v ∈ vs, evaluate resolve v value = .ok [] := by
  cases op with
  | oneOf => exact Validator.unionOf_pass passed
  | anyOf => exact Validator.unionOf_pass passed
  | allOf => exact absurd rfl alternatives

-- Where the base takes null, it has a validator if the other schema has one.
theorem carries_compiles {schema : Schema} (carries : Carries k schema) (own : k.Plain) (supported : k.unsupported = [])
    (nullable : k.isNullable = true) (compiles : schema.Compiles known) : (Schema.object k).Compiles known := by
  induction carries with
  | never rejects =>
    rw [nullable] at rejects
    cases rejects
  | plain plain _ keeps => exact keeps_compiles keeps own plain supported compiles
  | each ref found _ inside _ ih => exact ih (((composition_compiles ref found).mp compiles).2 _ inside)
  | one ref found _ _ some _ ih =>
    obtain ⟨branch, inside⟩ := List.exists_mem_of_ne_nil _ (some nullable)
    exact ih branch inside (((composition_compiles ref found).mp compiles).2 branch inside)

theorem carries_pass [Pattern.Engine] {schema : Schema} (carries : Carries k schema) (own : k.Plain)
    (supported : k.unsupported = []) (compiles : schema.Compiles known)
    (passed : evaluate resolve (schema.validator known) value = .ok []) :
    (Schema.object k).Compiles known ∧ evaluate resolve ((Schema.object k).validator known) value = .ok [] := by
  have null {schema : Schema} (carries : Carries k schema) (compiles : schema.Compiles known)
      (nullable : k.isNullable = true) :
      (Schema.object k).Compiles known ∧ evaluate resolve ((Schema.object k).validator known) .null = .ok [] := by
    have made := carries_compiles carries own supported nullable compiles
    exact ⟨made, (plain_pass own made).mpr (.inl ⟨rfl, nullable⟩)⟩
  induction carries with
  | never _ =>
    rw [Schema.validator_eq rfl compiles] at passed
    cases passed
  | plain plain nullable keeps =>
    have made := keeps_compiles keeps own plain supported compiles
    exact ⟨made, keeps_pass keeps own plain nullable made compiles passed⟩
  | each ref found nullable inside carries ih =>
    rcases (composition_pass ref found compiles).mp passed with ⟨rfl, isNull⟩ | passes
    · exact null (.each ref found nullable inside carries) compiles (nullable isNull)
    · obtain ⟨_, children⟩ := (composition_compiles ref found).mp compiles
      exact ih (children _ inside) (Validator.intersectionOf_pass.mp passes _ (List.mem_map_of_mem inside))
  | one ref found alternatives nullable some carries ih =>
    rcases (composition_pass ref found compiles).mp passed with ⟨rfl, isNull⟩ | passes
    · exact null (.one ref found alternatives nullable some carries) compiles (nullable isNull)
    · obtain ⟨_, children⟩ := (composition_compiles ref found).mp compiles
      obtain ⟨_, listed, holds⟩ := alternative_pass alternatives passes
      obtain ⟨branch, inside, rfl⟩ := List.mem_map.mp listed
      exact ih branch inside (children branch inside) holds

theorem shapeless_free (shapeless : (k.siblings.without .allOf).isShapeless = true) :
    (k.without .allOf).literals? = none ∧ (k.without .allOf).kinds = [none] := by
  simp only [isShapeless, Bool.and_eq_true, Option.isNone_iff_eq_none, siblings, without, Limits.isEmpty] at shapeless
  have bare : k.limits.size = 0 := by simpa using shapeless.1.2
  simp only [Limits.size, Nat.add_eq_zero_iff, present] at bare
  constructor
  · simp [literals?, without, shapeless]
  · simp_all [kinds, concreteTypes, typeNames, looksLikeObject, looksLikeArray, without]

-- A branch that is `true` stands for what it inherits.
theorem carries_true (own : (k.without .allOf).Plain) (shaped : (k.siblings.without .allOf).isShapeless = false) :
    (k.without .allOf).Carries (k.inherited .allOf (.bool true)) := by
  unfold inherited inherit
  dsimp only
  rw [shaped]
  refine .plain ⟨rfl, own.composition⟩ ?_ (.alike rfl fun _ _ => rfl)
  intro nullable
  unfold isNullable at nullable ⊢
  rw [Bool.or_eq_true] at nullable ⊢
  exact .inr (nullable.resolve_left nofun)

end Compositions

end Keywords

namespace Schema

open Keywords

theorem allOf_joins_branches [Pattern.Engine] {k : Keywords Schema} {branches : List Schema}
    (ref : k.ref = none) (oneOf : k.oneOf = none) (anyOf : k.anyOf = none)
    (allOf : k.allOf = some branches) (known : String → Bool)
    (table : List (String × Validator)) (value : Json) :
    ((Schema.object k).accepts known table value = true ↔
      k.unsupported = [] ∧ (∀ branch ∈ branches, (k.inherited .allOf branch).Compiles known) ∧
        (value = .null ∧ k.isNullable = true ∨
          ∀ branch ∈ branches, (k.inherited .allOf branch).accepts known table value = true)) ∧
    (.bool true ∈ branches ∨
        (∀ part ∈ (k.without .allOf).parts, ∃ branch ∈ branches, part.Carries (k.inherited .allOf branch)) →
      (Schema.object k).accepts known table value = true →
      (Schema.object (k.without .allOf)).accepts known table value = true) := by
  have found : k.composition? = some (.allOf, branches) := by
    unfold composition?
    rw [oneOf, anyOf, allOf]
  have plain : (k.without .allOf).Plain := by
    refine ⟨ref, ?_⟩
    unfold composition? Keywords.without
    dsimp only
    rw [oneOf, anyOf]
  constructor
  · rw [accepts_iff, composition_compiles ref found, and_assoc]
    refine and_congr_right fun supported => and_congr_right fun children => ?_
    have compiles : (Schema.object k).Compiles known := (composition_compiles ref found).mpr ⟨supported, children⟩
    refine (composition_pass ref found compiles).trans (or_congr Iff.rfl ?_)
    refine Validator.intersectionOf_pass.trans (List.forall_mem_map.trans (forall₂_congr fun branch inside => ?_))
    rw [accepts_iff]
    exact (and_iff_right (children branch inside)).symm
  · intro carried accepted
    obtain ⟨compiles, passed⟩ := accepts_iff.mp accepted
    obtain ⟨supported, _⟩ := (composition_compiles ref found).mp compiles
    refine accepts_iff.mpr ?_
    rcases carried with inside | carried
    · cases shaped : (k.siblings.without .allOf).isShapeless with
      | true =>
        obtain ⟨unlisted, anything⟩ := shapeless_free shaped
        obtain ⟨made, passes⟩ := free_pass plain supported unlisted anything
        exact ⟨made, passes _ value⟩
      | false => exact carries_pass (.each ref found id inside (carries_true plain shaped)) plain supported compiles passed
    · refine parts_pass plain supported fun part member => ?_
      obtain ⟨branch, inside, carries⟩ := carried part member
      obtain ⟨own, bare, nullable⟩ := parts_plain plain supported member
      exact carries_pass (.each ref found (fun null => nullable.trans null) inside carries) own bare compiles passed

-- Each of the two branches overrides one of the bounds and carries the other.
def atLeastOne : Schema := .object { limits := { minimum := some (.ofInt 1) } }

def atMostTwenty : Schema := .object { limits := { maximum := some (.ofInt 20) } }

def shelf : Keywords Schema :=
  { types := some (.single "integer")
    limits := { minimum := some (.ofInt 5), maximum := some (.ofInt 9) }
    allOf := some [atLeastOne, atMostTwenty] }

theorem integer_carries {base top : Keywords Schema} (own : base.literals? = none)
    (mine : base.kinds = [some (.scalar .integer)]) (plain : top.Plain) (unlisted : top.literals? = none)
    (typed : top.kinds = [some (.scalar .integer)]) (nullable : top.isNullable = true → base.isNullable = true)
    (tightens : NumberTightens base.limits top.limits) : base.Carries (.object top) := by
  refine .plain plain nullable (.typed own unlisted ?_ ?_ ?_ ?_)
  · simp [mine]
  · rw [typed, mine]
    exact List.forall_mem_singleton.mpr ⟨_, _, rfl, List.mem_singleton_self _, .same _⟩
  · simp [mine]
  · intro kind inside
    rw [typed] at inside
    cases List.mem_singleton.mp inside
    exact tightens

theorem shelf_carried (part : Keywords Schema) (member : part ∈ (shelf.without .allOf).parts) :
    ∃ branch ∈ [atLeastOne, atMostTwenty], part.Carries (shelf.inherited .allOf branch) := by
  obtain ⟨piece, inside, rfl⟩ : ∃ piece ∈ (shelf.without .allOf).pieces, (shelf.without .allOf).part piece = part :=
    List.mem_map.mp member
  have byFirst (tightens : NumberTightens piece.limits { minimum := some (.ofInt 1), maximum := some (.ofInt 9) }) :
      ∃ branch ∈ [atLeastOne, atMostTwenty], ((shelf.without .allOf).part piece).Carries (shelf.inherited .allOf branch) :=
    ⟨atLeastOne, by simp, integer_carries rfl rfl ⟨rfl, rfl⟩ rfl rfl id tightens⟩
  have bySecond (tightens : NumberTightens piece.limits { minimum := some (.ofInt 5), maximum := some (.ofInt 20) }) :
      ∃ branch ∈ [atLeastOne, atMostTwenty], ((shelf.without .allOf).part piece).Carries (shelf.inherited .allOf branch) :=
    ⟨atMostTwenty, by simp, integer_carries rfl rfl ⟨rfl, rfl⟩ rfl rfl id tightens⟩
  have bounds : piece = { limits := {} } ∨ piece = { limits := { minimum := some (.ofInt 5) } } ∨
      piece = { limits := { maximum := some (.ofInt 9) } } ∨ piece = { limits := {} } := by
    simpa [pieces, shelf, Keywords.without, isEnded, others] using inside
  rcases bounds with rfl | rfl | rfl | rfl
  · exact byFirst ⟨tightens_none, tightens_none, trivial, trivial, tightens_none⟩
  · refine bySecond ⟨?_, tightens_none, trivial, trivial, tightens_none⟩
    rintro bound ⟨⟩
    exact ⟨_, rfl, by decide +kernel⟩
  · refine byFirst ⟨tightens_none, ?_, trivial, trivial, tightens_none⟩
    rintro bound ⟨⟩
    exact ⟨_, rfl, by decide +kernel⟩
  · exact byFirst ⟨tightens_none, tightens_none, trivial, trivial, tightens_none⟩

theorem shelf_keeps_both_bounds :
    (∀ part ∈ (shelf.without .allOf).parts,
      ∃ branch ∈ [atLeastOne, atMostTwenty], part.Carries (shelf.inherited .allOf branch)) ∧
    (Schema.object shelf).accepts (fun _ => false) [] (.number (.int 7)) = true ∧
    (Schema.object (shelf.without .allOf)).accepts (fun _ => false) [] (.number (.int 7)) = true := by
  have accepted : (Schema.object shelf).accepts (fun _ => false) [] (.number (.int 7)) = true := by decide +kernel
  obtain ⟨_, keeps⟩ := allOf_joins_branches (k := shelf) rfl rfl rfl rfl (fun _ => false) [] (.number (.int 7))
  exact ⟨shelf_carried, accepted, keeps (.inr shelf_carried) accepted⟩

-- With only the branch that lowers the bound, the bound is lost.
def clearance : Keywords Schema :=
  { types := some (.single "integer"), limits := { minimum := some (.ofInt 5) }, allOf := some [atLeastOne] }

theorem allOf_may_loosen : ¬ ∀ (k : Keywords Schema) (known : String → Bool) (table : List (String × Validator))
    (value : Json), k.ref = none → k.oneOf = none → k.anyOf = none → k.allOf.isSome = true →
      (Schema.object k).accepts known table value = true →
        (Schema.object (k.without .allOf)).accepts known table value = true := by
  intro kept
  have accepted : (Schema.object clearance).accepts (fun _ => false) [] (.number (.int 3)) = true := by decide +kernel
  have rejected : (Schema.object (clearance.without .allOf)).accepts (fun _ => false) [] (.number (.int 3)) = false := by
    decide +kernel
  have passes := kept clearance (fun _ => false) [] (.number (.int 3)) rfl rfl rfl rfl accepted
  rw [rejected] at passes
  cases passes

end Schema

end ApiContract
