import ApiContract.Pattern.Search
import ApiContract.Proofs.SchemaVerdicts

namespace ApiContract

-- Null is allowed by `nullable` or by `null` in the list of types. The flag stays where it is written, the
-- list is inherited by every branch that declares no type. A value other than null is not told apart by
-- either, and null passes at the root.

namespace Keywords

open Validator (evaluate)

variable {k base : Keywords Schema} {name : String} {known : String → Bool} {resolve : String → Validator.Check}
  {value : Json}

-- The flag as given.
def flagged (k : Keywords Schema) (nullable : Option Bool) : Keywords Schema := { k with nullable := nullable }

-- The type and null in one list.
def listed (k : Keywords Schema) (name : String) : Keywords Schema := { k with types := some (.several [name, "null"]) }

theorem listed_concreteTypes (other : name ≠ "null") : (k.listed name).concreteTypes = [name] := by
  simp [concreteTypes, typeNames, listed, TypeNames.toList, other]

theorem listed_nullable (other : name ≠ "null") : (k.listed name).isNullable = true := by
  unfold isNullable
  rw [listed_concreteTypes other]
  simp [typeNames, listed, TypeNames.toList]

-- A branch inherits the list where it inherits the type. Otherwise it is read the same.
theorem inherit_listed (own : base.ref = none) (types : base.types = some (.single name)) (branch : Schema) :
    (base.listed name).inherit branch = base.inherit branch ∨
      ∃ top, base.inherit branch = .object top ∧ (base.listed name).inherit branch = .object (top.listed name) ∧
        top.ref = none ∧ top.types = some (.single name) := by
  have shaped : base.isShapeless = false := by simp [isShapeless, types]
  have shapedToo : (base.listed name).isShapeless = false := by simp [isShapeless, listed]
  cases branch with
  | bool taken =>
    cases taken with
    | false => exact .inl rfl
    | true =>
      refine .inr ⟨base, ?_, ?_, own, types⟩
      · simp [inherit, shaped]
      · simp [inherit, shapedToo]
  | object top =>
    cases ref : top.ref with
    | some reference =>
      apply Or.inl
      simp [inherit, ref]
    | none =>
      cases declared : top.types with
      | some names =>
        apply Or.inl
        simp [inherit, ref, overlay, declared, listed]
      | none =>
        refine .inr ⟨base.overlay top, ?_, ?_, ref, ?_⟩
        · simp [inherit, ref]
        · simp [inherit, ref, overlay, declared, listed]
        · simp [overlay, declared, types]

theorem inherited_listed (types : k.types = some (.single name)) (op : Composition) (branch : Schema) :
    (k.listed name).inherited op branch = k.inherited op branch ∨
      ∃ top, k.inherited op branch = .object top ∧ (k.listed name).inherited op branch = .object (top.listed name) ∧
        top.ref = none ∧ top.types = some (.single name) := by
  have base : (k.listed name).inherited op = ((k.siblings.without op).listed name).inherit := by cases op <;> rfl
  rw [base]
  apply inherit_listed
  · cases op <;> rfl
  · cases op <;> exact types

variable [Pattern.Engine]

theorem plain_listed (plain : k.Plain) (types : k.types = some (.single name)) (other : name ≠ "null")
    (notNull : value ≠ .null) (nullable : Option Bool) :
    Schema.Agree known resolve value (.object (k.flagged nullable)) (.object (k.listed name)) := by
  have flag : (k.flagged nullable).Plain := ⟨plain.ref, plain.composition⟩
  have list : (k.listed name).Plain := ⟨plain.ref, plain.composition⟩
  have single : (k.flagged nullable).concreteTypes = [name] := concreteTypes_single types other
  apply agree_of_kinds flag list ?_ rfl (.inl notNull)
  · intro kind _
    rfl
  · intro kind _
    rfl
  · unfold kinds
    rw [single, listed_concreteTypes other]

-- The induction is on the size, since a branch with what it inherits is no part of the schema.
theorem agree_listed (k : Keywords Schema) (ref : k.ref = none) (types : k.types = some (.single name))
    (other : name ≠ "null") (notNull : value ≠ .null) (nullable : Option Bool) :
    Schema.Agree known resolve value (.object (k.flagged nullable)) (.object (k.listed name)) := by
  cases found : k.composition? with
  | none => exact plain_listed ⟨ref, found⟩ types other notNull nullable
  | some composition =>
    obtain ⟨op, branches⟩ := composition
    apply agree_of_branches (k := k.flagged nullable) (m := k.listed name) ref ref found found rfl
      (.inl notNull)
    intro branch inside
    show Schema.Agree known resolve value (k.inherited op branch) _
    rcases inherited_listed types op branch with same | ⟨top, inherits, spelled, free, typed⟩
    · rw [same]
      exact .refl _
    · have smaller : (Schema.object top).size < (Schema.object k).size := by
        apply Schema.size_of_mem_step (step_composition ref found)
        exact List.mem_map.mpr ⟨branch, inside, inherits⟩
      rw [inherits, spelled]
      exact agree_listed top free typed other notNull top.nullable
termination_by (Schema.object k).size
decreasing_by exact smaller

-- At the root null passes in both spellings.
theorem null_passes (ref : k.ref = none) (nullable : k.isNullable = true) (compiles : (Schema.object k).Compiles known) :
    evaluate resolve ((Schema.object k).validator known) .null = .ok [] := by
  rw [Schema.validator_eq (step_plain ref) compiles]
  apply Validator.orNullIf_pass.mpr
  exact .inl ⟨rfl, nullable⟩

end Keywords

namespace Schema

open Keywords

theorem null_spellings_agree [Pattern.Engine] {k : Keywords Schema} {name : String} (ref : k.ref = none)
    (types : k.types = some (.single name)) (other : name ≠ "null") (known : String → Bool)
    (table : List (String × Validator)) (value : Json) :
    (Schema.object { k with nullable := some true }).verdict? known table value
      = (Schema.object { k with types := some (.several [name, "null"]) }).verdict? known table value := by
  show (Schema.object (k.flagged (some true))).verdict? known table value
    = (Schema.object (k.listed name)).verdict? known table value
  apply Agree.verdict?
  by_cases null : value = .null
  · have away : Agree known (Validator.following table value) (.bool true) (.object (k.flagged (some true)))
        (.object (k.listed name)) := agree_listed k ref types other (by simp) (some true)
    refine ⟨away.compiles, fun first second => ?_⟩
    rw [null, null_passes (k := k.flagged (some true)) ref rfl first,
      null_passes (k := k.listed name) ref (listed_nullable other) second]
  · exact agree_listed k ref types other null (some true)

-- One branch inherits the type two levels down, the other declares its own.
def amount : Keywords Schema :=
  { types := some (.single "integer")
    anyOf := some [.object { allOf := some [.object { limits := { minimum := some (.ofInt 5) } }, .bool true] },
      .object { types := some (.single "string") }] }

theorem amount_may_be_null :
    amount.ref = none ∧ amount.types = some (.single "integer") ∧ "integer" ≠ "null" ∧
    (Schema.object { amount with nullable := some true }).verdict? (fun _ => false) [] .null = some (.ok true) ∧
    (Schema.object { amount with types := some (.several ["integer", "null"]) }).verdict? (fun _ => false) [] .null
      = some (.ok true) ∧
    (Schema.object { amount with nullable := some true }).verdict? (fun _ => false) [] (.number (.int 3))
      = some (.ok false) ∧
    (Schema.object { amount with types := some (.several ["integer", "null"]) }).verdict? (fun _ => false) []
      (.number (.int 3)) = some (.ok false) := by
  have other : "integer" ≠ "null" := by decide
  have agree := null_spellings_agree (k := amount) rfl rfl other (fun _ => false) []
  have taken : (Schema.object { amount with nullable := some true }).verdict? (fun _ => false) [] .null
      = some (.ok true) := by decide +kernel
  have below : (Schema.object { amount with nullable := some true }).verdict? (fun _ => false) [] (.number (.int 3))
      = some (.ok false) := by decide +kernel
  exact ⟨rfl, rfl, other, taken, (agree .null).symm.trans taken, below, (agree _).symm.trans below⟩

end Schema

end ApiContract
