import ApiContract.Pattern.Search
import ApiContract.Proofs.SchemaVerdicts

namespace ApiContract

-- An exclusive bound is a number of its own, or a flag on the inclusive one. The two spellings mean the same
-- as long as bound and flag stay together. A branch inherits them one keyword at a time, and one that declares
-- only one of them parts them.

namespace Limits

theorem overlay_assoc (lower middle upper : Limits) :
    (lower.overlay middle).overlay upper = lower.overlay (middle.overlay upper) := by
  simp [overlay, Option.or_assoc]

-- Nothing is set but bounds on numbers, and at least one of them.
structure OnlyBounds (bounds : Limits) : Prop where
  others : bounds = { minimum := bounds.minimum, maximum := bounds.maximum
                      exclusiveMinimum := bounds.exclusiveMinimum, exclusiveMaximum := bounds.exclusiveMaximum }
  some : bounds.exclusiveMinimum.isSome = true ∨ bounds.exclusiveMaximum.isSome = true

theorem OnlyBounds.overlay_shaped {bounds : Limits} (only : bounds.OnlyBounds) (limits : Limits) :
    (bounds.overlay limits).isEmpty = false := by
  have shaped : 0 < (bounds.overlay limits).size := by
    unfold size
    rcases only.some with lower | upper
    · have one : present (bounds.overlay limits).exclusiveMinimum = 1 := by simp [overlay, present, lower]
      omega
    · have one : present (bounds.overlay limits).exclusiveMaximum = 1 := by simp [overlay, present, upper]
      omega
  simpa [isEmpty] using Nat.ne_of_gt shaped

end Limits

namespace Keywords

open Validator (evaluate)
open Validator.Outcome (verdict)

-- The keywords with bounds beside them, where they do not set the bounds themselves.
def beside (bounds : Limits) (k : Keywords Schema) : Keywords Schema := { k with limits := bounds.overlay k.limits }

section Spellings

variable {stricter : Double → Double → Prop} {inclusive strict : Double → Prop} {m : Double}

-- What is declared beneath an exclusive bound at `m` and keeps it together: neither or both of the keywords, the
-- bound as it was, or a number that is at least as strict.
def Together (stricter : Double → Double → Prop) (m : Double) : Option Double → Option ExclusiveBound → Prop
  | none, none => True
  | some bound, none => bound.value = m.value
  | none, some (.value bound) => stricter m bound
  | none, some (.flag _) => False
  | some _, some _ => True

-- The numbers that an inclusive and an exclusive bound leave.
def Leaves (inclusive strict : Double → Prop) (bounds : Option Double × Option Double) : Prop :=
  (∀ bound, bounds.1 = some bound → inclusive bound) ∧ ∀ bound, bounds.2 = some bound → strict bound

theorem spellings_leave (weaker : ∀ bound, strict bound → inclusive bound)
    (implied : ∀ bound, stricter m bound → strict bound → inclusive m)
    (same : ∀ bound, bound.value = m.value → (strict bound ↔ strict m)) {bound : Option Double}
    {mark : Option ExclusiveBound} (together : Together stricter m bound mark) :
    Leaves inclusive strict (exclusive (bound.or (some m)) (mark.or (some (.flag true)))) ↔
      Leaves inclusive strict (exclusive (bound.or none) (mark.or (some (.value m)))) := by
  cases bound with
  | none =>
    cases mark with
    | none => rfl
    | some mark =>
      cases mark with
      | flag flag => exact together.elim
      | value bound =>
        have least : strict bound → inclusive m := implied bound together
        simpa [Leaves, exclusive] using least
  | some bound =>
    cases mark with
    | none =>
      have equal : strict bound ↔ strict m := same bound together
      have above : strict bound → inclusive bound := weaker bound
      simp only [Leaves, exclusive, Option.or_some]
      grind
    | some mark => rfl

end Spellings

def Above (x : Double) : Option Double × Option Double → Prop :=
  Leaves (fun low => low.value ≤ x.value) (fun low => low.value < x.value)

def Below (x : Double) : Option Double × Option Double → Prop :=
  Leaves (fun high => x.value ≤ high.value) (fun high => x.value < high.value)

-- Limits that leave the same numbers.
structure SameNumbers (limits other : Limits) : Prop where
  lower : ∀ x, Above x (exclusive limits.minimum limits.exclusiveMinimum) ↔
    Above x (exclusive other.minimum other.exclusiveMinimum)
  upper : ∀ x, Below x (exclusive limits.maximum limits.exclusiveMaximum) ↔
    Below x (exclusive other.maximum other.exclusiveMaximum)
  multipleOf : limits.multipleOf = other.multipleOf

-- Wherever the keywords or their branches end up as a number, `kept` is true of the limits that are declared
-- there. A branch that is a reference inherits nothing, so nothing is asked of it.
inductive Undivided (kept : Limits → Prop) : Keywords Schema → Prop where
  | plain {k : Keywords Schema} (plain : k.composition? = none)
      (number : k.literals? = none → ∀ kind, some kind ∈ k.kinds → Kind.Numeric kind → kept k.limits) :
      Undivided kept k
  | composed {k : Keywords Schema} {op : Composition} {branches : List Schema}
      (found : k.composition? = some (op, branches))
      (whole : .bool true ∈ branches → Undivided kept (k.siblings.without op))
      (each : ∀ top, .object top ∈ branches → top.ref = none →
        Undivided kept ((k.siblings.without op).overlay top)) : Undivided kept k

section Leaves

variable {k : Keywords Schema} {bounds other : Limits} {known : String → Bool} {resolve : String → Validator.Check}
  {value : Json}

theorem SameNumbers.holds {limits : Limits} (same : SameNumbers limits other) (type : ScalarType) (x : Double) :
    Validator.NumberHolds ⟨decide (type = .integer), Validator.lowerBound (scalarOf limits type),
      Validator.upperBound (scalarOf limits type), limits.multipleOf⟩ x ↔
    Validator.NumberHolds ⟨decide (type = .integer), Validator.lowerBound (scalarOf other type),
      Validator.upperBound (scalarOf other type), other.multipleOf⟩ x := by
  have above : Validator.aboveBound x (Validator.lowerBound (scalarOf limits type)) = none ↔
      Validator.aboveBound x (Validator.lowerBound (scalarOf other type)) = none := by
    rw [Validator.aboveBound_none, Validator.aboveBound_none]
    exact same.lower x
  have below : Validator.belowBound x (Validator.upperBound (scalarOf limits type)) = none ↔
      Validator.belowBound x (Validator.upperBound (scalarOf other type)) = none := by
    rw [Validator.belowBound_none, Validator.belowBound_none]
    exact same.upper x
  rw [same.multipleOf]
  constructor
  · intro holds
    exact ⟨holds.integral, above.mp holds.above, below.mp holds.below, holds.multiple⟩
  · intro holds
    exact ⟨holds.integral, above.mpr holds.above, below.mpr holds.below, holds.multiple⟩

-- A number raises no error, so that the verdict is whether it passes.
theorem number_verdict [Pattern.Engine] {m : Keywords Schema} (same : SameNumbers k.limits m.limits) {kind : Kind}
    (numeric : Kind.Numeric kind) :
    verdict (evaluate resolve (k.typedValidator known kind) value)
      = verdict (evaluate resolve (m.typedValidator known kind) value) := by
  apply Validator.Outcome.verdict_of_pass (kind_defined (.inr numeric)) (kind_defined (.inr numeric))
  obtain ⟨type, rfl⟩ : ∃ type, kind = .scalar type := by cases numeric <;> exact ⟨_, rfl⟩
  rw [typed_number_pass numeric, typed_number_pass numeric]
  apply exists_congr
  intro n
  rw [same.holds]

theorem beside_kinds (only : bounds.OnlyBounds) : (k.beside bounds).kinds = k.kinds := by
  rw [only.others]
  simp [kinds, beside, Limits.overlay, concreteTypes, typeNames, looksLikeObject, looksLikeArray]

theorem beside_typed (only : bounds.OnlyBounds) {kind : Kind} (free : ¬ Kind.Numeric kind) :
    (k.beside bounds).typedValidator known kind = k.typedValidator known kind := by
  rw [only.others]
  cases kind with
  | object => simp [typedValidator, objectOf, beside, Limits.overlay]
  | array => simp [typedValidator, arrayOf, beside, Limits.overlay]
  | scalar type =>
    cases type with
    | string => simp [typedValidator, Validator.ofScalar, scalarOf, beside, Limits.overlay]
    | number => exact absurd .number free
    | integer => exact absurd .integer free
    | boolean => rfl
    | null => rfl

theorem beside_children (bounds : Limits) (kind : Option Kind) :
    ((k.beside bounds).shapeAs kind).children = (k.shapeAs kind).children := by
  cases listed : k.literals? with
  | some values =>
    have listedToo : (k.beside bounds).literals? = some values := listed
    rw [shapeAs_listed listed, shapeAs_listed listedToo]
  | none =>
    have freeToo : (k.beside bounds).literals? = none := listed
    rw [shapeAs_free listed, shapeAs_free freeToo]
    cases kind with
    | none => rfl
    | some kind =>
      cases kind with
      | object => rfl
      | array => rfl
      | scalar type => cases type <;> rfl

theorem agree_plain [Pattern.Engine] (only : bounds.OnlyBounds) (onlyOther : other.OnlyBounds) (plain : k.Plain)
    (number : k.literals? = none → ∀ kind, some kind ∈ k.kinds → Kind.Numeric kind →
      SameNumbers (bounds.overlay k.limits) (other.overlay k.limits)) :
    Schema.Agree known resolve value (.object (k.beside bounds)) (.object (k.beside other)) := by
  have own (bounds : Limits) : (k.beside bounds).Plain := ⟨plain.ref, plain.composition⟩
  apply agree_of_kinds (own bounds) (own other) ?_ rfl (.inr rfl)
  · intro kind _
    rw [beside_children bounds, beside_children other]
  · intro kind inside
    rw [beside_kinds only] at inside
    cases listed : k.literals? with
    | some values =>
      have listed (bounds : Limits) : (k.beside bounds).literals? = some values := listed
      rw [validatorAs_listed (listed bounds), validatorAs_listed (listed other)]
    | none =>
      have free (bounds : Limits) : (k.beside bounds).literals? = none := listed
      cases kind with
      | none =>
        unfold validatorAs
        rw [shapeAs_free (free bounds), shapeAs_free (free other)]
        rfl
      | some kind =>
        rw [validatorAs_free (free bounds), validatorAs_free (free other)]
        by_cases numeric : Kind.Numeric kind
        · exact number_verdict (number listed kind inside numeric) numeric
        · rw [beside_typed only numeric, beside_typed onlyOther numeric]
  · rw [beside_kinds only, beside_kinds onlyOther]

end Leaves

section Compositions

variable {k base top : Keywords Schema} {bounds other : Limits} {known : String → Bool}
  {resolve : String → Validator.Check} {value : Json}

theorem inherited_beside (op : Composition) :
    (k.beside bounds).inherited op = ((k.siblings.without op).beside bounds).inherit := by
  cases op <;> rfl

theorem inherit_beside_true (only : bounds.OnlyBounds) :
    (base.beside bounds).inherit (.bool true) = .object (base.beside bounds) := by
  have shaped : (base.beside bounds).isShapeless = false := by simp [isShapeless, beside, only.overlay_shaped]
  simp [inherit, shaped]

theorem inherit_beside (ref : top.ref = none) :
    (base.beside bounds).inherit (.object top) = .object ((base.overlay top).beside bounds) := by
  simp [inherit, ref, overlay, beside, Limits.overlay_assoc]

-- The bounds go down with every branch that is no reference, beneath what the branch declares.
theorem agree_beside [Pattern.Engine] {kept : Limits → Prop} (only : bounds.OnlyBounds) (onlyOther : other.OnlyBounds)
    (same : ∀ limits, kept limits → SameNumbers (bounds.overlay limits) (other.overlay limits))
    (undivided : k.Undivided kept) (ref : k.ref = none) :
    Schema.Agree known resolve value (.object (k.beside bounds)) (.object (k.beside other)) := by
  induction undivided with
  | plain plain number =>
    apply agree_plain only onlyOther ⟨ref, plain⟩
    intro free kind inside numeric
    exact same _ (number free kind inside numeric)
  | @composed k op branches found _ _ whole each =>
    apply agree_of_branches (k := k.beside bounds) (m := k.beside other) ref ref found found rfl (.inr rfl)
    intro branch inside
    rw [inherited_beside, inherited_beside]
    cases branch with
    | bool taken =>
      cases taken with
      | false => exact .refl _
      | true =>
        rw [inherit_beside_true only, inherit_beside_true onlyOther]
        apply whole inside
        cases op <;> rfl
    | object top =>
      cases declared : top.ref with
      | some reference =>
        simp only [inherit, declared]
        exact .refl _
      | none =>
        rw [inherit_beside declared, inherit_beside declared]
        exact each top inside declared declared

end Compositions

section Dialects

variable {m : Double} {limits : Limits}

def LowerKept (m : Double) (declared : Limits) : Prop :=
  Together (fun m bound => m.value ≤ bound.value) m declared.minimum declared.exclusiveMinimum

def UpperKept (m : Double) (declared : Limits) : Prop :=
  Together (fun m bound => bound.value ≤ m.value) m declared.maximum declared.exclusiveMaximum

def lowerFlag (m : Double) : Limits := { minimum := some m, exclusiveMinimum := some (.flag true) }

def lowerNumber (m : Double) : Limits := { exclusiveMinimum := some (.value m) }

def upperFlag (m : Double) : Limits := { maximum := some m, exclusiveMaximum := some (.flag true) }

def upperNumber (m : Double) : Limits := { exclusiveMaximum := some (.value m) }

theorem lower_same (kept : LowerKept m limits) :
    SameNumbers ((lowerFlag m).overlay limits) ((lowerNumber m).overlay limits) := by
  refine ⟨fun x => ?_, fun x => Iff.rfl, rfl⟩
  apply spellings_leave ?_ ?_ ?_ kept
  · grind
  · grind
  · grind

theorem upper_same (kept : UpperKept m limits) :
    SameNumbers ((upperFlag m).overlay limits) ((upperNumber m).overlay limits) := by
  refine ⟨fun x => Iff.rfl, fun x => ?_, rfl⟩
  apply spellings_leave ?_ ?_ ?_ kept
  · grind
  · grind
  · grind

end Dialects

end Keywords

namespace Schema

open Keywords

theorem bound_spellings_agree [Pattern.Engine] {k : Keywords Schema} (ref : k.ref = none) (m : Double)
    (known : String → Bool) (table : List (String × Validator)) (value : Json) :
    (k.limits.minimum = none → k.limits.exclusiveMinimum = none → k.Undivided (LowerKept m) →
      (Schema.object { k with limits := { k.limits with
          minimum := some m, exclusiveMinimum := some (.flag true) } }).verdict? known table value
        = (Schema.object { k with limits := { k.limits with
            exclusiveMinimum := some (.value m) } }).verdict? known table value) ∧
    (k.limits.maximum = none → k.limits.exclusiveMaximum = none → k.Undivided (UpperKept m) →
      (Schema.object { k with limits := { k.limits with
          maximum := some m, exclusiveMaximum := some (.flag true) } }).verdict? known table value
        = (Schema.object { k with limits := { k.limits with
            exclusiveMaximum := some (.value m) } }).verdict? known table value) := by
  constructor
  · intro minimum exclusiveMinimum undivided
    have agree : Agree known (Validator.following table value) value (.object (k.beside (lowerFlag m)))
        (.object (k.beside (lowerNumber m))) :=
      agree_beside ⟨rfl, .inl rfl⟩ ⟨rfl, .inl rfl⟩ (fun _ => lower_same) undivided ref
    simpa [beside, lowerFlag, lowerNumber, Limits.overlay, minimum, exclusiveMinimum] using agree.verdict?
  · intro maximum exclusiveMaximum undivided
    have agree : Agree known (Validator.following table value) value (.object (k.beside (upperFlag m)))
        (.object (k.beside (upperNumber m))) :=
      agree_beside ⟨rfl, .inr rfl⟩ ⟨rfl, .inr rfl⟩ (fun _ => upper_same) undivided ref
    simpa [beside, upperFlag, upperNumber, Limits.overlay, maximum, exclusiveMaximum] using agree.verdict?

-- Beneath a bound at two: a stricter number, a bound with a flag of its own, and nothing.
def dose : Keywords Schema :=
  { types := some (.single "number")
    oneOf := some
      [.object { limits := { exclusiveMinimum := some (.value (.ofInt 3)) } },
        .object { limits := { minimum := some (.ofInt 1), exclusiveMinimum := some (.flag true)
                              exclusiveMaximum := some (.value (.ofInt 2)) } },
        .bool true] }

theorem dose_undivided {kept : Limits → Prop} (first : kept { exclusiveMinimum := some (.value (.ofInt 3)) })
    (second : kept { minimum := some (.ofInt 1), exclusiveMinimum := some (.flag true)
                     exclusiveMaximum := some (.value (.ofInt 2)) })
    (third : kept {}) : dose.Undivided kept := by
  apply Undivided.composed rfl
  · intro _
    exact .plain rfl fun _ _ _ _ => third
  · intro top member _
    rcases List.mem_cons.mp member with equal | member
    · cases equal
      exact .plain rfl fun _ _ _ _ => first
    · rcases List.mem_cons.mp member with equal | member
      · cases equal
        exact .plain rfl fun _ _ _ _ => second
      · cases List.mem_singleton.mp member

theorem dose_spelled_twice :
    dose.Undivided (LowerKept (.ofInt 2)) ∧ dose.Undivided (UpperKept (.ofInt 2)) ∧
    (Schema.object { dose with limits := lowerFlag (.ofInt 2) }).verdict? (fun _ => false) [] (.number (.int 2))
      = some (.ok false) ∧
    (Schema.object { dose with limits := lowerNumber (.ofInt 2) }).verdict? (fun _ => false) [] (.number (.int 2))
      = some (.ok false) ∧
    (Schema.object { dose with limits := upperFlag (.ofInt 2) }).verdict? (fun _ => false) [] (.number (.int 1))
      = some (.ok true) ∧
    (Schema.object { dose with limits := upperNumber (.ofInt 2) }).verdict? (fun _ => false) [] (.number (.int 1))
      = some (.ok true) := by
  have lower : dose.Undivided (LowerKept (.ofInt 2)) := by
    apply dose_undivided
    · show (Double.ofInt 2).value ≤ (Double.ofInt 3).value
      decide +kernel
    · trivial
    · trivial
  have upper : dose.Undivided (UpperKept (.ofInt 2)) := by
    apply dose_undivided
    · trivial
    · show (Double.ofInt 2).value ≤ (Double.ofInt 2).value
      decide +kernel
    · trivial
  obtain ⟨least, _⟩ := bound_spellings_agree (k := dose) rfl (.ofInt 2) (fun _ => false) [] (.number (.int 2))
  obtain ⟨_, most⟩ := bound_spellings_agree (k := dose) rfl (.ofInt 2) (fun _ => false) [] (.number (.int 1))
  have rejected : (Schema.object { dose with limits := lowerFlag (.ofInt 2) }).verdict? (fun _ => false) []
      (.number (.int 2)) = some (.ok false) := by decide +kernel
  have accepted : (Schema.object { dose with limits := upperFlag (.ofInt 2) }).verdict? (fun _ => false) []
      (.number (.int 1)) = some (.ok true) := by decide +kernel
  exact ⟨lower, upper, rejected, (least rfl rfl lower).symm.trans rejected, accepted,
    (most rfl rfl upper).symm.trans accepted⟩

-- The branch takes the flag for its own bound, and leaves the number beside it.
def threshold : Keywords Schema :=
  { types := some (.single "integer"), allOf := some [.object { limits := { minimum := some (.ofInt 5) } }] }

theorem branch_may_part_bound_and_flag :
    ¬ ∀ (k : Keywords Schema) (m : Double) (known : String → Bool) (table : List (String × Validator)) (value : Json),
      k.ref = none → k.limits.minimum = none → k.limits.exclusiveMinimum = none →
        (Schema.object { k with limits := { k.limits with
            minimum := some m, exclusiveMinimum := some (.flag true) } }).verdict? known table value
          = (Schema.object { k with limits := { k.limits with
              exclusiveMinimum := some (.value m) } }).verdict? known table value := by
  intro same
  have equal := same threshold (.ofInt 0) (fun _ => false) [] (.number (.int 5)) rfl rfl rfl
  have flag : (Schema.object { threshold with limits := lowerFlag (.ofInt 0) }).verdict? (fun _ => false) []
      (.number (.int 5)) = some (.ok false) := by decide +kernel
  have number : (Schema.object { threshold with limits := lowerNumber (.ofInt 0) }).verdict? (fun _ => false) []
      (.number (.int 5)) = some (.ok true) := by decide +kernel
  have parted := flag.symm.trans (equal.trans number)
  cases parted

end Schema

end ApiContract
