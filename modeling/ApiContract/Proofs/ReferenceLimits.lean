import ApiContract.Proofs.CheckCalls
import Mathlib.Data.Finset.Card
import Mathlib.Data.Finset.Dedup

namespace ApiContract

-- A check follows references only so often. More would change nothing: an answer stays as it is, and
-- where there is none within the limit there is none at all.

namespace Validator

namespace Outcome

-- The first outcome is the second one, or has run into the limit.
def Precedes (a b : Outcome) : Prop := (∃ name, a = .error (.endless name)) ∨ a = b

theorem Precedes.refl (a : Outcome) : Precedes a a := .inr rfl

theorem Precedes.trans {a b c : Outcome} (first : Precedes a b) (second : Precedes b c) : Precedes a c := by
  rcases first with ran | rfl
  · exact .inl ran
  · exact second

theorem Precedes.ok {a b : Outcome} (precedes : Precedes a b) {issues : List Issue} (answered : a = .ok issues) :
    b = .ok issues := by
  rcases precedes with ⟨name, ran⟩ | same
  · rw [answered] at ran
    cases ran
  · exact same ▸ answered

theorem compatible_precedes : Compatible Precedes where
  issues _ := .refl _
  pattern _ := .refl _
  bind {a b next next'} first second := by
    rcases first with ⟨name, rfl⟩ | rfl
    · exact .inl ⟨name, rfl⟩
    · cases a with
      | error e => exact .refl _
      | ok found => exact second found

end Outcome

open Outcome (Precedes compatible_precedes)

def ranOut : Outcome → Bool
  | .error (.endless _) => true
  | _ => false

theorem ranOut_iff {a : Outcome} : ranOut a = true ↔ ∃ name, a = .error (.endless name) := by
  constructor
  · intro ran
    cases a with
    | error e =>
      cases e with
      | endless name => exact ⟨name, rfl⟩
      | _ => cases ran
    | ok issues => cases ran
  · rintro ⟨name, rfl⟩
    rfl

theorem referenceLimit_mono (names : Nat) {part value : Json} (le : part.depth ≤ value.depth) :
    referenceLimit names part ≤ referenceLimit names value :=
  Nat.mul_le_mul_left _ (Nat.add_le_add_right le 2)

theorem evaluate_precedes [Pattern.Engine] {resolve other : String → Check} (v : Validator) {value : Json}
    (resolves : ∀ (name : String) (next : Json), next.Within value → Precedes (resolve name next) (other name next)) :
    Precedes (evaluate resolve v value) (evaluate other v value) :=
  related_evaluate compatible_precedes resolve other fun name _ => resolves name

section Limits

variable [Pattern.Engine] {table : List (String × Validator)}

-- The meaning of a name when references are followed at most so often.
def meaning (table : List (String × Validator)) (limit : Nat) : String → Check :=
  resolveWithin (fun name => table.lookup name) limit

theorem meaning_some {name : String} {v : Validator} (found : table.lookup name = some v) (limit : Nat)
    (value : Json) :
    meaning table (limit + 1) name value = evaluate (meaning table limit) v value := by
  simp only [meaning, resolveWithin, found]

theorem meaning_none {name : String} (absent : table.lookup name = none) (limit : Nat) (value : Json) :
    meaning table (limit + 1) name value = .error (.unresolved name) := by
  simp only [meaning, resolveWithin, absent]

theorem meaning_step (table : List (String × Validator)) (limit : Nat) (name : String) (value : Json) :
    Precedes (meaning table limit name value) (meaning table (limit + 1) name value) := by
  induction limit generalizing name value with
  | zero => exact .inl ⟨name, rfl⟩
  | succ limit ih =>
    cases found : table.lookup name with
    | none =>
      rw [meaning_none found, meaning_none found]
      exact .refl _
    | some v =>
      rw [meaning_some found, meaning_some found]
      exact evaluate_precedes v fun name next _ => ih name next

theorem meaning_mono (table : List (String × Validator)) {limit more : Nat} (le : limit ≤ more)
    (name : String) (value : Json) :
    Precedes (meaning table limit name value) (meaning table more name value) := by
  induction le with
  | refl => exact .refl _
  | step _ ih => exact ih.trans (meaning_step table _ name value)

-- One more reference gives no answer that there was not before.
def Settled (table : List (String × Validator)) (limit : Nat) (value : Json) : Prop :=
  ∀ name, Precedes (meaning table (limit + 1) name value) (meaning table limit name value)

theorem settled_succ {limit : Nat} {value : Json} (settled : Settled table limit value)
    (inside : ∀ part : Json, part.depth < value.depth → Settled table limit part) :
    Settled table (limit + 1) value := by
  intro name
  cases found : table.lookup name with
  | none =>
    rw [meaning_none found, meaning_none found]
    exact .refl _
  | some v =>
    rw [meaning_some found, meaning_some found]
    refine evaluate_precedes v fun name next within => ?_
    rcases within with rfl | smaller
    · exact settled name
    · exact inside next smaller name

-- The names of the table that have an answer within the limit.
def answered (table : List (String × Validator)) (limit : Nat) (value : Json) : Finset String :=
  (Keyed.keys table).toFinset.filter fun name => ranOut (meaning table limit name value) = false

theorem answered_card (table : List (String × Validator)) (limit : Nat) (value : Json) :
    (answered table limit value).card ≤ table.length := by
  refine (Finset.card_filter_le _ _).trans ((List.toFinset_card_le _).trans ?_)
  rw [Keyed.keys, List.length_map]

theorem answered_mono (table : List (String × Validator)) (limit : Nat) (value : Json) :
    answered table limit value ⊆ answered table (limit + 1) value := by
  intro name member
  obtain ⟨listed, before⟩ := Finset.mem_filter.mp member
  refine Finset.mem_filter.mpr ⟨listed, ?_⟩
  rcases meaning_step table limit name value with ran | same
  · rw [ranOut_iff.mpr ran] at before
    cases before
  · rw [← same]
    exact before

-- What is not settled gets a new answer from one more reference, and only names of the table can.
theorem answered_grows {limit : Nat} {value : Json} (positive : 0 < limit)
    (unsettled : ¬ Settled table limit value) :
    (answered table limit value).card < (answered table (limit + 1) value).card := by
  obtain ⟨name, differs⟩ := not_forall.mp unsettled
  obtain ⟨answers, changed⟩ := not_or.mp differs
  have listed : name ∈ Keyed.keys table := by
    by_contra absent
    have missing : table.lookup name = none := lookup_none absent
    obtain ⟨before, rfl⟩ := Nat.exists_eq_add_one_of_ne_zero positive.ne'
    rw [meaning_none missing, meaning_none missing] at changed
    exact changed rfl
  refine Finset.card_lt_card ⟨answered_mono table limit value, fun subset => ?_⟩
  have after : name ∈ answered table (limit + 1) value := by
    refine Finset.mem_filter.mpr ⟨List.mem_toFinset.mpr listed, ?_⟩
    rw [← Bool.not_eq_true, ranOut_iff]
    exact answers
  have before := (Finset.mem_filter.mp (subset after)).2
  rcases meaning_step table limit name value with ran | same
  · rw [ranOut_iff.mpr ran] at before
    cases before
  · exact changed same.symm

variable {start : Nat} {value : Json}

-- With everything inside the value settled, the answers grow at every step or are settled for good.
theorem settled_or_grown (positive : 0 < start)
    (inside : ∀ part : Json, part.depth < value.depth → ∀ limit, start ≤ limit → Settled table limit part)
    (steps : Nat) :
    Settled table (start + steps) value ∨ steps < (answered table (start + steps + 1) value).card := by
  induction steps with
  | zero =>
    by_cases settled : Settled table start value
    · exact .inl settled
    · exact .inr (Nat.zero_lt_of_lt (answered_grows positive settled))
  | succ steps ih =>
    by_cases settled : Settled table (start + (steps + 1)) value
    · exact .inl settled
    · rcases ih with earlier | grown
      · refine absurd (settled_succ earlier fun part smaller => ?_) settled
        exact inside part smaller _ (Nat.le_add_right _ _)
      · have more := answered_grows (Nat.add_pos_left positive _) settled
        rw [← Nat.add_assoc] at more ⊢
        exact .inr (by omega)

-- There are no more answers than names in the table.
theorem settled_from (positive : 0 < start)
    (inside : ∀ part : Json, part.depth < value.depth → ∀ limit, start ≤ limit → Settled table limit part)
    {limit : Nat} (enough : start + table.length ≤ limit) : Settled table limit value := by
  induction enough with
  | refl =>
    rcases settled_or_grown positive inside table.length with settled | grown
    · exact settled
    · exact absurd grown (answered_card table _ value).not_gt
  | step le ih =>
    refine settled_succ ih fun part smaller => inside part smaller _ ?_
    exact (Nat.le_add_right _ _).trans le

-- Every level of the value costs at most one reference for each name.
theorem settled_of_le {limit : Nat} (enough : table.length * (value.depth + 1) + 1 ≤ limit) :
    Settled table limit value := by
  induction depth : value.depth using Nat.strong_induction_on generalizing value limit with
  | h _ ih =>
    subst depth
    refine settled_from (Nat.succ_pos (table.length * value.depth)) ?_ ?_
    · intro part smaller limit small
      refine ih part.depth smaller (Nat.le_trans ?_ small) rfl
      exact Nat.succ_le_succ (Nat.mul_le_mul_left _ smaller)
    · rw [Nat.mul_succ] at enough
      omega

theorem settled_referenceLimit {limit : Nat} (enough : referenceLimit table.length value ≤ limit) :
    Settled table limit value := by
  refine settled_of_le (Nat.le_trans ?_ enough)
  unfold referenceLimit
  rw [Nat.succ_mul, Nat.mul_succ, Nat.mul_succ, Nat.mul_succ]
  omega

-- Beyond the limit of a value all limits give one meaning, at the value and inside it.
theorem meaning_stable {limit more : Nat} (le : limit ≤ more)
    (settled : ∀ between, limit ≤ between → Settled table between value) (name : String) :
    Precedes (meaning table more name value) (meaning table limit name value) := by
  induction le with
  | refl => exact .refl _
  | step le ih => exact (settled _ le name).trans ih

-- The limit is no restriction: following more references leads to the same issues, or to none.
theorem evaluate_eq_check {limit : Nat} (enough : referenceLimit table.length value ≤ limit)
    (v : Validator) (issues : List Issue) :
    evaluate (meaning table limit) v value = .ok issues ↔ check table v value = .ok issues := by
  constructor
  · refine Precedes.ok (evaluate_precedes v fun name part within => ?_)
    refine meaning_stable enough (fun between le => settled_referenceLimit ?_) name
    exact (referenceLimit_mono _ within.depth_le).trans le
  · exact Precedes.ok (evaluate_precedes v fun name part _ => meaning_mono table enough name part)

end Limits

end Validator

end ApiContract
