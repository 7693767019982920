import ApiContract.Identifier
import Mathlib.Data.List.Nodup
import Mathlib.Data.List.Perm.Subperm

namespace ApiContract.Identifier

-- How a name becomes fresh: the search goes through numbered names until one is free. Numbers make different
-- names of one base, so it ends at the latest when all taken names have been met.

section Numbers

theorem toList_numbered (base : String) (n : Nat) : (numbered base n).toList = base.toList ++ Nat.toDigits 10 n := by
  simp [numbered, Nat.toList_repr]

theorem numbered_injective {base : String} {m n : Nat} (equal : numbered base m = numbered base n) : m = n := by
  have texts := congrArg String.toList equal
  rw [toList_numbered, toList_numbered] at texts
  have digits := List.append_cancel_left texts
  rw [← Nat.ofDigitChars_ten_toDigits (n := m), digits, Nat.ofDigitChars_ten_toDigits]

theorem numbered_ne (base : String) (n : Nat) : numbered base n ≠ base := by
  intro equal
  have texts := congrArg String.toList equal
  rw [toList_numbered] at texts
  exact Nat.toDigits_ne_nil (List.append_right_eq_self.mp texts)

-- A number shows at the end of the name.
theorem numbered_last (base : String) (n : Nat) :
    ∃ c, (numbered base n).toList.getLast? = some c ∧ c.isDigit = true := by
  have some : Nat.toDigits 10 n ≠ [] := Nat.toDigits_ne_nil
  refine ⟨(Nat.toDigits 10 n).getLast some, ?_, ?_⟩
  · rw [toList_numbered, List.getLast?_append_of_ne_nil _ some, List.getLast?_eq_getLast_of_ne_nil some]
  · exact Nat.isDigit_of_mem_toDigits (by decide) (by decide) (List.getLast_mem some)

end Numbers

section Search

variable {base : String} {taken : List String}

-- The names that are tried, in this order.
def candidate (base : String) : Nat → String
  | 0 => base
  | n + 1 => numbered base (n + 2)

theorem candidate_injective (base : String) : Function.Injective (candidate base) := by
  intro m n equal
  cases m with
  | zero =>
    cases n with
    | zero => rfl
    | succ n => exact absurd equal.symm (numbered_ne base (n + 2))
  | succ m =>
    cases n with
    | zero => exact absurd equal (numbered_ne base (m + 2))
    | succ n => rw [Nat.add_right_cancel (numbered_injective equal)]

theorem candidates_le {n : Nat} (all : ∀ m < n, candidate base m ∈ taken) : n ≤ taken.length := by
  have apart : ((List.range n).map (candidate base)).Nodup := List.nodup_range.map (candidate_injective base)
  have inside : (List.range n).map (candidate base) ⊆ taken :=
    List.forall_mem_map.mpr fun m small => all m (List.mem_range.mp small)
  simpa using (List.subperm_of_subset apart inside).length_le

-- All that were tried before are taken, and the search goes on only while it has fuel.
theorem freshFrom_search (base : String) (taken : List String) (fuel n : Nat) :
    ∃ steps, freshFrom base taken fuel n = numbered base (n + steps) ∧
      (∀ i < steps, numbered base (n + i) ∈ taken) ∧ (steps < fuel → numbered base (n + steps) ∉ taken) := by
  induction fuel generalizing n with
  | zero =>
    have none (i : Nat) : ¬ i < 0 := Nat.not_lt_zero i
    exact ⟨0, rfl, fun i small => absurd small (none i), fun small => absurd small (none 0)⟩
  | succ fuel ih =>
    unfold freshFrom
    split
    · rename_i used
      obtain ⟨steps, found, tried, free⟩ := ih (n + 1)
      have shift (i : Nat) : n + 1 + i = n + (i + 1) := by omega
      simp only [shift] at found tried free
      refine ⟨steps + 1, found, fun i small => ?_, fun small => free (Nat.lt_of_succ_lt_succ small)⟩
      cases i with
      | zero => exact List.contains_iff_mem.mp used
      | succ i => exact tried i (Nat.lt_of_succ_lt_succ small)
    · rename_i unused
      refine ⟨0, rfl, fun i small => absurd small (Nat.not_lt_zero i), fun _ member => ?_⟩
      exact unused (List.contains_iff_mem.mpr member)

-- Trying the candidates in turn ends with this name, after no more tries than there are taken names.
def FirstFree (base : String) (taken : List String) (name : String) : Prop :=
  ∃ n ≤ taken.length, name = candidate base n ∧ name ∉ taken ∧ ∀ m < n, candidate base m ∈ taken

theorem fresh_of_notMem (free : base ∉ taken) : fresh base taken = base :=
  if_neg fun used => free (List.contains_iff_mem.mp used)

theorem fresh_firstFree (base : String) (taken : List String) : FirstFree base taken (fresh base taken) := by
  by_cases used : base ∈ taken
  · obtain ⟨steps, found, tried, free⟩ := freshFrom_search base taken taken.length 2
    have all : ∀ m < steps + 1, candidate base m ∈ taken := by
      intro m small
      cases m with
      | zero => exact used
      | succ m =>
        rw [candidate, Nat.add_comm]
        exact tried m (Nat.lt_of_succ_lt_succ small)
    -- `base` is taken too, so the fuel is not used up
    have bound := candidates_le all
    have name : fresh base taken = candidate base (steps + 1) := by
      rw [fresh, if_pos (List.contains_iff_mem.mpr used), found, candidate, Nat.add_comm]
    refine ⟨steps + 1, bound, name, ?_, all⟩
    rw [name, candidate, Nat.add_comm]
    exact free bound
  · rw [fresh_of_notMem used]
    exact ⟨0, Nat.zero_le _, rfl, used, fun m small => absurd small (Nat.not_lt_zero m)⟩

theorem fresh_notMem (base : String) (taken : List String) : fresh base taken ∉ taken := by
  obtain ⟨_, _, _, free, _⟩ := fresh_firstFree base taken
  exact free

theorem fresh_cases (base : String) (taken : List String) :
    fresh base taken = base ∨ ∃ n, fresh base taken = numbered base n := by
  obtain ⟨n, _, name, _⟩ := fresh_firstFree base taken
  cases n with
  | zero => exact .inl name
  | succ n => exact .inr ⟨n + 2, name⟩

end Search

-- The names differ from one another and from those that are taken.
structure Apart (names taken : List String) : Prop where
  distinct : names.Nodup
  free : ∀ name ∈ names, name ∉ taken

theorem Apart.nil (taken : List String) : Apart [] taken := ⟨List.nodup_nil, List.forall_mem_nil _⟩

-- A name that is new, before others that were made fresh after it.
theorem Apart.cons {name : String} {names taken : List String} (new : name ∉ taken)
    (later : Apart names (name :: taken)) : Apart (name :: names) taken := by
  refine ⟨List.nodup_cons.mpr ⟨?_, later.distinct⟩, List.forall_mem_cons.mpr ⟨new, ?_⟩⟩
  · exact fun again => later.free name again List.mem_cons_self
  · exact fun other member used => later.free other member (List.mem_cons_of_mem _ used)

end ApiContract.Identifier
