import ApiContract.Number.Double

namespace ApiContract.Double

-- An integer is rounded to an integer: to itself while it has at most 53 binary digits, and else to one
-- that has at least as many. So comparing rounded integers is comparing integers as long as one side is
-- small.

theorem nearestQuotient_one (n : Nat) : nearestQuotient n 1 = n := by
  simp [nearestQuotient, Nat.mod_one]

theorem div_le_nearestQuotient (n d : Nat) : n / d ≤ nearestQuotient n d := by
  unfold nearestQuotient
  dsimp only
  split
  · exact Nat.le_refl _
  · split
    · exact Nat.le_succ _
    · split
      · exact Nat.le_refl _
      · exact Nat.le_succ _

theorem log2_one : Nat.log2 1 = 0 := by decide

theorem lastPlace_le (n : Nat) : lastPlace n 1 ≤ max ((n.log2 : Int) - 52) (-1074) := by
  unfold lastPlace
  simp only [log2_one]
  split <;> omega

theorem lastPlace_of_pos {n : Nat} (positive : n ≠ 0) : lastPlace n 1 = max ((n.log2 : Int) - 52) (-1074) := by
  have leading : 1 <<< ((n.log2 : Int) - (0 : Nat)).toNat ≤ n <<< (-((n.log2 : Int) - (0 : Nat))).toNat := by
    simpa [Nat.shiftLeft_eq] using Nat.log2_self_le positive
  unfold lastPlace
  simp only [log2_one]
  rw [if_pos leading]
  simp

-- Moving binary digits between the number and its exponent changes nothing.
theorem ofIntWithPrec_shifted (m places : Nat) :
    Dyadic.ofIntWithPrec ((m <<< places : Nat) : Int) places = Dyadic.ofInt m := by
  have moved : Dyadic.ofIntWithPrec ((m : Int) <<< places) (0 + places) = Dyadic.ofIntWithPrec m 0 :=
    Dyadic.ofIntWithPrec_shiftLeft_add
  rwa [Int.zero_add] at moved

theorem ofIntWithPrec_scaled (m places : Nat) :
    Dyadic.ofIntWithPrec m (-(places : Int)) = Dyadic.ofInt ((m <<< places : Nat) : Int) := by
  have moved : Dyadic.ofIntWithPrec ((m : Int) <<< places) (-places + places) = Dyadic.ofIntWithPrec m (-places) :=
    Dyadic.ofIntWithPrec_shiftLeft_add
  rw [Int.add_left_neg] at moved
  exact moved.symm

theorem nearestRatio_small {n : Nat} (small : n.log2 < 53) : nearestRatio n 1 = Dyadic.ofInt n := by
  have whole : lastPlace n 1 ≤ 0 := by
    have := lastPlace_le n
    omega
  obtain ⟨places, negative⟩ := Int.eq_ofNat_of_zero_le (Int.neg_nonneg_of_nonpos whole)
  have none : (lastPlace n 1).toNat = 0 := by omega
  unfold nearestRatio
  simp only [negative, none, Int.toNat_natCast, Nat.shiftLeft_zero, nearestQuotient_one]
  exact ofIntWithPrec_shifted n places

theorem ne_zero_of_large {n : Nat} (large : 53 ≤ n.log2) : n ≠ 0 := by
  rintro rfl
  cases large

theorem nearestRatio_large {n : Nat} (large : 53 ≤ n.log2) :
    ∃ m : Nat, Nat.pow 2 52 ≤ m ∧ nearestRatio n 1 = Dyadic.ofInt m := by
  have positive := ne_zero_of_large large
  obtain ⟨places, count⟩ := Nat.exists_eq_add_of_le (Nat.le_of_succ_le large)
  have place : lastPlace n 1 = places := by
    have := lastPlace_of_pos positive
    omega
  refine ⟨nearestQuotient n (1 <<< places) <<< places, ?_, ?_⟩
  · have leading : Nat.pow 2 52 * Nat.pow 2 places ≤ n := by
      have := Nat.log2_self_le positive
      rwa [count, Nat.pow_add] at this
    calc Nat.pow 2 52
        ≤ n / (1 <<< places) := by
          rw [Nat.shiftLeft_eq, Nat.one_mul]
          exact (Nat.le_div_iff_mul_le (Nat.two_pow_pos places)).mpr leading
      _ ≤ nearestQuotient n (1 <<< places) := div_le_nearestQuotient _ _
      _ ≤ nearestQuotient n (1 <<< places) <<< places := Nat.le_shiftLeft
  · have none : (-(places : Int)).toNat = 0 := by omega
    unfold nearestRatio
    simp only [place, none, Int.toNat_natCast, Nat.shiftLeft_zero]
    exact ofIntWithPrec_scaled _ places

theorem value_ofInt (n : Nat) : (ofInt n).value = nearestRatio n 1 := by
  have plain : decide ((n : Int) < 0) = false := by simp
  simp only [ofInt, plain, signed, Bool.false_eq_true, if_false, value, Int.natAbs_natCast]

-- The integer that a small one is compared with after rounding.
theorem ofInt_rounded (n : Nat) :
    ∃ m : Nat, (ofInt n).value = Dyadic.ofInt m ∧ (m = n ∨ Nat.pow 2 52 ≤ m ∧ Nat.pow 2 52 ≤ n) := by
  rw [value_ofInt]
  rcases Nat.lt_or_ge n.log2 53 with small | large
  · exact ⟨n, nearestRatio_small small, .inl rfl⟩
  · obtain ⟨m, least, rounded⟩ := nearestRatio_large large
    refine ⟨m, rounded, .inr ⟨least, ?_⟩⟩
    exact (Nat.le_log2 (ne_zero_of_large large)).mp (Nat.le_of_succ_le large)

theorem ofInt_small {c : Nat} (small : c < Nat.pow 2 52) : (ofInt c).value = Dyadic.ofInt c := by
  obtain ⟨m, rounded, rfl | ⟨_, large⟩⟩ := ofInt_rounded c
  · exact rounded
  · omega

section Comparison

theorem toRat_ofInt (n : Int) : (Dyadic.ofInt n).toRat = n := Dyadic.toRat_intCast n

variable {c n : Nat}

theorem ofInt_eq_ofInt (small : c < Nat.pow 2 52) : (ofInt c).value = (ofInt n).value ↔ c = n := by
  obtain ⟨m, rounded, either⟩ := ofInt_rounded n
  rw [ofInt_small small, rounded, ← Dyadic.toRat_inj, toRat_ofInt, toRat_ofInt, Rat.intCast_inj]
  omega

theorem ofInt_le_ofInt (small : c < Nat.pow 2 52) : (ofInt n).value ≤ (ofInt c).value ↔ n ≤ c := by
  obtain ⟨m, rounded, either⟩ := ofInt_rounded n
  rw [ofInt_small small, rounded, ← Dyadic.toRat_le_toRat_iff, toRat_ofInt, toRat_ofInt, Rat.intCast_le_intCast]
  omega

theorem ofInt_lt_ofInt (small : c < Nat.pow 2 52) : (ofInt c).value < (ofInt n).value ↔ c < n := by
  rw [← Dyadic.not_lt, ofInt_le_ofInt small, Nat.not_le]

end Comparison

-- An odd number with places after the binary point is no integer.
theorem isIntegral_iff {x : Double} : x.isIntegral = true ↔ ∃ k : Int, x.value = .ofInt k := by
  unfold isIntegral
  constructor
  · intro integral
    cases given : x.value with
    | zero => exact ⟨0, rfl⟩
    | ofOdd n places odd =>
      rw [given] at integral
      cases places with
      | ofNat k =>
        have none : k = 0 := by simpa using integral
        subst none
        exact ⟨n, Dyadic.toRat_inj.mp (Eq.trans rfl (toRat_ofInt n).symm)⟩
      | negSucc k => exact ⟨_, Dyadic.toRat_inj.mp (Eq.trans rfl (toRat_ofInt _).symm)⟩
  · rintro ⟨k, whole⟩
    rw [whole, Dyadic.ofInt, Dyadic.ofIntWithPrec]
    by_cases zero : k = 0
    · rw [dif_pos zero]
    · rw [dif_neg zero]
      simp

theorem isIntegral_ofInt (n : Nat) : (ofInt n).isIntegral = true := by
  obtain ⟨m, rounded, _⟩ := ofInt_rounded n
  exact isIntegral_iff.mpr ⟨m, rounded⟩

end ApiContract.Double
