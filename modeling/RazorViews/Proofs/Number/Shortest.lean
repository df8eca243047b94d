import RazorViews.Proofs.Number.Nearest

/-!
# The shortest decimal rounds to its number

A number is written as the shortest decimal that rounds to it, and of several the nearest one.  That
it rounds to the number is what matters for reading it back: `nearest_shortest`.

Every decimal that is tried lies in the interval of the number (`roundsTo_of_onGrid?`), so it is
enough that one is found.  Decimals are tried on grids that get finer digit by digit, and one of
seventeen digits is finer than the places of any number, so that its interval holds a point of the
grid (`exists_onGrid`).  For this the place of the first digit must not be taken too high
(`pow_magnitude_le`).

That no shorter decimal would do is not proved here, and reading back does not need it.
-/

namespace RazorViews.Number

variable {a : Ratio} {S : ℕ} {E e : ℤ} {d : Decimal}

/-! ## Decimals -/

/-- The value of a decimal. -/
def Decimal.toRat (d : Decimal) : ℚ := d.digits * 10 ^ d.exponent

theorem Decimal.toRat_value (d : Decimal) : d.value.toRat = d.toRat := by
  rw [Decimal.value, Ratio.toRat_scaled (by norm_num)]
  rfl

/-- Zeros at the end do not change the value. -/
theorem toRat_trimZeros (fuel : ℕ) (d : Decimal) : (trimZeros fuel d).toRat = d.toRat := by
  induction fuel generalizing d with
  | zero => rfl
  | succ fuel ih =>
    rw [trimZeros]
    split
    · rename_i hzero
      have hdigits : (d.digits : ℚ) = (d.digits / 10 : ℕ) * 10 := by
        have hdiv := Nat.div_add_mod d.digits 10
        rw [beq_iff_eq.1 hzero, add_zero, mul_comm] at hdiv
        exact_mod_cast hdiv.symm
      rw [ih, Decimal.toRat, Decimal.toRat, hdigits, zpow_add₀ (by norm_num)]
      ring
    · rfl

/-! ## The grid -/

/-- A fraction lies between its neighbours, which are one step apart. -/
theorem neighbours_bounds (ha : 0 < a.den) (e : ℤ) :
    (neighbours a e).1.toRat ≤ a.toRat ∧ a.toRat < (neighbours a e).2.toRat ∧
      (neighbours a e).2.toRat = (neighbours a e).1.toRat + 10 ^ e := by
  have hpow : (0 : ℚ) < 10 ^ e := zpow_pos (by norm_num) e
  have ha' : (0 : ℚ) < a.den := by exact_mod_cast ha
  let shifted : Ratio := if 0 ≤ e then ⟨a.num, a.den * power 10 e.toNat⟩
    else ⟨a.num * power 10 (-e).toNat, a.den⟩
  let floor := shifted.num / shifted.den
  have hshifted : 0 < shifted.den ∧ shifted.toRat = a.toRat / 10 ^ e := by
    by_cases he : 0 ≤ e
    · have hcast : (10 : ℚ) ^ e = 10 ^ e.toNat := by
        rw [← zpow_natCast, Int.toNat_of_nonneg he]
      simp only [shifted, if_pos he, Ratio.toRat, power, Nat.pow_eq, hcast]
      refine ⟨by positivity, ?_⟩
      push_cast
      rw [div_div]
    · have hcast : (10 : ℚ) ^ e = (10 ^ (-e).toNat)⁻¹ := by
        rw [← zpow_natCast, Int.toNat_of_nonneg (by omega), zpow_neg, inv_inv]
      simp only [shifted, if_neg he, Ratio.toRat, power, Nat.pow_eq, hcast]
      refine ⟨ha, ?_⟩
      push_cast
      rw [div_inv_eq_mul, div_mul_eq_mul_div]
  obtain ⟨hden, hrat⟩ := hshifted
  have hden' : (0 : ℚ) < shifted.den := by exact_mod_cast hden
  have hlow : (floor : ℚ) ≤ shifted.toRat := by
    rw [Ratio.toRat, le_div_iff₀ hden']
    exact_mod_cast Nat.div_mul_le_self _ _
  have hhigh : shifted.toRat < floor + 1 := by
    rw [Ratio.toRat, div_lt_iff₀ hden']
    have hnat := Nat.lt_mul_div_succ shifted.num hden
    rw [mul_comm] at hnat
    exact_mod_cast hnat
  rw [hrat, le_div_iff₀ hpow] at hlow
  rw [hrat, div_lt_iff₀ hpow] at hhigh
  have hbelow : (neighbours a e).1 = ⟨floor, e⟩ := rfl
  have habove : (neighbours a e).2 = ⟨floor + 1, e⟩ := rfl
  rw [hbelow, habove, Decimal.toRat, Decimal.toRat]
  push_cast
  exact ⟨hlow, hhigh, by ring⟩

theorem contains_value_iff (hS : 0 < S) (d : Decimal) :
    (rounding S E).contains d.value = true ↔ RoundsTo S E d.toRat := by
  rw [contains_rounding_iff (a := d.value) hS (Ratio.den_scaled_pos (by norm_num) _ _),
    Decimal.toRat_value]

/-- What is found on a grid rounds to the number. -/
theorem roundsTo_of_onGrid? (hS : 0 < S) (h : onGrid? (rounding S E) a e = some d) :
    RoundsTo S E d.toRat := by
  rw [onGrid?] at h
  dsimp only at h
  rw [← contains_value_iff hS]
  cases hbelow : (neighbours a e).1.digits != 0 &&
      (rounding S E).contains (neighbours a e).1.value with
  | false =>
    cases habove : (rounding S E).contains (neighbours a e).2.value with
    | false =>
      rw [hbelow, habove] at h
      exact absurd h (by simp)
    | true =>
      rw [hbelow, habove] at h
      exact Option.some.inj h ▸ habove
  | true =>
    have hfits := (Bool.and_eq_true _ _ ▸ hbelow).2
    cases habove : (rounding S E).contains (neighbours a e).2.value with
    | false =>
      rw [hbelow, habove] at h
      exact Option.some.inj h ▸ hfits
    | true =>
      rw [hbelow, habove] at h
      obtain rfl := Option.some.inj h
      rw [nearer]
      split
      · exact hfits
      · split
        · exact habove
        · split
          · exact hfits
          · exact habove

/-- A grid finer than the places of the number has a decimal in its interval. -/
theorem exists_onGrid (hS : IsNormal S E) (ha : 0 < a.den) (hvalue : a.toRat = S * 2 ^ E)
    (hfine : (10 : ℚ) ^ e * 10 ^ 16 ≤ a.toRat) :
    ∃ d, onGrid? (rounding S E) a e = some d := by
  obtain ⟨hlow, hhigh, hstep⟩ := neighbours_bounds ha e
  have hpow : (0 : ℚ) < 10 ^ e := zpow_pos (by norm_num) e
  have hunit : (0 : ℚ) < 2 ^ E := zpow_pos (by norm_num) E
  rw [onGrid?]
  dsimp only
  have hdigits : ((neighbours a e).1.digits != 0) = true := by
    rw [bne_iff_ne]
    intro hzero
    rw [hstep, Decimal.toRat, hzero, Nat.cast_zero, zero_mul, zero_add] at hhigh
    linarith
  by_cases hbelow : RoundsTo S E (neighbours a e).1.toRat
  · rw [(contains_value_iff hS.pos _).2 hbelow, hdigits]
    cases (rounding S E).contains (neighbours a e).2.value with
    | true => exact ⟨_, rfl⟩
    | false => exact ⟨_, rfl⟩
  · by_cases habove : RoundsTo S E (neighbours a e).2.toRat
    · rw [(contains_value_iff hS.pos _).2 habove]
      cases (_ && _ : Bool) with
      | true => exact ⟨_, rfl⟩
      | false => exact ⟨_, rfl⟩
    · -- then the whole interval would lie between two neighbours on the grid
      exfalso
      have hbelow' := le_of_not_roundsTo hbelow (hvalue ▸ hlow)
      have habove' := ge_of_not_roundsTo habove (hvalue ▸ hhigh.le)
      have hwide : (S + 1 / 2 - lowEnd S E) * 2 ^ E ≤ 10 ^ e := by
        rw [sub_mul]
        linarith
      have hgrid : (10 : ℚ) ^ e ≤ S / 10 ^ 16 * 2 ^ E := by
        rw [hvalue] at hfine
        linarith
      have hnarrow : S / 10 ^ 16 < S + 1 / 2 - lowEnd S E := by
        have hlt : (S : ℚ) < 2 ^ 53 := by exact_mod_cast hS.lt
        rw [lowEnd]
        split
        · rename_i h
          rw [h.1]
          norm_num
        · linarith
      have := (mul_lt_mul_iff_of_pos_right hunit).2 hnarrow
      linarith

/-! ## The first place -/

theorem below_spec (fuel n : ℕ) (h : a.den ≤ a.num * 10 ^ (n + fuel)) :
    ∃ k : ℕ, magnitude.below a fuel n = k ∧ a.den ≤ a.num * 10 ^ k := by
  induction fuel generalizing n with
  | zero => exact ⟨n, rfl, h⟩
  | succ fuel ih =>
    rw [magnitude.below]
    split
    · rename_i hn
      exact ⟨n, rfl, hn⟩
    · exact ih (n + 1) (by rwa [add_assoc, add_comm 1 fuel])

/-- The first place of a fraction does not stand above it. -/
theorem pow_magnitude_le (ha : 0 < a.den) (h : a.den ≤ a.num * 10 ^ (1 + 400)) :
    (10 : ℚ) ^ magnitude a ≤ a.toRat := by
  have ha' : (0 : ℚ) < a.den := by exact_mod_cast ha
  rw [magnitude]
  split
  · rename_i hle
    have hquotient : 0 < a.num / a.den := Nat.div_pos hle ha
    obtain ⟨hlow, -⟩ := toDigits_bounds hquotient
    have hlength : 0 < (Nat.toDigits 10 (a.num / a.den)).length := Nat.length_toDigits_pos
    have hcast : ((Nat.toDigits 10 (a.num / a.den)).length : ℤ) - 1 =
        ((Nat.toDigits 10 (a.num / a.den)).length - 1 : ℕ) := by omega
    rw [hcast, zpow_natCast, Ratio.toRat, le_div_iff₀ ha']
    exact_mod_cast (Nat.mul_le_mul_right _ hlow).trans (Nat.div_mul_le_self _ _)
  · obtain ⟨k, hk, hle⟩ := below_spec (a := a) 400 1 h
    rw [hk, zpow_neg, zpow_natCast, Ratio.toRat, le_div_iff₀ ha', inv_mul_le_iff₀ (by positivity),
      mul_comm]
    exact_mod_cast hle

/-- The shortest decimal of a number rounds to the number. -/
theorem roundsTo_shortest (hS : IsNormal S E) : RoundsTo S E (shortest S E).toRat := by
  let a := Ratio.scaled S 2 E
  have ha : 0 < a.den := Ratio.den_scaled_pos (by norm_num) S E
  have hvalue : a.toRat = S * 2 ^ E := Ratio.toRat_scaled (by norm_num) S E
  have hlarge : a.den ≤ a.num * 10 ^ (1 + 400) := by
    have hpos : 1 ≤ S := hS.pos
    simp only [a, Ratio.scaled]
    split
    · exact Nat.one_le_iff_ne_zero.2 (by simp only [power, Nat.pow_eq]; positivity)
    · have hplaces : (-E).toNat ≤ 1074 := by
        have := hS.least
        omega
      calc power 2 (-E).toNat ≤ 2 ^ 1074 := Nat.pow_le_pow_right (by norm_num) hplaces
        _ ≤ 10 ^ (1 + 400) := by decide +kernel
        _ ≤ S * 10 ^ (1 + 400) := Nat.le_mul_of_pos_left _ hpos
  have htop := pow_magnitude_le ha hlarge
  rw [shortest, toRat_trimZeros]
  cases hfound : (List.range 17).findSome? fun n : ℕ =>
      onGrid? (rounding S E) (Ratio.scaled S 2 E) (magnitude (Ratio.scaled S 2 E) - (n : ℤ)) with
  | none =>
    -- seventeen digits are fine enough
    have hfine : (10 : ℚ) ^ (magnitude a - (16 : ℕ)) * 10 ^ 16 ≤ a.toRat := by
      rwa [← zpow_natCast, ← zpow_add₀ (by norm_num), sub_add_cancel]
    obtain ⟨d, hd⟩ := exists_onGrid hS ha hvalue hfine
    have hnone := List.findSome?_eq_none_iff.1 hfound 16 (by decide)
    rw [hnone] at hd
    exact absurd hd (by simp)
  | some d =>
    obtain ⟨n, -, hd⟩ := List.exists_of_findSome?_eq_some hfound
    exact roundsTo_of_onGrid? hS.pos hd

/-- The shortest decimal of a number, in whatever places, is read as the number. -/
theorem nearest_shortest (hS : IsNormal S E) {m : ℕ}
    (h : (m : ℚ) * 10 ^ e = (shortest S E).toRat) : nearest m e = ofParts S E hS.pos :=
  nearest_eq hS (h ▸ roundsTo_shortest hS)

end RazorViews.Number
