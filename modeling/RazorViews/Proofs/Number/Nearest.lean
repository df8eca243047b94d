import RazorViews.Proofs.Number.Model
import RazorViews.Number.Reader

/-!
# The nearest binary64 number

A decimal that rounds to a number is read as that number: `nearest_eq`.  The decimal may have any
number of digits and any exponent; one that is far too big or too small is answered without being
looked at, and no such decimal rounds to a number (`RoundsTo.size_bounds`).

The reader makes a product or a quotient of two numbers that hold the digits of the decimal and a
power of ten.  Both are exact, in one of two ways: the power is from a table of small ones, or it is
taken as a whole number (`exists_stands_table`, `stands_pow`).  Such products and quotients are
rounded once (`mul_eq`, `div_eq`), and once only, so what comes out is the number whose interval the
decimal lies in.
-/

namespace RazorViews.Number

open Float.Model Float.Model.UnpackedFloat

variable {S m k : ℕ} {E : ℤ} {v : ℚ}

/-! ## Products and quotients -/

/-- The unpacked number is positive and has a value. -/
structure Stands (u : UnpackedFloat) (significand : ℕ) (exponent : ℤ) (v : ℚ) : Prop where
  pos : 0 < significand
  eq : u = .finite .positive significand exponent pos
  value : (significand : ℚ) * 2 ^ exponent = v

variable {u u' : UnpackedFloat} {m₁ m₂ : ℕ} {e₁ e₂ : ℤ} {a b : ℚ}

theorem log_le_of_le {c : ℤ} (h : (2 : ℚ) ^ c ≤ v) : c ≤ Int.log 2 v := by
  have hv : 0 < v := (zpow_pos (by norm_num) c).trans_le h
  exact (Int.zpow_le_iff_le_log (by norm_num) hv).1 (by exact_mod_cast h)

theorem mul_eq (hu : Stands u m₁ e₁ a) (hu' : Stands u' m₂ e₂ b) (hfull : 2 ^ 52 ≤ m₁)
    (hS : IsNormal S E) (hv : RoundsTo S E (a * b)) :
    UnpackedFloat.mul .binary64 u u' = .finite .positive S E hS.pos := by
  obtain ⟨hpos, rfl, rfl⟩ := hu
  obtain ⟨hpos', rfl, rfl⟩ := hu'
  have hvalue : (m₁ : ℚ) * 2 ^ e₁ * (m₂ * 2 ^ e₂) = (m₁ * m₂ : ℕ) * 2 ^ (e₁ + e₂) := by
    rw [zpow_add₀ (by norm_num)]
    push_cast
    ring
  have hplaces : Places (.ofMantissaAndAccuracy (m₁ * m₂) .exact)
      ((m₁ : ℚ) * 2 ^ e₁ * (m₂ * 2 ^ e₂) / 2 ^ (e₁ + e₂)) := by
    rw [hvalue, mul_div_cancel_right₀ _ (zpow_ne_zero _ (by norm_num))]
    exact rfl
  have hlast : e₁ + e₂ ≤ lastPlace ((m₁ : ℚ) * 2 ^ e₁ * (m₂ * 2 ^ e₂)) := by
    have hlog : 52 + (e₁ + e₂) ≤ Int.log 2 ((m₁ : ℚ) * 2 ^ e₁ * (m₂ * 2 ^ e₂)) := by
      apply log_le_of_le
      have hmany : 2 ^ 52 ≤ m₁ * m₂ := hfull.trans (Nat.le_mul_of_pos_right m₁ hpos')
      rw [hvalue, zpow_add₀ (by norm_num)]
      exact mul_le_mul_of_nonneg_right (by exact_mod_cast hmany)
        (zpow_pos (by norm_num) _).le
    rw [lastPlace]
    omega
  exact roundWithAccuracy_eq hS hv hplaces hlast _

theorem div_eq (hu : Stands u m₁ e₁ a) (hu' : Stands u' m₂ e₂ b)
    (hS : IsNormal S E) (hv : RoundsTo S E (a / b)) :
    UnpackedFloat.div .binary64 u u' = .finite .positive S E hS.pos := by
  obtain ⟨hpos, rfl, rfl⟩ := hu
  obtain ⟨hpos', rfl, rfl⟩ := hu'
  let t := min (e₁ - e₂)
    (Format.binary64.targetExponent (totalExponent m₁ e₁ - totalExponent m₂ e₂))
  let M := m₁ <<< (e₁ - e₂ - t).toNat
  have hm₂ : (0 : ℚ) < m₂ := by exact_mod_cast hpos'
  have hpow : ∀ c : ℤ, (0 : ℚ) < 2 ^ c := fun c => zpow_pos (by norm_num) c
  have hvalue : (m₁ : ℚ) * 2 ^ e₁ / (m₂ * 2 ^ e₂) = m₁ / m₂ * 2 ^ (e₁ - e₂) := by
    rw [zpow_sub₀ (by norm_num)]
    field_simp
  have hplaces : Places (.ofMantissaAndAccuracy (M / m₂) (accuracyOfFraction (M % m₂) m₂))
      ((m₁ : ℚ) * 2 ^ e₁ / (m₂ * 2 ^ e₂) / 2 ^ t) := by
    have hshift : ((e₁ - e₂ - t).toNat : ℤ) = e₁ - e₂ - t := by omega
    have hM : (M : ℚ) = m₁ * 2 ^ (e₁ - e₂ - t) := by
      rw [← hshift, zpow_natCast]
      simp only [M, Nat.shiftLeft_eq]
      push_cast
      rfl
    have hquotient : (m₁ : ℚ) * 2 ^ e₁ / (m₂ * 2 ^ e₂) / 2 ^ t = M / m₂ := by
      rw [hvalue, hM, zpow_sub₀ (by norm_num) (e₁ - e₂) t]
      have := (hpow t).ne'
      field_simp
    rw [hquotient]
    exact places_div M hpos'
  have hlast : t ≤ lastPlace ((m₁ : ℚ) * 2 ^ e₁ / (m₂ * 2 ^ e₂)) := by
    have hlog : totalExponent m₁ e₁ - totalExponent m₂ e₂ - 1 ≤
        Int.log 2 ((m₁ : ℚ) * 2 ^ e₁ / (m₂ * 2 ^ e₂)) := by
      apply log_le_of_le
      have hlow : (2 : ℚ) ^ m₁.log2 ≤ m₁ := by exact_mod_cast Nat.log2_self_le hpos.ne'
      have hhigh : (m₂ : ℚ) ≤ 2 ^ (m₂.log2 + 1) := by exact_mod_cast Nat.lt_log2_self.le
      have htotal : totalExponent m₁ e₁ - totalExponent m₂ e₂ - 1 =
          (m₁.log2 : ℤ) - (m₂.log2 + 1 : ℕ) + (e₁ - e₂) := by
        rw [totalExponent, totalExponent]
        push_cast
        omega
      rw [hvalue, htotal, zpow_add₀ (by norm_num), zpow_sub₀ (by norm_num), zpow_natCast,
        zpow_natCast]
      exact mul_le_mul_of_nonneg_right (div_le_div₀ (by positivity) hlow hm₂ hhigh) (hpow _).le
    have htarget : t ≤ max (totalExponent m₁ e₁ - totalExponent m₂ e₂ - 53) (-1074) :=
      (min_le_right _ _).trans (Number.targetExponent_eq _).le
    rw [lastPlace]
    omega
  exact roundWithAccuracy_eq hS hv hplaces hlast _

/-! ## Decimals -/

/-- The exact number of a small integer. -/
theorem stands_toFloat (hm : 0 < m) (hlt : m < 2 ^ 53) :
    ∃ S E, Stands m.toUInt64.toFloat.toModel.unpack S E m ∧ 2 ^ 52 ≤ S := by
  have hlow := Nat.log2_self_le hm.ne'
  have hhigh := Nat.lt_log2_self (n := m)
  have hlog : m.log2 < 53 := (Nat.log2_lt hm.ne').2 hlt
  let c := 52 - m.log2
  have hsum : m.log2 + c = 52 := by omega
  have hfull : 2 ^ 52 ≤ m * 2 ^ c := by
    rw [← hsum, pow_add]
    exact Nat.mul_le_mul_right _ hlow
  have hless : m * 2 ^ c < 2 ^ 53 := by
    have hsucc : m.log2 + 1 + c = 53 := by omega
    rw [← hsucc, pow_add]
    exact Nat.mul_lt_mul_of_pos_right hhigh (by positivity)
  have hS : IsNormal (m * 2 ^ c) (-c) := ⟨by omega, hless, by omega, by omega, .inl hfull⟩
  have hvalue : ((m * 2 ^ c : ℕ) : ℚ) * 2 ^ (-c : ℤ) = m := by
    rw [zpow_neg, zpow_natCast]
    push_cast
    field_simp
  have hround : UnpackedFloat.round .binary64 .positive m 0 =
      .finite .positive (m * 2 ^ c) (-c) hS.pos := by
    have htarget : Format.binary64.targetExponent (totalExponent m 0) = -c := by
      rw [Number.targetExponent_eq, totalExponent]
      omega
    have hshift : (0 - -(c : ℤ)).toNat = c := by omega
    have hself := roundsTo_self (m * 2 ^ c) (-c)
    have hplaces : Places (.ofMantissaAndAccuracy (m * 2 ^ c) .exact)
        ((m * 2 ^ c : ℕ) * 2 ^ (-c : ℤ) / 2 ^ (-c : ℤ) : ℚ) := by
      rw [mul_div_cancel_right₀ _ (zpow_ne_zero _ (by norm_num))]
      exact rfl
    rw [UnpackedFloat.round, htarget, decreaseExponent, hshift]
    dsimp only
    rw [Nat.shiftLeft_eq, zero_sub]
    exact roundWithAccuracy_eq hS hself hplaces
      (hself.lastPlace_eq hS fun _ => le_rfl).ge _
  have hfloat : m.toUInt64.toFloat = ofParts (m * 2 ^ c) (-c) hS.pos := by
    have hnat : m.toUInt64.toNat = m := UInt64.toNat_ofNat_of_lt (by
      change m < 2 ^ 64
      omega)
    have hcompare : compare (m : ℤ) 0 = .gt := Int.compare_eq_gt.2 (by exact_mod_cast hm)
    rw [ofParts, ← hround, UInt64.toFloat, Float.Model.ofUInt64, UnpackedFloat.ofUInt64,
      UnpackedFloat.ofNat, UnpackedFloat.ofInt, Float.Model.UnpackedFloat.normalize, hnat, hcompare]
    rfl
  exact ⟨_, _, ⟨hS.pos, hfloat ▸ unpack_ofParts hS hfull, hvalue⟩, hfull⟩

/-- The unpacked number is a power of ten, and has all its places. -/
def isPower (k : ℕ) : UnpackedFloat → Bool
  | .finite .positive S E _ =>
    2 ^ 52 ≤ S && -52 ≤ E && S * 2 ^ (E + 52).toNat == 10 ^ k * 2 ^ 52
  | _ => false

theorem stands_of_isPower (h : isPower k u = true) :
    ∃ S E, Stands u S E (10 ^ k) ∧ 2 ^ 52 ≤ S := by
  match u with
  | .finite .positive S E hpos =>
    simp only [isPower, Bool.and_eq_true, decide_eq_true_eq, beq_iff_eq] at h
    obtain ⟨⟨hfull, hE⟩, hvalue⟩ := h
    refine ⟨S, E, ⟨hpos, rfl, ?_⟩, hfull⟩
    have hcast : (S : ℚ) * 2 ^ (E + 52).toNat = 10 ^ k * 2 ^ 52 := by exact_mod_cast hvalue
    have hsplit : (2 : ℚ) ^ (E + 52).toNat = 2 ^ E * 2 ^ 52 := by
      rw [← zpow_natCast, Int.toNat_of_nonneg (by omega), zpow_add₀ (by norm_num)]
      rfl
    rw [hsplit, ← mul_assoc] at hcast
    exact mul_right_cancel₀ (by norm_num) hcast

theorem isPower_table : ∀ k (hk : k < Float.exactlyRepresentablePowersOfTen.size),
    isPower k Float.exactlyRepresentablePowersOfTen[k].toModel.unpack = true := by
  decide +kernel

/-- The small powers of ten are kept with all their places. -/
theorem exists_stands_table (hk : k < Float.exactlyRepresentablePowersOfTen.size) :
    ∃ S E, Stands Float.exactlyRepresentablePowersOfTen[k].toModel.unpack S E (10 ^ k) ∧
      2 ^ 52 ≤ S :=
  stands_of_isPower (isPower_table k hk)

/-- A power of ten as a number without an exponent. -/
theorem stands_pow (k : ℕ) :
    Stands (.finite .positive (10 ^ k) 0 (by positivity)) (10 ^ k) 0 (10 ^ k) :=
  ⟨by positivity, rfl, by simp⟩

/-- A decimal with a product is rounded once. -/
theorem ofScientific_product (hS : IsNormal S E) (hm : 0 < m) (hk : k ≤ 2048)
    (hv : RoundsTo S E (m * 10 ^ k)) : Float.ofScientific m false k = ofParts S E hS.pos := by
  rw [Float.ofScientific]
  split
  · rename_i hsmall
    obtain ⟨S₁, E₁, hstands, hfull⟩ := stands_toFloat hm hsmall.1
    obtain ⟨S₂, E₂, hpower, -⟩ := exists_stands_table (k := k) (by change k < 23; omega)
    have hmul := mul_eq hstands hpower hfull hS hv
    rw [ofParts, ← hmul]
    rfl
  · have hfull : 2 ^ 52 ≤ m <<< 53 := by
      rw [Nat.shiftLeft_eq]
      omega
    have hpos : 0 < m <<< 53 := by omega
    have hdigits : Stands (.finite .positive (m <<< 53) (-53) hpos) (m <<< 53) (-53) m := by
      refine ⟨hpos, rfl, ?_⟩
      rw [Nat.shiftLeft_eq, zpow_neg, ← div_eq_mul_inv, div_eq_iff (by norm_num)]
      push_cast
      rfl
    have hmul := mul_eq hdigits (stands_pow k) hfull hS hv
    have hbits : (2 : ℤ) ^ Format.binary64.exponentBits = 2048 := rfl
    have hcast : Int.ofNat k = (k : ℤ) := rfl
    dsimp only
    rw [if_neg Bool.false_ne_true, Float.Model.ofScientific, UnpackedFloat.ofScientific,
      dif_neg hm.ne', hbits, hcast, if_neg (by omega), if_neg (by omega), if_pos (by omega),
      ofParts, ← hmul]
    rfl

/-- A decimal with a quotient is rounded once. -/
theorem ofScientific_quotient (hS : IsNormal S E) (hm : 0 < m) (hpos : 0 < k)
    (hk : k ≤ 2048 + m.log2)
    (hv : RoundsTo S E (m / 10 ^ k)) : Float.ofScientific m true k = ofParts S E hS.pos := by
  rw [Float.ofScientific]
  split
  · rename_i hsmall
    obtain ⟨S₁, E₁, hstands, hfull⟩ := stands_toFloat hm hsmall.1
    obtain ⟨S₂, E₂, hpower, -⟩ := exists_stands_table (k := k) (by change k < 23; omega)
    have hdiv := div_eq hstands hpower hS hv
    rw [ofParts, ← hdiv]
    rfl
  · have hdigits : Stands (.finite .positive m 0 hm) m 0 m := ⟨hm, rfl, by simp⟩
    have hdiv := div_eq hdigits (stands_pow k) hS hv
    have hbits : (2 : ℤ) ^ Format.binary64.exponentBits = 2048 := rfl
    have hneg : Int.negOfNat k = -(k : ℤ) := Int.negOfNat_eq
    have habs : (- -(k : ℤ)).toNat = k := by omega
    dsimp only
    rw [if_pos rfl, Float.Model.ofScientific, UnpackedFloat.ofScientific, dif_neg hm.ne', hbits,
      hneg, if_neg (by omega), if_neg (by omega), if_neg (by omega), ofParts, ← hdiv]
    simp only [habs]

/-! ## Sizes -/

theorem toDigits_bounds (hm : 0 < m) :
    10 ^ ((Nat.toDigits 10 m).length - 1) ≤ m ∧ m < 10 ^ (Nat.toDigits 10 m).length := by
  have hlength : 0 < (Nat.toDigits 10 m).length := Nat.length_toDigits_pos
  refine ⟨?_, (Nat.length_toDigits_le_iff (by norm_num) hlength).1 le_rfl⟩
  rcases Nat.eq_zero_or_pos ((Nat.toDigits 10 m).length - 1) with hzero | hpos
  · rw [hzero, pow_zero]
    exact hm
  · by_contra hlt
    have := (Nat.length_toDigits_le_iff (by norm_num) hpos).2 (not_le.1 hlt)
    omega

/-- What rounds to a number is neither too big nor too small to be looked at. -/
theorem RoundsTo.size_bounds (hS : IsNormal S E) (hm : 0 < m) {e : ℤ}
    (hv : RoundsTo S E (m * 10 ^ e)) :
    -400 ≤ (Nat.toDigits 10 m).length + e ∧ (Nat.toDigits 10 m).length + e ≤ 400 := by
  obtain ⟨hlow, hhigh⟩ := toDigits_bounds hm
  have hlength : 0 < (Nat.toDigits 10 m).length := Nat.length_toDigits_pos
  have hpow : (0 : ℚ) < 10 ^ e := zpow_pos (by norm_num) e
  have hten : (1 : ℚ) < 10 := by norm_num
  constructor
  · have hless : (10 : ℚ) ^ (-324 : ℤ) < 10 ^ ((Nat.toDigits 10 m).length + e) := by
      have hone : (1 : ℚ) ≤ S := by exact_mod_cast hS.pos
      have hunit : (2 : ℚ) ^ (-1074 : ℤ) ≤ 2 ^ E := zpow_le_zpow_right₀ (by norm_num) hS.least
      have hend := lowEnd_ge S E
      have hconstants : (2 : ℚ) * 2 ^ 1074 ≤ 10 ^ 324 := by
        have hnat : 2 * 2 ^ 1074 ≤ 10 ^ 324 := by decide +kernel
        exact_mod_cast hnat
      calc (10 : ℚ) ^ (-324 : ℤ) ≤ 1 / 2 * 2 ^ (-1074 : ℤ) := by
            rw [zpow_neg, zpow_neg, zpow_ofNat, zpow_ofNat, one_div, ← mul_inv]
            exact inv_anti₀ (by positivity) hconstants
        _ ≤ lowEnd S E * 2 ^ E := mul_le_mul (by linarith) hunit (by positivity) (by linarith)
        _ ≤ m * 10 ^ e := hv.bounds.1
        _ < 10 ^ (Nat.toDigits 10 m).length * 10 ^ e :=
          mul_lt_mul_of_pos_right (by exact_mod_cast hhigh) hpow
        _ = 10 ^ ((Nat.toDigits 10 m).length + e) := by
          rw [zpow_add₀ (by norm_num), zpow_natCast]
    have := (zpow_lt_zpow_iff_right₀ hten).1 hless
    omega
  · have hless : (10 : ℚ) ^ ((Nat.toDigits 10 m).length - 1 + e : ℤ) < 10 ^ (309 : ℤ) := by
      have hcast : ((Nat.toDigits 10 m).length - 1 : ℤ) = ((Nat.toDigits 10 m).length - 1 : ℕ) := by
        omega
      calc (10 : ℚ) ^ ((Nat.toDigits 10 m).length - 1 + e : ℤ)
          = 10 ^ ((Nat.toDigits 10 m).length - 1) * 10 ^ e := by
            rw [zpow_add₀ (by norm_num), hcast, zpow_natCast]
        _ ≤ m * 10 ^ e := mul_le_mul_of_nonneg_right (by exact_mod_cast hlow) hpow.le
        _ < 2 ^ (53 + E) := hv.lt_power hS
        _ ≤ 2 ^ (1024 : ℤ) := zpow_le_zpow_right₀ (by norm_num) (by have := hS.greatest; omega)
        _ ≤ 10 ^ (309 : ℤ) := by
          have hnat : 2 ^ 1024 ≤ 10 ^ 309 := by decide +kernel
          rw [zpow_ofNat, zpow_ofNat]
          exact_mod_cast hnat
    have := (zpow_lt_zpow_iff_right₀ hten).1 hless
    omega

/-- A decimal that rounds to a number is read as that number. -/
theorem nearest_eq (hS : IsNormal S E) {e : ℤ} (hv : RoundsTo S E (m * 10 ^ e)) :
    nearest m e = ofParts S E hS.pos := by
  have hm : 0 < m := by
    refine Nat.pos_of_ne_zero fun hzero => ?_
    have := hv.pos hS.pos
    rw [hzero, Nat.cast_zero, zero_mul] at this
    exact lt_irrefl 0 this
  obtain ⟨hlow, hhigh⟩ := hv.size_bounds hS hm
  obtain ⟨hten, -⟩ := toDigits_bounds hm
  rw [nearest, if_neg (by simp only [Bool.or_eq_true, beq_iff_eq, decide_eq_true_eq]; omega),
    if_neg (by omega)]
  split
  · rename_i he
    refine ofScientific_product hS hm (by omega) ?_
    rwa [← zpow_natCast, Int.toNat_of_nonneg he]
  · rename_i he
    have hlog : (Nat.toDigits 10 m).length - 1 ≤ m.log2 := by
      refine (Nat.le_log2 hm.ne').2 (le_trans (Nat.pow_le_pow_left (by norm_num) _) hten)
    refine ofScientific_quotient hS hm (by omega) (by omega) ?_
    rwa [← zpow_natCast, Int.toNat_of_nonneg (by omega), zpow_neg, div_inv_eq_mul]

end RazorViews.Number
