import Mathlib
import RazorViews.Proofs.Number.Interval

/-!
# Rounding to a binary64 number

A mantissa with a round bit and a sticky bit says where a real stands among the integers and the
points halfway between them (`Places`).  Shifting halves the real, and rounding a mantissa gives the
nearest integer, the even one of two that are equally near (`Places.roundedMantissa_eq`).

A positive real that is placed finely enough is shifted to the exponent of its last place, so it is
rounded to the number whose interval it lies in: `roundWithAccuracy_eq`.  Two cases need a second
look.  A real that is just below a power of two has its last place one further down, and rounds up
to the power there (`RoundsTo.below_power`).  And a small real has the least exponent for its last
place, whatever its size.

Nothing is said of reals that are too big for a number; those would round to infinity.
-/

namespace RazorViews.Number

open Float.Model Float.Model.UnpackedFloat

variable {S n m : ℕ} {E e : ℤ} {x v : ℚ} {em : ExtendedMantissa} {accuracy : Accuracy}

/-! ## Places among the integers -/

/-- The mantissa and its bits say where a real stands. -/
def Places : ExtendedMantissa → ℚ → Prop
  | ⟨m, false, false⟩, x => x = m
  | ⟨m, false, true⟩, x => m < x ∧ x < m + 1 / 2
  | ⟨m, true, false⟩, x => x = m + 1 / 2
  | ⟨m, true, true⟩, x => m + 1 / 2 < x ∧ x < m + 1

/-- The integer is nearest to a real; halfway between two integers this is the even one. -/
def IsNearest (n : ℕ) (x : ℚ) : Prop :=
  (n : ℚ) - 1 / 2 < x ∧ x < n + 1 / 2 ∨ n % 2 = 0 ∧ (x = n - 1 / 2 ∨ x = n + 1 / 2)

theorem Places.floor (h : Places em x) : (em.mantissa : ℚ) ≤ x ∧ x < em.mantissa + 1 := by
  obtain ⟨m, _ | _, _ | _⟩ := em <;> simp only [Places] at h ⊢ <;> constructor <;> linarith

/-- Shifting halves the real: the last bit of the mantissa becomes the round bit, and what was in
the bits before sticks. -/
theorem Places.shiftRightOne (h : Places em x) : Places em.shiftRightOne (x / 2) := by
  obtain ⟨m, roundBit, stickyBit⟩ := em
  have hm : (m : ℚ) = 2 * (m / 2 : ℕ) + (m % 2 : ℕ) := by
    exact_mod_cast (Nat.div_add_mod m 2).symm
  rcases Nat.mod_two_eq_zero_or_one m with hmod | hmod
  · rw [hmod, Nat.cast_zero, add_zero] at hm
    cases roundBit <;> cases stickyBit <;>
      simp only [ExtendedMantissa.shiftRightOne, hmod, Places, bne_self_eq_false, Bool.or_self,
        Bool.or_false, Bool.or_true] at h ⊢
    · linarith
    · exact ⟨by linarith, by linarith⟩
    · exact ⟨by linarith, by linarith⟩
    · exact ⟨by linarith, by linarith⟩
  · rw [hmod, Nat.cast_one] at hm
    have hone : (1 != 0) = true := rfl
    cases roundBit <;> cases stickyBit <;>
      simp only [ExtendedMantissa.shiftRightOne, hmod, hone, Places, Bool.or_self, Bool.or_false,
        Bool.or_true] at h ⊢
    · linarith
    · exact ⟨by linarith, by linarith⟩
    · exact ⟨by linarith, by linarith⟩
    · exact ⟨by linarith, by linarith⟩

theorem Places.shiftRight (h : Places em x) (k : ℕ) : Places (em >>> k) (x / 2 ^ k) := by
  change Places (k.repeat ExtendedMantissa.shiftRightOne em) (x / 2 ^ k)
  induction k with
  | zero => simpa [Nat.repeat] using h
  | succ k ih =>
    rw [Nat.repeat, pow_succ, ← div_div]
    exact ih.shiftRightOne

/-- Integers less than one apart are equal. -/
theorem eq_of_lt_of_lt (hlow : (m : ℚ) < n + 1) (hhigh : (n : ℚ) < m + 1) : m = n := by
  have hlow' : m < n + 1 := by exact_mod_cast hlow
  have hhigh' : n < m + 1 := by exact_mod_cast hhigh
  omega

theorem Places.roundedMantissa_eq (h : Places em x) (hn : IsNearest n x) :
    em.roundedMantissa = n := by
  obtain ⟨m, roundBit, stickyBit⟩ := em
  cases roundBit <;> cases stickyBit <;>
    simp only [Places, ExtendedMantissa.roundedMantissa, ExtendedMantissa.accuracy,
      Accuracy.roundToNearestEven] at h ⊢
  · rcases hn with ⟨hlow, hhigh⟩ | ⟨-, hend | hend⟩ <;>
      exact eq_of_lt_of_lt (by linarith) (by linarith)
  · rcases hn with ⟨hlow, hhigh⟩ | ⟨-, hend | hend⟩ <;>
      exact eq_of_lt_of_lt (by linarith) (by linarith)
  · -- halfway between two integers: the even one
    rcases hn with ⟨hlow, hhigh⟩ | ⟨heven, hend | hend⟩
    · have hlow' : n < m + 1 := by exact_mod_cast (by linarith : (n : ℚ) < m + 1)
      have hhigh' : m < n := by exact_mod_cast (by linarith : (m : ℚ) < n)
      omega
    · have heq : n = m + 1 := by exact_mod_cast (by linarith : (n : ℚ) = m + 1)
      omega
    · have heq : n = m := by exact_mod_cast (by linarith : (n : ℚ) = m)
      omega
  · rcases hn with ⟨hlow, hhigh⟩ | ⟨-, hend | hend⟩ <;>
      exact eq_of_lt_of_lt (by push_cast; linarith) (by push_cast; linarith)

/-- A fraction is placed by its quotient and remainder. -/
theorem places_div (M : ℕ) {d : ℕ} (hd : 0 < d) :
    Places (.ofMantissaAndAccuracy (M / d) (accuracyOfFraction (M % d) d)) (M / d : ℚ) := by
  have hd' : (0 : ℚ) < d := by exact_mod_cast hd
  have hM : (M : ℚ) / d = (M / d : ℕ) + ((M % d : ℕ) : ℚ) / d := by
    have hsum : (M : ℚ) = d * (M / d : ℕ) + (M % d : ℕ) := by
      exact_mod_cast (Nat.div_add_mod M d).symm
    rw [div_eq_iff hd'.ne', add_mul, div_mul_cancel₀ _ hd'.ne', mul_comm]
    exact hsum
  have hlt : ((M % d : ℕ) : ℚ) / d < 1 := by
    rw [div_lt_one hd']
    exact_mod_cast Nat.mod_lt M hd
  rw [hM, accuracyOfFraction]
  split
  · rename_i hzero
    simp [ExtendedMantissa.ofMantissaAndAccuracy, Places, hzero]
  · rename_i hne
    have hpos : 0 < ((M % d : ℕ) : ℚ) / d := by
      have : 0 < M % d := Nat.pos_of_ne_zero hne
      exact div_pos (by exact_mod_cast this) hd'
    have hhalf : ∀ r : ℚ, r / d < 1 / 2 ↔ 2 * r < d := by
      intro r
      rw [div_lt_iff₀ hd']
      constructor <;> intro h <;> linarith
    cases hcompare : compare (2 * (M % d)) d with
    | lt =>
      have hless : (2 * (M % d : ℕ) : ℚ) < d := by exact_mod_cast Nat.compare_eq_lt.1 hcompare
      have := (hhalf (M % d : ℕ)).2 hless
      exact ⟨by linarith, by linarith⟩
    | eq =>
      have heq : (2 * (M % d : ℕ) : ℚ) = d := by exact_mod_cast Nat.compare_eq_eq.1 hcompare
      have hfraction : ((M % d : ℕ) : ℚ) / d = 1 / 2 := by
        rw [div_eq_iff hd'.ne']
        linarith
      simp only [ExtendedMantissa.ofMantissaAndAccuracy, Places, hfraction]
    | gt =>
      have hmore : (d : ℚ) < 2 * (M % d : ℕ) := by exact_mod_cast Nat.compare_eq_gt.1 hcompare
      have : 1 / 2 < ((M % d : ℕ) : ℚ) / d := by
        rw [lt_div_iff₀ hd']
        linarith
      exact ⟨by linarith, by linarith⟩

/-! ## Last places -/

/-- The exponent of the last place of a binary64 number in which a positive real is rounded. -/
def lastPlace (v : ℚ) : ℤ := max (Int.log 2 v - 52) (-1074)

theorem targetExponent_eq (k : ℤ) :
    Format.binary64.targetExponent k = max (k - 53) (-1074) := by
  have hbits : (Format.binary64.mantissaBits : ℤ) = 53 := rfl
  have hleast : Format.binary64.minExponent = -1074 := by decide
  rw [Format.targetExponent, hbits, hleast]

theorem log_eq_of_bounds {k : ℤ} (hlow : (2 : ℚ) ^ k ≤ v) (hhigh : v < 2 ^ (k + 1)) :
    Int.log 2 v = k := by
  have hv : 0 < v := lt_of_lt_of_le (zpow_pos (by norm_num) k) hlow
  have hle : k ≤ Int.log 2 v := (Int.zpow_le_iff_le_log (by norm_num) hv).1 (by exact_mod_cast hlow)
  have hlt : Int.log 2 v < k + 1 :=
    (Int.lt_zpow_iff_log_lt (by norm_num) hv).1 (by exact_mod_cast hhigh)
  omega

/-- The exponent that a placed real is shifted to is that of its last place. -/
theorem Places.targetExponent_eq (h : Places em (v / 2 ^ e)) (hv : 0 < v) (he : e ≤ lastPlace v) :
    Format.binary64.targetExponent (totalExponent em.mantissa e) = lastPlace v := by
  have hpow : (0 : ℚ) < 2 ^ e := zpow_pos (by norm_num) e
  obtain ⟨hlow, hhigh⟩ := h.floor
  rw [le_div_iff₀ hpow] at hlow
  rw [div_lt_iff₀ hpow] at hhigh
  rw [Number.targetExponent_eq, totalExponent]
  rcases Nat.eq_zero_or_pos em.mantissa with hzero | hpos
  · -- less than one unit is left, so the exponent is the least one already
    have hless : v < 2 ^ e := by
      rwa [hzero, Nat.cast_zero, zero_add, one_mul] at hhigh
    have hlog : Int.log 2 v < e :=
      (Int.lt_zpow_iff_log_lt (by norm_num) hv).1 (by exact_mod_cast hless)
    rw [hzero, Nat.log2_zero]
    rw [lastPlace] at he ⊢
    omega
  · have hlog : Int.log 2 v = em.mantissa.log2 + e := by
      apply log_eq_of_bounds
      · have hself : ((2 ^ em.mantissa.log2 : ℕ) : ℚ) ≤ em.mantissa := by
          exact_mod_cast Nat.log2_self_le hpos.ne'
        rw [zpow_add₀ (by norm_num), zpow_natCast]
        push_cast at hself
        exact (mul_le_mul_of_nonneg_right hself hpow.le).trans hlow
      · have hself : (em.mantissa : ℚ) + 1 ≤ ((2 ^ (em.mantissa.log2 + 1) : ℕ) : ℚ) := by
          exact_mod_cast Nat.lt_log2_self
        rw [add_right_comm, zpow_add₀ (by norm_num), ← Nat.cast_one, ← Nat.cast_add, zpow_natCast]
        push_cast at hself
        exact hhigh.trans_le (mul_le_mul_of_nonneg_right hself hpow.le)
    rw [lastPlace, hlog]
    omega

theorem shiftToTargetExponent_eq (h : Places (.ofMantissaAndAccuracy m accuracy) (v / 2 ^ e))
    (hv : 0 < v) (he : e ≤ lastPlace v) :
    ∃ em, shiftToTargetExponent .binary64 m e accuracy = (em, lastPlace v) ∧
      Places em (v / 2 ^ lastPlace v) := by
  have hmantissa : (ExtendedMantissa.ofMantissaAndAccuracy m accuracy).mantissa = m := by
    cases accuracy with
    | exact => rfl
    | inexact order => cases order <;> rfl
  have htarget := h.targetExponent_eq hv he
  rw [hmantissa] at htarget
  have hshift : e + ((lastPlace v - e).toNat : ℤ) = lastPlace v := by omega
  refine ⟨ExtendedMantissa.ofMantissaAndAccuracy m accuracy >>> (lastPlace v - e).toNat, ?_, ?_⟩
  · rw [shiftToTargetExponent, htarget, shiftToExponent, hshift]
  · have hplaces := h.shiftRight (lastPlace v - e).toNat
    rwa [div_div, ← zpow_natCast, ← zpow_add₀ (by norm_num), hshift] at hplaces

/-! ## Rounding to the number -/

theorem roundsTo_self (S : ℕ) (E : ℤ) : RoundsTo S E (S * 2 ^ E) := by
  have hpow : (0 : ℚ) < 2 ^ E := zpow_pos (by norm_num) E
  exact .inl ⟨mul_lt_mul_of_pos_right (lowEnd_lt S E) hpow,
    mul_lt_mul_of_pos_right (by linarith) hpow⟩

theorem RoundsTo.isNearest (h : RoundsTo S E v) : IsNearest S (v / 2 ^ E) := by
  have hpow : (0 : ℚ) < 2 ^ E := zpow_pos (by norm_num) E
  have hlow := lowEnd_ge S E
  rcases h with ⟨hlower, hupper⟩ | ⟨heven, rfl | rfl⟩
  · rw [← lt_div_iff₀ hpow] at hlower
    rw [← div_lt_iff₀ hpow] at hupper
    exact .inl ⟨hlow.trans_lt hlower, hupper⟩
  · rw [mul_div_cancel_right₀ _ hpow.ne']
    rcases hlow.eq_or_lt with heq | hlt
    · exact .inr ⟨heven, .inl heq.symm⟩
    · exact .inl ⟨hlt, (lowEnd_lt S E).trans (by linarith)⟩
  · rw [mul_div_cancel_right₀ _ hpow.ne']
    exact .inr ⟨heven, .inr rfl⟩

/-- No real that rounds to a number has more places than the number may have. -/
theorem RoundsTo.lt_power (hS : IsNormal S E) (h : RoundsTo S E v) : v < 2 ^ (53 + E) := by
  have hpow : (0 : ℚ) < 2 ^ E := zpow_pos (by norm_num) E
  have hsucc : (S : ℚ) + 1 ≤ 2 ^ 53 := by exact_mod_cast hS.lt
  refine h.bounds.2.trans_lt ?_
  rw [zpow_add₀ (by norm_num), zpow_ofNat]
  exact mul_lt_mul_of_pos_right (by linarith) hpow

theorem RoundsTo.lastPlace_eq (hS : IsNormal S E) (h : RoundsTo S E v)
    (hnarrow : IsNarrow S E → S * 2 ^ E ≤ v) : lastPlace v = E := by
  have hpow : (0 : ℚ) < 2 ^ E := zpow_pos (by norm_num) E
  have hv := h.pos hS.pos
  have hupper : Int.log 2 v < 53 + E :=
    (Int.lt_zpow_iff_log_lt (by norm_num) hv).1 (by exact_mod_cast h.lt_power hS)
  rw [lastPlace]
  by_cases hleast : E = -1074
  · omega
  · have hfull : 2 ^ 52 ≤ S := hS.full.resolve_right hleast
    have hlower : (2 : ℚ) ^ (52 + E) ≤ v := by
      rw [zpow_add₀ (by norm_num)]
      rcases hfull.eq_or_lt with heq | hlt
      · have hpower := hnarrow ⟨heq.symm, hleast⟩
        rw [← heq] at hpower
        exact_mod_cast hpower
      · have hsucc : (2 ^ 52 + 1 : ℚ) ≤ S := by exact_mod_cast hlt
        have hlow := lowEnd_ge S E
        refine le_trans (mul_le_mul_of_nonneg_right ?_ hpow.le) h.bounds.1
        rw [zpow_ofNat]
        linarith
    have hlog : 52 + E ≤ Int.log 2 v :=
      (Int.zpow_le_iff_le_log (by norm_num) hv).1 (by exact_mod_cast hlower)
    have := hS.least
    omega

/-- A real just below a power of two has its last place one further down, and is nearest to the
power there. -/
theorem RoundsTo.below_power (hS : IsNormal S E) (h : RoundsTo S E v) (hnarrow : IsNarrow S E)
    (hbelow : v < S * 2 ^ E) : lastPlace v = E - 1 ∧ IsNearest (2 ^ 53) (v / 2 ^ (E - 1)) := by
  have hpow : (0 : ℚ) < 2 ^ E := zpow_pos (by norm_num) E
  have hhalf : (2 : ℚ) ^ (E - 1) = 2 ^ E / 2 := by
    rw [zpow_sub₀ (by norm_num), zpow_one]
  have hlow := h.bounds.1
  rw [lowEnd, if_pos hnarrow] at hlow
  rw [hnarrow.1] at hlow hbelow
  push_cast at hlow hbelow
  constructor
  · have hlog : Int.log 2 v = 51 + E := by
      apply log_eq_of_bounds
      · rw [zpow_add₀ (by norm_num)]
        refine le_trans (mul_le_mul_of_nonneg_right ?_ hpow.le) hlow
        norm_num
      · rw [add_right_comm, zpow_add₀ (by norm_num)]
        exact_mod_cast hbelow
    have := hS.least
    have := hnarrow.2
    rw [lastPlace, hlog]
    omega
  · rw [hhalf, div_div_eq_mul_div]
    have hlower : (2 ^ 53 : ℚ) - 1 / 2 ≤ v * 2 / 2 ^ E := by
      rw [le_div_iff₀ hpow]
      linarith
    have hupper : v * 2 / 2 ^ E < 2 ^ 53 := by
      rw [div_lt_iff₀ hpow]
      linarith
    rcases hlower.eq_or_lt with heq | hlt
    · exact .inr ⟨rfl, .inl (by push_cast; exact heq.symm)⟩
    · exact .inl ⟨by push_cast; exact hlt, by push_cast; linarith⟩

/-- The first shift gives the number, perhaps in the places of its lower neighbours. -/
theorem exists_rounded (hS : IsNormal S E) (h : RoundsTo S E v) :
    ∃ r : ℕ, IsNearest r (v / 2 ^ lastPlace v) ∧ (r : ℚ) * 2 ^ lastPlace v = S * 2 ^ E ∧
      lastPlace v ≤ E := by
  by_cases hbelow : IsNarrow S E ∧ v < S * 2 ^ E
  · obtain ⟨hnarrow, hlt⟩ := hbelow
    obtain ⟨hplace, hnearest⟩ := h.below_power hS hnarrow hlt
    refine ⟨2 ^ 53, hplace ▸ hnearest, ?_, by omega⟩
    rw [hplace, hnarrow.1, zpow_sub₀ (by norm_num), zpow_one]
    push_cast
    ring
  · have hplace := h.lastPlace_eq hS fun hnarrow => not_lt.1 fun hlt => hbelow ⟨hnarrow, hlt⟩
    exact ⟨S, hplace ▸ h.isNearest, by rw [hplace], hplace.le⟩

/-- A real that rounds to a number is rounded to that number. -/
theorem roundWithAccuracy_eq (hS : IsNormal S E) (hv : RoundsTo S E v)
    (h : Places (.ofMantissaAndAccuracy m accuracy) (v / 2 ^ e)) (he : e ≤ lastPlace v)
    (sign : Sign) :
    roundWithAccuracy .binary64 sign m e accuracy = .finite sign S E hS.pos := by
  have hpow : ∀ e : ℤ, (2 : ℚ) ^ e ≠ 0 := fun e => zpow_ne_zero e (by norm_num)
  obtain ⟨em, hshift, hplaces⟩ := shiftToTargetExponent_eq h (hv.pos hS.pos) he
  obtain ⟨r, hnearest, hr, hle⟩ := exists_rounded hS hv
  have hrounded : em.roundedMantissa = r := hplaces.roundedMantissa_eq hnearest
  -- the number itself is placed exactly, and is shifted to its own last place
  have hself : lastPlace (S * 2 ^ E) = E :=
    (roundsTo_self S E).lastPlace_eq hS fun _ => le_rfl
  have hexact : Places (.ofMantissaAndAccuracy r .exact) (S * 2 ^ E / 2 ^ lastPlace v) := by
    rw [← hr, mul_div_cancel_right₀ _ (hpow _)]
    exact rfl
  obtain ⟨em', hshift', hplaces'⟩ := shiftToTargetExponent_eq hexact
    ((roundsTo_self S E).pos hS.pos) (hself.symm ▸ hle)
  rw [hself, mul_div_cancel_right₀ _ (hpow _)] at hplaces'
  rw [hself] at hshift'
  have hmantissa : em'.mantissa = S :=
    eq_of_lt_of_lt (by have := hplaces'.floor.1; linarith) hplaces'.floor.2
  rw [roundWithAccuracy, hshift]
  dsimp only
  rw [hrounded, hshift']
  dsimp only
  simp only [hmantissa]
  rw [dif_neg hS.pos.ne']

end RazorViews.Number
