import Mathlib.Algebra.Order.Field.Basic
import Mathlib.Data.Rat.Cast.Order
import Mathlib.Tactic.Linarith
import Mathlib.Tactic.NormNum
import Mathlib.Tactic.Ring
import RazorViews.Number.Shortest

/-!
# The reals that round to a binary64 number

A positive finite binary64 number has an interval of reals that round to it: from half a place below
it to half a place above it, the ends included if its significand is even.  Below a power of two the
places are half as wide, and so is that half of the interval (`IsNarrow`, `lowEnd`).  `RoundsTo`
says this of reals, or rather of the rationals among them.

The search for a short decimal tests fractions of whole numbers.  They are compared by their values
(`Ratio.lt_iff`, `Ratio.same_iff`), so its test for the interval is the test whether the value of
the fraction rounds to the number: `contains_rounding_iff`.

Infinity, zero and what is not a number have no such interval here.
-/

namespace RazorViews.Number

variable {a b : Ratio} {S : ℕ} {E : ℤ} {v : ℚ}

/-! ## Values of fractions -/

namespace Ratio

/-- The value of a fraction. -/
def toRat (a : Ratio) : ℚ := a.num / a.den

theorem lt_iff (ha : 0 < a.den) (hb : 0 < b.den) : a.lt b = true ↔ a.toRat < b.toRat := by
  rw [Ratio.lt, decide_eq_true_eq, toRat, toRat,
    div_lt_div_iff₀ (by exact_mod_cast ha) (by exact_mod_cast hb)]
  exact_mod_cast Iff.rfl

theorem same_iff (ha : 0 < a.den) (hb : 0 < b.den) : a.same b = true ↔ a.toRat = b.toRat := by
  have ha' : (a.den : ℚ) ≠ 0 := by exact_mod_cast ha.ne'
  have hb' : (b.den : ℚ) ≠ 0 := by exact_mod_cast hb.ne'
  rw [Ratio.same, beq_iff_eq, toRat, toRat, div_eq_div_iff ha' hb']
  exact_mod_cast Iff.rfl

theorem den_scaled_pos {base : ℕ} (hbase : 0 < base) (n : ℕ) (e : ℤ) :
    0 < (scaled n base e).den := by
  rw [scaled]
  split
  · exact Nat.one_pos
  · exact Nat.pow_pos hbase

theorem toRat_scaled {base : ℕ} (hbase : 0 < base) (n : ℕ) (e : ℤ) :
    (scaled n base e).toRat = n * (base : ℚ) ^ e := by
  have hne : (base : ℚ) ≠ 0 := by exact_mod_cast hbase.ne'
  rw [scaled, toRat]
  split
  · rename_i he
    have hcast : (base : ℚ) ^ e = (base : ℚ) ^ e.toNat := by
      rw [← zpow_natCast, Int.toNat_of_nonneg he]
    rw [hcast]
    simp [power]
  · rename_i he
    have hcast : (base : ℚ) ^ e = ((base : ℚ) ^ (-e).toNat)⁻¹ := by
      rw [← zpow_natCast, Int.toNat_of_nonneg (by omega), zpow_neg, inv_inv]
    rw [hcast, ← div_eq_mul_inv]
    simp [power]

end Ratio

/-! ## Rounding -/

/-- The significand and the exponent of a positive finite number: as many digits as there is place
for, or the least exponent. -/
structure IsNormal (S : ℕ) (E : ℤ) : Prop where
  pos : 0 < S
  lt : S < 2 ^ 53
  least : -1074 ≤ E
  greatest : E ≤ 971
  full : 2 ^ 52 ≤ S ∨ E = -1074

/-- Below a power of two the neighbours stand twice as close. -/
def IsNarrow (S : ℕ) (E : ℤ) : Prop := S = 2 ^ 52 ∧ E ≠ -1074

instance (S : ℕ) (E : ℤ) : Decidable (IsNarrow S E) := inferInstanceAs (Decidable (_ ∧ _))

/-- The lower end of the reals that round to a number, in units of its last place. -/
def lowEnd (S : ℕ) (E : ℤ) : ℚ := if IsNarrow S E then S - 1 / 4 else S - 1 / 2

/-- The real rounds to `S × 2 ^ E`; the ends of the interval round to even numbers. -/
def RoundsTo (S : ℕ) (E : ℤ) (v : ℚ) : Prop :=
  lowEnd S E * 2 ^ E < v ∧ v < (S + 1 / 2) * 2 ^ E ∨
    S % 2 = 0 ∧ (v = lowEnd S E * 2 ^ E ∨ v = (S + 1 / 2) * 2 ^ E)

theorem lowEnd_ge (S : ℕ) (E : ℤ) : (S : ℚ) - 1 / 2 ≤ lowEnd S E := by
  rw [lowEnd]
  split <;> linarith

theorem lowEnd_lt (S : ℕ) (E : ℤ) : lowEnd S E < S := by
  rw [lowEnd]
  split <;> linarith

theorem RoundsTo.bounds (h : RoundsTo S E v) :
    lowEnd S E * 2 ^ E ≤ v ∧ v ≤ (S + 1 / 2) * 2 ^ E := by
  have hpow : (0 : ℚ) < 2 ^ E := zpow_pos (by norm_num) E
  have hends : lowEnd S E * 2 ^ E < (S + 1 / 2) * 2 ^ E := by
    have := lowEnd_lt S E
    exact mul_lt_mul_of_pos_right (by linarith) hpow
  rcases h with ⟨hlow, hhigh⟩ | ⟨-, rfl | rfl⟩
  · exact ⟨hlow.le, hhigh.le⟩
  · exact ⟨le_rfl, hends.le⟩
  · exact ⟨hends.le, le_rfl⟩

theorem RoundsTo.pos (h : RoundsTo S E v) (hS : 0 < S) : 0 < v := by
  have hpow : (0 : ℚ) < 2 ^ E := zpow_pos (by norm_num) E
  have hone : (1 : ℚ) ≤ S := by exact_mod_cast hS
  have hlow := lowEnd_ge S E
  exact lt_of_lt_of_le (mul_pos (by linarith) hpow) h.bounds.1

/-- What lies below a number and does not round to it lies below its interval. -/
theorem le_of_not_roundsTo (h : ¬ RoundsTo S E v) (hv : v ≤ S * 2 ^ E) :
    v ≤ lowEnd S E * 2 ^ E := by
  have hpow : (0 : ℚ) < 2 ^ E := zpow_pos (by norm_num) E
  by_contra hlow
  refine h (.inl ⟨not_le.1 hlow, hv.trans_lt ?_⟩)
  exact mul_lt_mul_of_pos_right (by linarith) hpow

/-- What lies above a number and does not round to it lies above its interval. -/
theorem ge_of_not_roundsTo (h : ¬ RoundsTo S E v) (hv : S * 2 ^ E ≤ v) :
    (S + 1 / 2) * 2 ^ E ≤ v := by
  have hpow : (0 : ℚ) < 2 ^ E := zpow_pos (by norm_num) E
  by_contra hhigh
  refine h (.inl ⟨lt_of_lt_of_le ?_ hv, not_le.1 hhigh⟩)
  exact mul_lt_mul_of_pos_right (lowEnd_lt S E) hpow

theorem low_rounding (hS : 0 < S) (E : ℤ) :
    0 < (rounding S E).low.den ∧ (rounding S E).low.toRat = lowEnd S E * 2 ^ E := by
  have hnarrow : (S == 0x10000000000000 && E != -1074) = true ↔ IsNarrow S E := by
    rw [Bool.and_eq_true, beq_iff_eq, bne_iff_ne]
    rfl
  rw [rounding]
  dsimp only
  by_cases h : IsNarrow S E
  · have hquarter : (2 : ℚ) ^ (E - 2) = 2 ^ E / 4 := by
      rw [zpow_sub₀ (by norm_num)]
      norm_num
    rw [if_pos (hnarrow.2 h), lowEnd, if_pos h, Ratio.toRat_scaled (by norm_num)]
    refine ⟨Ratio.den_scaled_pos (by norm_num) _ _, ?_⟩
    push_cast [Nat.cast_sub (show 1 ≤ 4 * S by omega)]
    rw [hquarter]
    ring
  · have hhalf : (2 : ℚ) ^ (E - 1) = 2 ^ E / 2 := by
      rw [zpow_sub₀ (by norm_num)]
      norm_num
    rw [if_neg (fun hn => h (hnarrow.1 hn)), lowEnd, if_neg h, Ratio.toRat_scaled (by norm_num)]
    refine ⟨Ratio.den_scaled_pos (by norm_num) _ _, ?_⟩
    push_cast [Nat.cast_sub (show 1 ≤ 2 * S by omega)]
    rw [hhalf]
    ring

theorem high_rounding (S : ℕ) (E : ℤ) :
    0 < (rounding S E).high.den ∧ (rounding S E).high.toRat = (S + 1 / 2) * 2 ^ E := by
  have hhalf : (2 : ℚ) ^ (E - 1) = 2 ^ E / 2 := by
    rw [zpow_sub₀ (by norm_num)]
    norm_num
  rw [rounding]
  dsimp only
  rw [Ratio.toRat_scaled (by norm_num)]
  refine ⟨Ratio.den_scaled_pos (by norm_num) _ _, ?_⟩
  push_cast
  rw [hhalf]
  ring

/-- A fraction lies in the interval of a number if it rounds to the number. -/
theorem contains_rounding_iff (hS : 0 < S) (ha : 0 < a.den) :
    (rounding S E).contains a = true ↔ RoundsTo S E a.toRat := by
  obtain ⟨hlow, hlowRat⟩ := low_rounding hS E
  obtain ⟨hhigh, hhighRat⟩ := high_rounding S E
  have hclosed : (rounding S E).closed = true ↔ S % 2 = 0 := beq_iff_eq
  rw [Interval.contains, RoundsTo, Bool.or_eq_true, Bool.and_eq_true, Bool.and_eq_true,
    Bool.or_eq_true, Ratio.lt_iff hlow ha, Ratio.lt_iff ha hhigh, Ratio.same_iff hlow ha,
    Ratio.same_iff hhigh ha, hclosed, hlowRat, hhighRat, eq_comm (b := a.toRat),
    eq_comm (b := a.toRat)]

end RazorViews.Number
