import Mathlib
import RazorViews.Proofs.Number.Rounding

/-!
# The parts of a binary64 number

The parts that a number is taken apart into, a significand and an exponent, are those of the model
of arithmetic (`shape_eq`).  So a positive finite number is the one that its significand and its
exponent are packed to (`ofParts_of_shape`), and two such numbers with the same parts are the same.

A significand has as many digits as there is place for, or else the exponent is the least one
(`isNormal_of_shape`).  Numbers above zero are these and infinity (`zero_lt_iff`), which is all that
the fields of the settings admit.
-/

namespace RazorViews.Number

open Float.Model Float.Model.UnpackedFloat

variable {S : ℕ} {E : ℤ} {x : Float}

/-- The shape of an unpacked number. -/
def shapeOf : UnpackedFloat → Shape
  | .infinity sign => .infinite (sign == .negative)
  | .notANumber => .notANumber
  | .zero sign => .finite (sign == .negative) 0 (-1074)
  | .finite sign significand exponent _ => .finite (sign == .negative) significand exponent

theorem shape_eq (x : Float) : shape x = shapeOf x.toModel.unpack := by
  let b := x.toModel.toBits.toBitVec
  have hmantissa : (@unpackMantissa .binary64 b).toNat = b.toNat % 0x10000000000000 := by
    rw [unpackMantissa_def]
    simp
  have hexponent : (@unpackExponent .binary64 b).toNat =
      b.toNat / 0x10000000000000 % 0x800 := by
    rw [unpackExponent_def]
    simp [Nat.shiftRight_eq_div_pow]
  have hsign : (b.toNat / 0x8000000000000000 == 1) =
      (Sign.ofBitVec (@unpackSign .binary64 b) == .negative) := by
    have hnat : (@unpackSign .binary64 b).toNat = b.toNat / 0x8000000000000000 := by
      rw [unpackSign_def]
      simp [Nat.shiftRight_eq_div_pow]
      omega
    rw [← hnat]
    generalize @unpackSign .binary64 b = sign
    revert sign
    decide
  have hall : @unpackExponent .binary64 b = -1#11 ↔
      b.toNat / 0x10000000000000 % 0x800 = 0x7FF := by
    rw [← hexponent, ← BitVec.toNat_inj]
    rfl
  have hnone : @unpackExponent .binary64 b = 0#11 ↔
      b.toNat / 0x10000000000000 % 0x800 = 0 := by
    rw [← hexponent, ← BitVec.toNat_inj]
    rfl
  have hzero : @unpackMantissa .binary64 b = 0#52 ↔
      b.toNat % 0x10000000000000 = 0 := by
    rw [← hmantissa, ← BitVec.toNat_inj]
    rfl
  have hfull : (1#1 ++ @unpackMantissa .binary64 b).toNat =
      0x10000000000000 + b.toNat % 0x10000000000000 := by
    rw [BitVec.toNat_append, hmantissa, ← Nat.shiftLeft_add_eq_or_of_lt (by omega)]
    rfl
  have hbits : x.toBits.toNat = b.toNat := rfl
  have hunpack : x.toModel.unpack = UnpackedFloat.unpack .binary64 b := rfl
  rw [hunpack, UnpackedFloat.unpack, shape, hbits]
  simp only [beq_iff_eq]
  by_cases hexp : b.toNat / 0x10000000000000 % 0x800 = 0x7FF
  · rw [if_pos hexp, if_pos (hall.2 hexp)]
    by_cases hfraction : b.toNat % 0x10000000000000 = 0
    · rw [if_pos hfraction, if_pos (hzero.2 hfraction), shapeOf, hsign]
    · rw [if_neg hfraction, if_neg (mt hzero.1 hfraction), shapeOf]
  · rw [if_neg hexp, if_neg (mt hall.1 hexp)]
    by_cases hsubnormal : b.toNat / 0x10000000000000 % 0x800 = 0
    · rw [if_pos hsubnormal, if_pos (hnone.2 hsubnormal)]
      by_cases hfraction : b.toNat % 0x10000000000000 = 0
      · rw [dif_pos (hzero.2 hfraction), shapeOf, hsign, hfraction]
      · rw [dif_neg (mt hzero.1 hfraction), shapeOf, hsign, hmantissa, hexponent, hsubnormal]
        rfl
    · rw [if_neg hsubnormal, if_neg (mt hnone.1 hsubnormal), shapeOf, hsign, hfull, hexponent]
      rfl

theorem isNormal_of_shape {negative : Bool} (h : shape x = .finite negative S E) (hS : 0 < S) :
    IsNormal S E := by
  rw [shape] at h
  simp only [beq_iff_eq] at h
  split at h
  · split at h <;> exact absurd h (by simp)
  · split at h
    · simp only [Shape.finite.injEq] at h
      obtain ⟨-, rfl, rfl⟩ := h
      exact ⟨hS, by omega, le_rfl, by norm_num, .inr rfl⟩
    · simp only [Shape.finite.injEq] at h
      obtain ⟨-, rfl, rfl⟩ := h
      exact ⟨hS, by omega, by omega, by omega, .inl (by omega)⟩

/-- The positive number of a significand and an exponent. -/
def ofParts (S : ℕ) (E : ℤ) (hS : 0 < S) : Float := ⟨Float.Model.pack (.finite .positive S E hS)⟩

/-- A finite binary64 number above zero. -/
def IsFinitePositive (x : Float) : Prop := ∃ S E, 0 < S ∧ shape x = .finite false S E

/-- Above zero there are finite numbers and infinity. -/
theorem zero_lt_iff : 0.0 < x ↔ IsFinitePositive x ∨ shape x = .infinite false := by
  have hzero : (0.0 : Float).toModel.unpack = .zero .positive := rfl
  have hlt : 0.0 < x ↔ (UnpackedFloat.zero .positive).lt x.toModel.unpack = true := by
    rw [← hzero]
    exact decide_eq_true_iff
  rw [hlt, IsFinitePositive, shape_eq]
  cases x.toModel.unpack with
  | infinity sign => cases sign <;> simp [shapeOf, UnpackedFloat.lt, UnpackedFloat.compare]
  | notANumber => simp [shapeOf, UnpackedFloat.lt, UnpackedFloat.compare]
  | zero sign => simp [shapeOf, UnpackedFloat.lt, UnpackedFloat.compare]
  | finite sign significand exponent hpos =>
    cases sign <;> simp [shapeOf, UnpackedFloat.lt, UnpackedFloat.compare, hpos]

theorem pack_unpack_model (m : Float.Model) : Float.Model.pack m.unpack = m := by
  obtain ⟨bits, valid⟩ := m
  have hpack : UnpackedFloat.pack .binary64 (UnpackedFloat.unpack .binary64 bits.toBitVec) =
      bits.toBitVec := pack_unpack_of_valid valid
  simp only [Float.Model.pack, Float.Model.unpack, hpack]

theorem ofParts_of_shape (h : shape x = .finite false S E) (hS : 0 < S) : ofParts S E hS = x := by
  rw [shape_eq] at h
  have hunpack : x.toModel.unpack = .finite .positive S E hS := by
    cases hu : x.toModel.unpack with
    | infinity sign => rw [hu] at h; exact absurd h (by simp [shapeOf])
    | notANumber => rw [hu] at h; exact absurd h (by simp [shapeOf])
    | zero sign =>
      rw [hu] at h
      simp only [shapeOf, Shape.finite.injEq] at h
      omega
    | finite sign significand exponent hpos =>
      rw [hu] at h
      simp only [shapeOf, Shape.finite.injEq] at h
      obtain ⟨hsign, rfl, rfl⟩ := h
      cases sign with
      | positive => rfl
      | negative => exact absurd hsign (by decide)
  rw [ofParts, ← hunpack, pack_unpack_model]

/-- Numbers with all their places are unpacked as they were packed. -/
theorem unpack_ofParts (hS : IsNormal S E) (hfull : 2 ^ 52 ≤ S) :
    (ofParts S E hS.pos).toModel.unpack = .finite .positive S E hS.pos := by
  obtain ⟨hpos, hlt, hleast, hgreatest, -⟩ := hS
  have hlog : S.log2 = 52 := (Nat.log2_eq_iff (by omega)).2 ⟨hfull, hlt⟩
  have hbias :
      (E + Format.binary64.exponentBias + Format.binary64.mantissaBitsWithoutImplicit).toNat =
        (E + 1075).toNat := by
    change (E + 1023 + 52).toNat = _
    congr 1
    omega
  have hpack : UnpackedFloat.pack .binary64 (.finite .positive S E hpos) =
      packComponents .binary64 .positive (BitVec.ofNat 11 (E + 1075).toNat)
        (BitVec.ofNat 52 S) := by
    rw [UnpackedFloat.pack]
    simp only [hbias, hlog]
    have hplaces : 52 + 1 = Format.binary64.mantissaBits := rfl
    rw [if_neg (by change ¬ 2048 ≤ _; omega), if_pos hplaces]
  have hexponent : (BitVec.ofNat 11 (E + 1075).toNat).toNat = (E + 1075).toNat := by
    rw [BitVec.toNat_ofNat]
    omega
  have hall : BitVec.ofNat 11 (E + 1075).toNat ≠ -1#11 := by
    intro h
    have := congrArg BitVec.toNat h
    rw [hexponent] at this
    change (E + 1075).toNat = 2047 at this
    omega
  have hnone : BitVec.ofNat 11 (E + 1075).toNat ≠ 0#11 := by
    intro h
    have := congrArg BitVec.toNat h
    rw [hexponent] at this
    change (E + 1075).toNat = 0 at this
    omega
  have hsignificand : (1#1 ++ BitVec.ofNat 52 S).toNat = S := by
    rw [BitVec.toNat_append, ← Nat.shiftLeft_add_eq_or_of_lt (BitVec.isLt _), BitVec.toNat_ofNat]
    change 2 ^ 52 + S % 2 ^ 52 = S
    omega
  change UnpackedFloat.unpack .binary64 (UnpackedFloat.pack .binary64 _) = _
  rw [hpack, UnpackedFloat.unpack]
  simp only [unpackExponent_packComponents, unpackMantissa_packComponents,
    unpackSign_packComponents, Sign.ofBitVec_toBitVec, hexponent]
  rw [if_neg hall, if_neg hnone]
  have hunbiased :
      ((E + 1075).toNat : ℤ) - ((Format.binary64.exponentBias : ℤ) + (52 : ℕ)) = E := by
    change _ - ((1023 : ℤ) + 52) = E
    omega
  simp only [hsignificand, hunbiased]

end RazorViews.Number
