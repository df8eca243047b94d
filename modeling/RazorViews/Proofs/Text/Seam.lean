import RazorViews.Text.Basic
import RazorViews.Text.Case

/-!
# Texts put together at a separator

A stretch without the separator stands in one of the parts (`holds_append_cons`), so to ask whether
a text holds a word is to ask its parts, if the word holds no separator.

Words are looked for in lowered texts, and lowering looks around: a capital sigma becomes another
letter at the end of a word.  Where the separator is neither a cased letter nor one of those that
are passed over in looking for one (`IsStop`), the parts are lowered by themselves
(`IsStop.lower_append_cons`).  A comma is of this kind, and so is a space; an apostrophe is not.
-/

namespace RazorViews.Text

variable {c : Char} {x y : Text}

/-! ## Stretches -/

/-- A cut of a text at a separator lies in front of it or behind it. -/
theorem append_cons_cases {u v : Text} (h : x ++ c :: y = u ++ v) :
    (∃ w, x = u ++ w ∧ v = w ++ c :: y) ∨ ∃ w, u = x ++ c :: w ∧ y = w ++ v := by
  rcases List.append_eq_append_iff.1 h with ⟨w, rfl, hw⟩ | ⟨w, rfl, rfl⟩
  · cases w with
    | nil => exact .inl ⟨[], by simp, by simpa using hw.symm⟩
    | cons d w =>
      obtain ⟨rfl, rfl⟩ := List.cons.inj hw
      exact .inr ⟨w, rfl, rfl⟩
  · exact .inl ⟨w, rfl, rfl⟩

/-- What holds no separator and begins in front of one ends in front of it. -/
theorem exists_of_notMem {u v : Text} (hc : c ∉ u) (h : x ++ c :: y = u ++ v) :
    ∃ w, x = u ++ w ∧ v = w ++ c :: y := by
  rcases append_cons_cases h with hfront | ⟨w, rfl, -⟩
  · exact hfront
  · exact absurd (List.mem_append_right x List.mem_cons_self) hc

theorem holds_iff {t part : Text} : t.holds part = true ↔ part <:+: t := by
  induction t with
  | nil => simp [holds]
  | cons d t ih => rw [holds, Bool.or_eq_true, List.isPrefixOf_iff_prefix, ih, List.infix_cons_iff]

/-- A stretch without the separator stands in one of the parts. -/
theorem holds_append_cons {part : Text} (hc : c ∉ part) (x y : Text) :
    (x ++ c :: y).holds part = (x.holds part || y.holds part) := by
  rw [Bool.eq_iff_iff, Bool.or_eq_true, holds_iff, holds_iff, holds_iff]
  constructor
  · rintro ⟨s, r, h⟩
    rw [List.append_assoc] at h
    rcases append_cons_cases h.symm with ⟨w, rfl, hw⟩ | ⟨w, rfl, rfl⟩
    · obtain ⟨r, rfl, -⟩ := exists_of_notMem hc hw.symm
      exact .inl ⟨s, r, List.append_assoc s part r⟩
    · exact .inr ⟨w, r, List.append_assoc w part r⟩
  · rintro (h | h)
    · exact h.trans (List.prefix_append x _).isInfix
    · exact h.trans ((List.suffix_cons c y).trans (List.suffix_append x _)).isInfix

/-! ## Lowering -/

/-- The character is neither a cased letter nor passed over in looking for one. -/
structure IsStop (c : Char) : Prop where
  notIgnorable : isCaseIgnorable c = false
  notCased : isCased c = false
  lowered : lowerChar c = c

theorem IsStop.meetsCased_append (hc : IsStop c) (x y : Text) :
    meetsCased (x ++ c :: y) = meetsCased x := by
  induction x with
  | nil => simp [meetsCased, hc.notIgnorable, hc.notCased]
  | cons d x ih =>
    rw [meetsCased, meetsCased] at ih ⊢
    rw [List.cons_append, List.dropWhile_cons, List.dropWhile_cons]
    by_cases hd : isCaseIgnorable d = true
    · rw [if_pos hd, if_pos hd]
      exact ih
    · rw [if_neg hd, if_neg hd]

theorem IsStop.lowerAfter_append (hc : IsStop c) (before x y : Text) :
    lowerAfter before (x ++ c :: y) =
      lowerAfter before x ++ lowerAfter (x.reverse ++ before) (c :: y) := by
  induction x generalizing before with
  | nil => rfl
  | cons d x ih =>
    simp only [List.cons_append, lowerAfter, hc.meetsCased_append, ih, List.reverse_cons,
      List.append_assoc, List.nil_append]

theorem IsStop.lowerAfter_behind (hc : IsStop c) (before more y : Text) :
    lowerAfter (before ++ c :: more) y = lowerAfter before y := by
  induction y generalizing before with
  | nil => rfl
  | cons d y ih =>
    have hrest := ih (d :: before)
    rw [List.cons_append] at hrest
    simp only [lowerAfter, hc.meetsCased_append, hrest]

theorem IsStop.lowerAfter_cons (hc : IsStop c) (before y : Text) :
    lowerAfter before (c :: y) = c :: lowerAfter (c :: before) y := by
  have hcased : isCased 'Σ' = true ∧ isCased 'İ' = true := by decide +kernel
  have hsigma : c ≠ 'Σ' := by
    rintro rfl
    exact absurd hcased.1 (by simp [hc.notCased])
  have hdotted : c ≠ 'İ' := by
    rintro rfl
    exact absurd hcased.2 (by simp [hc.notCased])
  simp [lowerAfter, hsigma, hdotted, hc.lowered]

/-- The parts are lowered by themselves. -/
theorem IsStop.lower_append_cons (hc : IsStop c) (x y : Text) :
    lower (x ++ c :: y) = lower x ++ c :: lower y := by
  have hbehind := hc.lowerAfter_behind [] (x.reverse ++ []) y
  rw [List.nil_append] at hbehind
  rw [lower, lower, lower, hc.lowerAfter_append, hc.lowerAfter_cons, hbehind]

end RazorViews.Text
