import Mathlib.Data.List.DropRight
import RazorViews.Text.Blank
import RazorViews.Text.Word

/-!
# Trimming

White space at either end of a text does not survive trimming, and nothing else is lost: a text that
neither begins nor ends with white space is left as it is (`trim_eq_self`), and whatever is trimmed
keeps all its other characters (`filter_trim`, `count_trim`).

Trimming goes no further than a character that is not blank, from either end (`trim_append_cons`),
so what stands between two such characters has no part in it.

White space also separates words: no character of a word is blank (`not_isBlank_of_isWord`), and the
last word of a text is unique (`lastWord_unique`).
-/

namespace RazorViews.Text

variable {b t : Text}

theorem isBlank_space : ∀ c ∈ [' '], isBlank c = true := List.forall_mem_singleton.2 (by decide)

/-- A stretch of white space of a text without any is empty. -/
theorem eq_nil_of_blanks (ht : ∀ c ∈ t, isBlank c = false) (hsub : b ⊆ t)
    (hb : ∀ c ∈ b, isBlank c = true) : b = [] := by
  refine List.eq_nil_iff_forall_not_mem.2 fun c hc => ?_
  exact absurd ((ht c (hsub hc)).symm.trans (hb c hc)) (by simp)

/-! ## White space at the ends -/

theorem trimLeft_blanks_append (hb : ∀ c ∈ b, isBlank c = true) (t : Text) :
    trimLeft (b ++ t) = trimLeft t :=
  List.dropWhile_append_of_pos hb

theorem trimRight_append_blanks (hb : ∀ c ∈ b, isBlank c = true) (t : Text) :
    trimRight (t ++ b) = trimRight t := by
  rw [trimRight, List.reverse_append, List.dropWhile_append_of_pos, trimRight]
  exact fun c hc => hb c (List.mem_reverse.1 hc)

theorem trimLeft_eq_nil (hb : ∀ c ∈ b, isBlank c = true) : trimLeft b = [] := by
  have h := trimLeft_blanks_append hb []
  rwa [List.append_nil] at h

theorem trim_eq_nil (hb : ∀ c ∈ b, isBlank c = true) : trim b = [] := by
  rw [trim, trimLeft_eq_nil hb]
  rfl

theorem trim_append_blanks (hb : ∀ c ∈ b, isBlank c = true) (t : Text) :
    trim (t ++ b) = trim t := by
  rw [trim, trimLeft, List.dropWhile_append]
  split
  · rename_i hempty
    rw [trim, trimLeft, List.isEmpty_iff.1 hempty]
    exact congrArg trimRight (trimLeft_eq_nil hb)
  · exact trimRight_append_blanks hb _

/-! ## Nothing else is lost -/

theorem trimLeft_eq_self (h : ∀ c ∈ t.head?, isBlank c = false) : trimLeft t = t := by
  cases t with
  | nil => rfl
  | cons c t =>
    rw [trimLeft, List.dropWhile_cons_of_neg]
    rw [h c rfl]
    exact Bool.false_ne_true

theorem trimRight_eq_self (h : ∀ c ∈ t.getLast?, isBlank c = false) : trimRight t = t := by
  have hrev : ∀ c ∈ t.reverse.head?, isBlank c = false := by rwa [List.head?_reverse]
  have := trimLeft_eq_self hrev
  rw [trimLeft] at this
  rw [trimRight, this, List.reverse_reverse]

theorem trim_eq_self (hfirst : ∀ c ∈ t.head?, isBlank c = false)
    (hlast : ∀ c ∈ t.getLast?, isBlank c = false) : trim t = t := by
  rw [trim, trimLeft_eq_self hfirst, trimRight_eq_self hlast]

theorem filter_trimLeft (t : Text) :
    (trimLeft t).filter (!isBlank ·) = t.filter (!isBlank ·) := by
  have hfront : (t.takeWhile isBlank).filter (!isBlank ·) = [] := by
    rw [List.filter_eq_nil_iff]
    intro c hc
    simp [List.all_eq_true.1 List.all_takeWhile c hc]
  have hsplit := congrArg (List.filter (!isBlank ·))
    (List.takeWhile_append_dropWhile (p := isBlank) (l := t))
  rw [List.filter_append, hfront, List.nil_append] at hsplit
  exact hsplit

theorem filter_trimRight (t : Text) :
    (trimRight t).filter (!isBlank ·) = t.filter (!isBlank ·) := by
  have h := filter_trimLeft t.reverse
  rw [List.filter_reverse] at h
  rw [trimRight, List.filter_reverse]
  exact (congrArg List.reverse h).trans (List.reverse_reverse _)

theorem filter_trim (t : Text) : (trim t).filter (!isBlank ·) = t.filter (!isBlank ·) := by
  rw [trim, filter_trimRight, filter_trimLeft]

theorem count_filter_not_blank {c : Char} (hblank : isBlank c = false) (t : Text) :
    (t.filter (!isBlank ·)).count c = t.count c :=
  List.count_filter (by rw [hblank]; rfl)

theorem count_trimRight {c : Char} (hblank : isBlank c = false) (t : Text) :
    (trimRight t).count c = t.count c := by
  rw [← count_filter_not_blank hblank, filter_trimRight, count_filter_not_blank hblank]

theorem count_trim {c : Char} (hblank : isBlank c = false) (t : Text) :
    (trim t).count c = t.count c := by
  rw [← count_filter_not_blank hblank, filter_trim, count_filter_not_blank hblank]

theorem mem_trim {c : Char} (hc : c ∈ t) (hblank : isBlank c = false) : c ∈ trim t := by
  rw [← List.count_pos_iff, count_trim hblank, List.count_pos_iff]
  exact hc

theorem trimRight_append_cons {c : Char} (hblank : isBlank c = false) (s t : Text) :
    trimRight (s ++ c :: t) = s ++ c :: trimRight t := by
  rw [trimRight, List.reverse_append, List.reverse_cons, List.append_assoc,
    List.dropWhile_append]
  split
  · rename_i hempty
    rw [trimRight, List.isEmpty_iff.1 hempty, List.singleton_append,
      List.dropWhile_cons_of_neg (by rw [hblank]; exact Bool.false_ne_true)]
    simp
  · simp [trimRight]

/-- Trimming goes no further than a character that is not blank, from either end. -/
theorem trim_append_cons {c : Char} (hblank : isBlank c = false) (s t : Text) :
    trim (s ++ c :: t) = trimLeft s ++ c :: trimRight t := by
  have hleft : trimLeft (s ++ c :: t) = trimLeft s ++ c :: t := by
    rw [trimLeft, List.dropWhile_append]
    split
    · rename_i hempty
      rw [trimLeft, List.isEmpty_iff.1 hempty, List.nil_append,
        List.dropWhile_cons_of_neg (by rw [hblank]; exact Bool.false_ne_true)]
    · rfl
  rw [trim, hleft, trimRight_append_cons hblank]

/-- What stands behind a text has no part in trimming its front, unless all of it is blank. -/
theorem trimLeft_append (h : trimLeft t ≠ []) (more : Text) :
    trimLeft (t ++ more) = trimLeft t ++ more := by
  rw [trimLeft, List.dropWhile_append]
  split
  · rename_i hempty
    exact absurd (List.isEmpty_iff.1 hempty) h
  · rfl

theorem trimRight_isPrefix (t : Text) : trimRight t <+: t := by
  rw [trimRight, ← List.reverse_suffix, List.reverse_reverse]
  exact List.dropWhile_suffix isBlank

theorem trim_isInfix (t : Text) : trim t <:+: t :=
  (trimRight_isPrefix (trimLeft t)).isInfix.trans (List.dropWhile_suffix isBlank).isInfix

theorem trim_trimLeft (t : Text) : trim (trimLeft t) = trim t := by
  have hsame : trimLeft (trimLeft t) = trimLeft t := List.dropWhile_idempotent isBlank t
  rw [trim, trim, hsame]

/-- A text with no outer white space has none in front. -/
theorem trimLeft_of_trim (h : trim t = t) : trimLeft t = t := by
  have hsuffix : trimLeft t <:+ t := List.dropWhile_suffix isBlank
  have hlength := (trimRight_isPrefix (trimLeft t)).length_le
  rw [← trim, h] at hlength
  exact hsuffix.eq_of_length_le hlength

/-- What a trimmed text begins with, the text begins with. -/
theorem head?_trimLeft_of_trim {c : Char} (h : (trim t).head? = some c) :
    (trimLeft t).head? = some c := by
  obtain ⟨more, hmore⟩ := trimRight_isPrefix (trimLeft t)
  rw [← hmore, List.head?_append, ← trim, h]
  rfl

/-! ## Words -/

/-- What holds of the numbers of all ASCII characters holds of these. -/
theorem forall_ascii {p : Char → Prop} (h : ∀ n < 0x80, p (Char.ofNat n)) {c : Char}
    (hc : c.toNat < 0x80) : p c := by
  have hn := h c.toNat hc
  rwa [Char.ofNat_toNat] at hn

theorem not_isBlank_of_isWord {c : Char} (h : isWord c = true) : isBlank c = false := by
  by_cases hc : c.toNat < 0x80
  · have hall : ∀ n < 0x80, isWord (Char.ofNat n) = true → isBlank (Char.ofNat n) = false := by
      decide +kernel
    exact forall_ascii (p := fun c => isWord c = true → isBlank c = false) hall hc h
  · rw [isWord, if_neg hc, inSpans, List.any_eq_true] at h
    obtain ⟨w, hw, hin⟩ := h
    have hall : ∀ w ∈ wordSpans, ∀ b ∈ blankSpans, w.2 < b.1 ∨ b.2 < w.1 := by decide +kernel
    rw [Bool.eq_false_iff, isBlank, inSpans, ne_eq, List.any_eq_true]
    rintro ⟨b, hb, hin'⟩
    simp only [Bool.and_eq_true, decide_eq_true_eq] at hin hin'
    have := hall w hw b hb
    omega

/-- A character of a dotted path is no white space. -/
theorem not_isBlank_of_dotted {c : Char} (h : (isWord c || c == '.') = true) :
    isBlank c = false := by
  rcases Bool.or_eq_true_iff.1 h with h | h
  · exact not_isBlank_of_isWord h
  · rw [beq_iff_eq.1 h]
    decide

/-- What stands behind the last white space of a text is determined by the text. -/
theorem lastWord_unique {front front' word word' : Text} {c c' : Char}
    (h : front ++ c :: word = front' ++ c' :: word') (hc : isBlank c = true)
    (hc' : isBlank c' = true) (hword : ∀ d ∈ word, isBlank d = false)
    (hword' : ∀ d ∈ word', isBlank d = false) : front = front' ∧ c = c' ∧ word = word' := by
  rcases List.append_eq_append_iff.1 h with ⟨a, rfl, ha⟩ | ⟨a, rfl, ha⟩
  · cases a with
    | nil =>
      obtain ⟨rfl, rfl⟩ := List.cons.inj ha
      exact ⟨(List.append_nil front).symm, rfl, rfl⟩
    | cons d a =>
      obtain ⟨rfl, rfl⟩ := List.cons.inj ha
      have := hword c' (by simp)
      rw [hc'] at this
      exact absurd this (by simp)
  · cases a with
    | nil =>
      obtain ⟨rfl, rfl⟩ := List.cons.inj ha
      exact ⟨List.append_nil front', rfl, rfl⟩
    | cons d a =>
      obtain ⟨rfl, rfl⟩ := List.cons.inj ha
      have := hword' c (by simp)
      rw [hc] at this
      exact absurd this (by simp)

end RazorViews.Text
