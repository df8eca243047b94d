import Mathlib.Data.List.Basic
import RazorViews.Text.Basic

/-!
# The words of a text

A separator parts the words in front of it from those behind (`words_append_cons`), and a stretch
without separators is one word (`words_of_isOneWord`).  Every law about words follows from these
two, by cutting a text at its separators from the front (`cutInduction`).

* Words hold what is not a separator, in order: `flatten_words`.
* A word is not empty, holds no separator and stands in its text as a stretch:
  `isOneWord_of_mem_words`, `isInfix_of_mem_words`.
* Words that are joined by a separator are found again: `words_join`.

They are stated for any kind of items and separators, and are used of characters, with gaps of
identifiers or spaces between them.
-/

namespace RazorViews.Text

variable {isSeparator : Char → Bool} {c : Char} {t w x y : Text} {ws : List Text}

/-! ## Parting words -/

theorem words_cons_separator (hc : isSeparator c = true) (t : Text) :
    words isSeparator (c :: t) = words isSeparator t := by
  simp [words.eq_def isSeparator (c :: t), hc]

theorem words_cons_ne_nil (hc : isSeparator c = false) (t : Text) :
    words isSeparator (c :: t) ≠ [] := by
  rw [words.eq_def]
  dsimp only
  rw [if_neg (by simp [hc])]
  split
  · simp
  · split
    · simp
    · split
      · simp
      · simp

/-- A separator parts the words in front of it from those behind. -/
theorem words_append_cons (hc : isSeparator c = true) (x y : Text) :
    words isSeparator (x ++ c :: y) = words isSeparator x ++ words isSeparator y := by
  induction x with
  | nil => exact words_cons_separator hc y
  | cons a x ih =>
    by_cases ha : isSeparator a = true
    · rw [List.cons_append, words_cons_separator ha, words_cons_separator ha, ih]
    · cases x with
      | nil => simp [words, ha, hc]
      | cons d x =>
        rw [List.cons_append, List.cons_append, words, if_neg ha, words, if_neg ha]
        rw [List.cons_append] at ih
        by_cases hd : isSeparator d = true
        · simp only [hd, if_true, ih, List.cons_append]
        · -- the word that `a` begins goes on with `d`
          obtain ⟨word, more, hwords⟩ := List.exists_cons_of_ne_nil
            (words_cons_ne_nil (Bool.eq_false_iff.2 hd) x)
          simp only [hd, ih, hwords, Bool.false_eq_true, if_false, List.cons_append]

/-- Something without separators counts as one word. -/
structure IsOneWord (isSeparator : Char → Bool) (w : Text) : Prop where
  ne_nil : w ≠ []
  free : ∀ c ∈ w, isSeparator c = false

theorem words_of_isOneWord (h : IsOneWord isSeparator w) : words isSeparator w = [w] := by
  obtain ⟨hne, hw⟩ := h
  induction w with
  | nil => exact absurd rfl hne
  | cons c w ih =>
    obtain ⟨hc, hw⟩ := List.forall_mem_cons.1 hw
    cases w with
    | nil => simp [words, hc]
    | cons d w =>
      have hd := hw d List.mem_cons_self
      rw [words, if_neg (by simp [hc]), if_neg (by simp [hd]), ih (List.cons_ne_nil d w) hw]

/-- Cutting a text at its separators, from the front. -/
theorem cutInduction (isSeparator : Char → Bool) {P : Text → Prop} (nil : P [])
    (word : ∀ w, IsOneWord isSeparator w → P w)
    (cut : ∀ x c y, (∀ d ∈ x, isSeparator d = false) → isSeparator c = true → P y →
      P (x ++ c :: y)) (t : Text) : P t := by
  induction hn : t.length using Nat.strongRecOn generalizing t with
  | ind n ih =>
    subst hn
    have hfront : ∀ d ∈ t.takeWhile (!isSeparator ·), isSeparator d = false := by
      intro d hd
      simpa using List.all_eq_true.1 List.all_takeWhile d hd
    have hsplit := List.takeWhile_append_dropWhile (p := (!isSeparator ·)) (l := t)
    cases hback : t.dropWhile (!isSeparator ·) with
    | nil =>
      rw [hback, List.append_nil] at hsplit
      rw [hsplit] at hfront
      by_cases ht : t = []
      · exact ht ▸ nil
      · exact word t ⟨ht, hfront⟩
    | cons c y =>
      have hc : isSeparator c = true := by
        have hhead := List.head?_dropWhile_not (!isSeparator ·) t
        simpa [hback] using hhead
      rw [hback] at hsplit
      have hlength : y.length < t.length := by
        rw [← hsplit, List.length_append, List.length_cons]
        omega
      exact hsplit ▸ cut _ c y hfront hc (ih y.length hlength y rfl)

/-! ## What words are -/

theorem words_free (hx : ∀ d ∈ x, isSeparator d = false) :
    words isSeparator x = if x = [] then [] else [x] := by
  by_cases hne : x = []
  · rw [if_pos hne, hne, words]
  · rw [if_neg hne, words_of_isOneWord ⟨hne, hx⟩]

/-- The words of a text with a separator are the stretch in front of it and the words behind. -/
theorem mem_words_append_cons (hx : ∀ d ∈ x, isSeparator d = false) (hc : isSeparator c = true) :
    w ∈ words isSeparator (x ++ c :: y) ↔ x ≠ [] ∧ w = x ∨ w ∈ words isSeparator y := by
  rw [words_append_cons hc, words_free hx, List.mem_append]
  split
  · rename_i hnil
    simp [hnil]
  · rename_i hne
    rw [List.mem_singleton, and_iff_right hne]

theorem isOneWord_of_mem_words (h : w ∈ words isSeparator t) : IsOneWord isSeparator w := by
  induction t using cutInduction isSeparator with
  | nil => exact absurd h List.not_mem_nil
  | word v hv =>
    rw [words_of_isOneWord hv, List.mem_singleton] at h
    exact h ▸ hv
  | cut x c y hx hc ih =>
    rcases (mem_words_append_cons hx hc).1 h with ⟨hne, rfl⟩ | h
    · exact ⟨hne, hx⟩
    · exact ih h

/-- A word stands in its text as a stretch. -/
theorem isInfix_of_mem_words (h : w ∈ words isSeparator t) : w <:+: t := by
  induction t using cutInduction isSeparator with
  | nil => exact absurd h List.not_mem_nil
  | word v hv =>
    rw [words_of_isOneWord hv, List.mem_singleton] at h
    exact h ▸ List.infix_rfl
  | cut x c y hx hc ih =>
    rcases (mem_words_append_cons hx hc).1 h with ⟨-, rfl⟩ | h
    · exact (List.prefix_append w _).isInfix
    · exact (ih h).trans ((List.suffix_cons c y).trans (List.suffix_append x _)).isInfix

/-- Words hold what is not a separator, in order. -/
theorem flatten_words (isSeparator : Char → Bool) (t : Text) :
    (words isSeparator t).flatten = t.filter fun c => !isSeparator c := by
  have hfree : ∀ x : Text, (∀ d ∈ x, isSeparator d = false) →
      (x.filter fun c => !isSeparator c) = x := by
    intro x hx
    rw [List.filter_eq_self]
    intro d hd
    simp [hx d hd]
  induction t using cutInduction isSeparator with
  | nil => rfl
  | word w hw => rw [words_of_isOneWord hw, hfree w hw.free, List.flatten_singleton]
  | cut x c y hx hc ih =>
    rw [words_append_cons hc, List.flatten_append, ih, words_free hx, List.filter_append,
      hfree x hx, List.filter_cons_of_neg (by simp [hc])]
    split
    · rename_i hnil
      rw [hnil, List.flatten_nil]
    · rw [List.flatten_singleton]

/-! ## Joining words -/

/-- Words that are joined by a separator are found again. -/
theorem words_join (hc : isSeparator c = true) (h : ∀ w ∈ ws, IsOneWord isSeparator w) :
    words isSeparator (join [c] ws) = ws := by
  induction ws with
  | nil => rfl
  | cons w ws ih =>
    obtain ⟨hw, hws⟩ := List.forall_mem_cons.1 h
    cases ws with
    | nil =>
      rw [join_singleton]
      exact words_of_isOneWord hw
    | cons v ws =>
      rw [join_cons_cons, List.singleton_append, words_append_cons hc, words_of_isOneWord hw,
        ih hws]
      rfl

end RazorViews.Text
