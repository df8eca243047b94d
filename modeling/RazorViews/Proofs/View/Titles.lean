import Mathlib.Data.List.Chain
import Mathlib.Tactic.MkIffOfInductiveProp
import RazorViews.Proofs.Text.Seam
import RazorViews.Proofs.Text.Trim
import RazorViews.Proofs.Text.Words
import RazorViews.View.Wording

/-!
# Titles

The title of an identifier is made by parting it into words, taking the capitals off those words
that are no abbreviations, and putting a capital in front.

## What is proved

`humanize_ascii` says of every ASCII text, an identifier or not:

* the title of its title is that title, so a title is made once and for all;
* its title has single spaces between its words, and none in front or behind;
* but for gaps and capitals its title has the characters of the text, in order (`letters`).

## The hypothesis

The text is ASCII.  In other scripts a letter may have a capital of two letters, or a small letter
that has another capital.

## What it is not

That a title reads well is not claimed; `humanize_ascii_mixed` shows what becomes of abbreviations
and digits.

## The proof

Two things could spoil the first part.  A capital in a title could begin another word; but a title
has capitals in abbreviations only, which were taken off in front of every capital behind a digit,
and at its very front (`isSmooth_titleWords`).  And a small word could become an abbreviation by its
capital in front, as `x1` does in `X1`; but an abbreviation is left as it is, capital and all
(`capitalize_titleWord_capitalize`).  The words of a title are the words that it was made of
(`titleWords_join_titleWords`).
-/

namespace RazorViews.Wording

variable {a c : Char} {t v w x y name : Text} {ws : List Text}

/-! ## Plain letters -/

/-- All characters are ASCII. -/
def IsAscii (t : Text) : Prop := ∀ c ∈ t, c.toNat < 0x80

instance (t : Text) : Decidable (IsAscii t) :=
  List.decidableBAll (fun c : Char => c.toNat < 0x80) t

theorem lower_ascii (h : IsAscii t) : Text.lower t = t.map Char.toLower := by
  have hafter : ∀ before, Text.lowerAfter before t = t.map Char.toLower := by
    induction t with
    | nil => exact fun _ => rfl
    | cons c t ih =>
      obtain ⟨hc, ht⟩ := List.forall_mem_cons.1 h
      intro before
      have hsigma : ¬ (c == 'Σ') = true := by
        rw [beq_iff_eq]
        rintro rfl
        exact absurd hc (by decide)
      have hdotted : ¬ (c == 'İ') = true := by
        rw [beq_iff_eq]
        rintro rfl
        exact absurd hc (by decide)
      rw [Text.lowerAfter, if_neg hsigma, if_neg hdotted, ih ht, Text.lowerChar, if_pos hc]
      rfl
  exact hafter []

theorem capitalize_ascii (hc : c.toNat < 0x80) (t : Text) :
    capitalize (c :: t) = c.toUpper :: t := by
  rw [capitalize, Text.upper, List.flatMap_singleton, Text.upperChar, if_pos hc]
  rfl

/-- What changes of case do to a plain character. -/
@[mk_iff]
structure CaseFacts (c : Char) : Prop where
  lower_lt : c.toLower.toNat < 0x80
  upper_lt : c.toUpper.toNat < 0x80
  lower_upper : c.toUpper.toLower = c.toLower
  lower_lower : c.toLower.toLower = c.toLower
  upper_upper : c.toUpper.toUpper = c.toUpper
  upper_lower : c.toLower.toUpper = c.toUpper
  gap_lower : isGap c.toLower = isGap c
  gap_upper : isGap c.toUpper = isGap c
  small : Text.isSmall c = isPlainSmall c
  capital : Text.isCapital c = isPlainCapital c
  capital_lower : isPlainCapital c.toLower = false
  upper_of_not_small : isPlainSmall c = false → c.toUpper = c

theorem caseFacts (hc : c.toNat < 0x80) : CaseFacts c := by
  have hall : ∀ n < 0x80, CaseFacts (Char.ofNat n) := by
    simp only [caseFacts_iff]
    decide +kernel
  exact Text.forall_ascii hall hc

theorem IsAscii.lower (h : IsAscii t) : IsAscii (t.map Char.toLower) := by
  intro d hd
  obtain ⟨c, hc, rfl⟩ := List.mem_map.1 hd
  exact (caseFacts (h c hc)).lower_lt

theorem map_lower_lower (h : IsAscii t) :
    (t.map Char.toLower).map Char.toLower = t.map Char.toLower := by
  rw [List.map_map]
  exact List.map_congr_left fun c hc => (caseFacts (h c hc)).lower_lower

/-- A capital in front is no other letter. -/
theorem lower_capitalize (h : IsAscii t) :
    (capitalize t).map Char.toLower = t.map Char.toLower := by
  cases t with
  | nil => rfl
  | cons c t =>
    have hc := h c List.mem_cons_self
    rw [capitalize_ascii hc, List.map_cons, List.map_cons, (caseFacts hc).lower_upper]

/-! ## Words of titles -/

/-- An abbreviation stays as it is. -/
def IsKept (w : Text) : Prop := Text.isUpper w = true ∧ 1 < w.length

theorem titleWord_of_isKept (h : IsKept w) : titleWord w = w := by
  rw [titleWord, if_pos (by simpa [IsKept] using h)]

theorem titleWord_of_not_isKept (hw : IsAscii w) (h : ¬ IsKept w) :
    titleWord w = w.map Char.toLower := by
  rw [titleWord, if_neg, lower_ascii hw]
  rw [Bool.and_eq_true, decide_eq_true_eq]
  exact h

theorem IsKept.not_small (h : IsKept w) (hw : IsAscii w) : ∀ c ∈ w, isPlainSmall c = false := by
  intro c hc
  have hupper := h.1
  rw [Text.isUpper, Bool.and_eq_true, Bool.not_eq_true', List.any_eq_false] at hupper
  have hsmall := hupper.2 c hc
  rw [Bool.not_eq_true, Bool.or_eq_false_iff] at hsmall
  rw [← (caseFacts (hw c hc)).small]
  exact hsmall.1

theorem not_isKept_lower (hw : IsAscii w) : ¬ IsKept (w.map Char.toLower) := by
  rintro ⟨hupper, -⟩
  rw [Text.isUpper, Bool.and_eq_true, List.any_eq_true] at hupper
  obtain ⟨⟨d, hd, hcapital⟩, -⟩ := hupper
  rw [(caseFacts (hw.lower d hd)).capital] at hcapital
  obtain ⟨c, hc, rfl⟩ := List.mem_map.1 hd
  rw [(caseFacts (hw c hc)).capital_lower] at hcapital
  exact absurd hcapital Bool.false_ne_true

theorem isAscii_titleWord (hw : IsAscii w) : IsAscii (titleWord w) := by
  by_cases h : IsKept w
  · rwa [titleWord_of_isKept h]
  · rw [titleWord_of_not_isKept hw h]
    exact hw.lower

theorem lower_titleWord (hw : IsAscii w) :
    (titleWord w).map Char.toLower = w.map Char.toLower := by
  by_cases h : IsKept w
  · rw [titleWord_of_isKept h]
  · rw [titleWord_of_not_isKept hw h, map_lower_lower hw]

theorem titleWord_titleWord (hw : IsAscii w) : titleWord (titleWord w) = titleWord w := by
  by_cases h : IsKept w
  · rw [titleWord_of_isKept h, titleWord_of_isKept h]
  · rw [titleWord_of_not_isKept hw h, titleWord_of_not_isKept hw.lower (not_isKept_lower hw),
      map_lower_lower hw]

theorem capitalize_capitalize (hw : IsAscii w) : capitalize (capitalize w) = capitalize w := by
  cases w with
  | nil => rfl
  | cons c w =>
    have hc := caseFacts (hw c List.mem_cons_self)
    rw [capitalize_ascii (hw c List.mem_cons_self), capitalize_ascii hc.upper_lt, hc.upper_upper]

/-- An abbreviation has its capital in front already. -/
theorem capitalize_of_isKept (h : IsKept w) (hw : IsAscii w) : capitalize w = w := by
  cases w with
  | nil => rfl
  | cons c w =>
    have hc := hw c List.mem_cons_self
    rw [capitalize_ascii hc,
      (caseFacts hc).upper_of_not_small (h.not_small hw c List.mem_cons_self)]

theorem isAscii_capitalize (hw : IsAscii w) : IsAscii (capitalize w) := by
  cases w with
  | nil => exact hw
  | cons c w =>
    obtain ⟨hc, hw⟩ := List.forall_mem_cons.1 hw
    rw [capitalize_ascii hc]
    exact List.forall_mem_cons.2 ⟨(caseFacts hc).upper_lt, hw⟩

/-- A small word with a capital in front either counts as an abbreviation, or is made small and gets
its capital again. -/
theorem capitalize_titleWord_capitalize (hw : IsAscii w) :
    capitalize (titleWord (capitalize (titleWord w))) = capitalize (titleWord w) := by
  have hword := isAscii_titleWord hw
  by_cases h : IsKept (capitalize (titleWord w))
  · rw [titleWord_of_isKept h, capitalize_capitalize hword]
  · rw [titleWord_of_not_isKept (isAscii_capitalize hword) h, lower_capitalize hword]
    by_cases hkept : IsKept w
    · -- an abbreviation is not changed by its capital
      rw [titleWord_of_isKept hkept, capitalize_of_isKept hkept hw] at h
      exact absurd hkept h
    · rw [titleWord_of_not_isKept hw hkept, map_lower_lower hw]

/-! ## Where words begin -/

/-- No character begins a word within the text. -/
def IsSmooth (t : Text) : Prop := ∀ u a c v, t = u ++ a :: c :: v → beginsWord a c v = false

theorem spaceWords_of_isSmooth (h : IsSmooth t) : spaceWords t = t := by
  have hbehind : ∀ a rest, IsSmooth (a :: rest) → spaceBehind a rest = rest := by
    intro a rest
    induction rest generalizing a with
    | nil => exact fun _ => rfl
    | cons c rest ih =>
      intro hsmooth
      have hc := hsmooth [] a c rest rfl
      rw [spaceBehind, if_neg (by simp [hc]), ih c]
      rintro u b d v heq
      exact hsmooth (a :: u) b d v (by rw [heq]; rfl)
  cases t with
  | nil => rfl
  | cons c t => rw [spaceWords, hbehind c t h]

/-- At a space nothing begins, and a space behind a word does not make one begin within it. -/
theorem IsSmooth.append_space (hx : IsSmooth x) (hy : IsSmooth y) :
    IsSmooth (x ++ ' ' :: y) := by
  have hspace : isPlainCapital ' ' = false ∧ isPlainSmall ' ' = false ∧
      isPlainSmallOrDigit ' ' = false := by decide
  intro u a c v h
  rcases Text.append_cons_cases h with ⟨z, rfl, hz⟩ | ⟨z, -, hz⟩
  · match z with
    | [] =>
      obtain ⟨rfl, -⟩ := List.cons.inj hz
      simp [beginsWord, hspace]
    | [b] =>
      obtain ⟨rfl, hmore⟩ := List.cons.inj hz
      obtain ⟨rfl, -⟩ := List.cons.inj hmore
      simp [beginsWord, hspace]
    | b :: d :: z =>
      obtain ⟨rfl, hmore⟩ := List.cons.inj hz
      obtain ⟨rfl, rfl⟩ := List.cons.inj hmore
      have hword := hx u a c z rfl
      cases z with
      | nil => simpa [beginsWord, hspace] using hword
      | cons e z => exact hword
  · exact hy z a c v hz

theorem isSmooth_join (h : ∀ w ∈ ws, IsSmooth w) : IsSmooth (Text.join [' '] ws) := by
  induction ws with
  | nil => exact fun u a c v h => absurd h (by simp)
  | cons w ws ih =>
    obtain ⟨hw, hws⟩ := List.forall_mem_cons.1 h
    cases ws with
    | nil => rwa [Text.join_singleton]
    | cons v ws =>
      rw [Text.join_cons_cons]
      exact hw.append_space (ih hws)

/-- The second of two neighbours is no capital behind a small letter or digit. -/
def IsLevel (a c : Char) : Prop := isPlainSmallOrDigit a = true → isPlainCapital c = false

/-- Every capital behind a small letter or digit begins a word, with a space in front. -/
theorem isChain_spaceWords (t : Text) : (spaceWords t).IsChain IsLevel := by
  have hbehind : ∀ a rest, (a :: spaceBehind a rest).IsChain IsLevel := by
    intro a rest
    induction rest generalizing a with
    | nil => exact List.isChain_singleton a
    | cons c rest ih =>
      rw [spaceBehind]
      split
      · have hfront : IsLevel a ' ' := fun _ => by decide
        have hback : IsLevel ' ' c := fun h => absurd h (by decide)
        exact .cons_cons hfront (.cons_cons hback (ih c))
      · rename_i hbegins
        refine .cons_cons (fun ha => ?_) (ih c)
        simpa [beginsWord, ha] using hbegins
  cases t with
  | nil => exact List.isChain_nil
  | cons c t => exact hbehind c t

theorem isSmooth_of_not_small (hlevel : w.IsChain IsLevel) (h : ∀ c ∈ w, isPlainSmall c = false) :
    IsSmooth w := by
  rintro u a c v rfl
  have hnext : v.head?.any isPlainSmall = false := by
    cases v with
    | nil => rfl
    | cons d v => exact h d (by simp)
  have hpair : IsLevel a c := by
    have hback := (List.isChain_append.1 hlevel).2.1
    exact (List.isChain_cons_cons.1 hback).1
  cases ha : isPlainSmallOrDigit a with
  | true => simp [beginsWord, hpair ha]
  | false => simp [beginsWord, ha, hnext]

theorem isSmooth_of_not_capital (h : ∀ c ∈ w.tail, isPlainCapital c = false) : IsSmooth w := by
  rintro u a c v rfl
  have hc := h c (by cases u <;> simp)
  simp [beginsWord, hc]

/-- Within a word of a title no other word begins, with or without a capital in front. -/
theorem isSmooth_titleWord (hw : IsAscii w) (hlevel : w.IsChain IsLevel) :
    IsSmooth (titleWord w) ∧ IsSmooth (capitalize (titleWord w)) := by
  by_cases h : IsKept w
  · have hsmooth := isSmooth_of_not_small hlevel (h.not_small hw)
    rw [titleWord_of_isKept h, capitalize_of_isKept h hw]
    exact ⟨hsmooth, hsmooth⟩
  · rw [titleWord_of_not_isKept hw h]
    have hcapital : ∀ d ∈ w.map Char.toLower, isPlainCapital d = false := by
      intro d hd
      obtain ⟨c, hc, rfl⟩ := List.mem_map.1 hd
      exact (caseFacts (hw c hc)).capital_lower
    refine ⟨isSmooth_of_not_capital fun d hd => hcapital d (List.mem_of_mem_tail hd), ?_⟩
    cases w with
    | nil => exact isSmooth_of_not_capital fun d hd => absurd hd List.not_mem_nil
    | cons c w =>
      rw [List.map_cons, capitalize_ascii (caseFacts (hw c List.mem_cons_self)).lower_lt]
      exact isSmooth_of_not_capital fun d hd => hcapital d (List.mem_cons_of_mem _ hd)

/-! ## Titles as lists of words -/

theorem isGap_space : isGap ' ' = true := by decide

/-- The words of the title of an identifier. -/
def titleWords (name : Text) : List Text :=
  match Text.words isGap (spaceWords name) with
  | [] => []
  | w :: ws => capitalize (titleWord w) :: ws.map titleWord

theorem titleWord_ne_nil (h : w ≠ []) : titleWord w ≠ [] := by
  cases w with
  | nil => exact absurd rfl h
  | cons c w =>
    rw [titleWord]
    split
    · exact h
    · rw [Text.lower, Text.lowerAfter]
      split
      · split
        · simp
        · simp
      · split
        · simp
        · simp

theorem capitalize_join (hw : w ≠ []) (ws : List Text) :
    capitalize (Text.join [' '] (w :: ws)) = Text.join [' '] (capitalize w :: ws) := by
  obtain ⟨c, w, rfl⟩ := List.exists_cons_of_ne_nil hw
  cases ws with
  | nil => rw [Text.join_singleton, Text.join_singleton]
  | cons v ws => simp [capitalize]

theorem humanize_eq (name : Text) : humanize name = Text.join [' '] (titleWords name) := by
  rw [humanize, titleWords]
  cases hwords : Text.words isGap (spaceWords name) with
  | nil => rfl
  | cons w ws =>
    have hw := Text.isOneWord_of_mem_words (hwords ▸ List.mem_cons_self : w ∈ Text.words isGap _)
    rw [List.map_cons, capitalize_join (titleWord_ne_nil hw.ne_nil)]

theorem isAscii_spaceWords (h : IsAscii name) : IsAscii (spaceWords name) := by
  have hbehind : ∀ a rest, IsAscii rest → IsAscii (spaceBehind a rest) := by
    intro a rest hrest
    induction rest generalizing a with
    | nil => exact hrest
    | cons c rest ih =>
      obtain ⟨hc, hrest⟩ := List.forall_mem_cons.1 hrest
      rw [spaceBehind]
      split
      · exact List.forall_mem_cons.2 ⟨by decide, List.forall_mem_cons.2 ⟨hc, ih c hrest⟩⟩
      · exact List.forall_mem_cons.2 ⟨hc, ih c hrest⟩
  cases name with
  | nil => exact h
  | cons c t =>
    obtain ⟨hc, ht⟩ := List.forall_mem_cons.1 h
    exact List.forall_mem_cons.2 ⟨hc, hbehind c t ht⟩

/-- Spaces in front of words add nothing but gaps. -/
theorem filter_spaceWords (t : Text) :
    (spaceWords t).filter (!isGap ·) = t.filter (!isGap ·) := by
  have hbehind : ∀ a rest, (spaceBehind a rest).filter (!isGap ·) = rest.filter (!isGap ·) := by
    intro a rest
    induction rest generalizing a with
    | nil => rfl
    | cons c rest ih =>
      rw [spaceBehind]
      split
      · rw [List.filter_cons_of_neg (by decide), List.filter_cons, List.filter_cons, ih]
      · rw [List.filter_cons, List.filter_cons, ih]
  cases t with
  | nil => rfl
  | cons c t => rw [spaceWords, List.filter_cons, List.filter_cons, hbehind]

/-! ## The words of a title -/

theorem isOneWord_titleWord (h : Text.IsOneWord isGap w) (hw : IsAscii w) :
    Text.IsOneWord isGap (titleWord w) := by
  refine ⟨titleWord_ne_nil h.ne_nil, ?_⟩
  by_cases hkept : IsKept w
  · rw [titleWord_of_isKept hkept]
    exact h.free
  · rw [titleWord_of_not_isKept hw hkept]
    intro d hd
    obtain ⟨c, hc, rfl⟩ := List.mem_map.1 hd
    rw [(caseFacts (hw c hc)).gap_lower, h.free c hc]

theorem isOneWord_capitalize (h : Text.IsOneWord isGap w) (hw : IsAscii w) :
    Text.IsOneWord isGap (capitalize w) := by
  cases w with
  | nil => exact h
  | cons c w =>
    obtain ⟨hfree, hmore⟩ := List.forall_mem_cons.1 h.free
    have hc := hw c List.mem_cons_self
    rw [capitalize_ascii hc]
    refine ⟨List.cons_ne_nil _ _, List.forall_mem_cons.2 ⟨?_, hmore⟩⟩
    rw [(caseFacts hc).gap_upper, hfree]

/-- What the words of a title are made from. -/
structure IsPart (w : Text) : Prop where
  ascii : IsAscii w
  level : w.IsChain IsLevel
  oneWord : Text.IsOneWord isGap w

theorem isPart_of_mem (h : IsAscii name) (hw : w ∈ Text.words isGap (spaceWords name)) :
    IsPart w where
  ascii c hc := isAscii_spaceWords h c ((Text.isInfix_of_mem_words hw).subset hc)
  level := List.IsChain.infix (isChain_spaceWords name) (Text.isInfix_of_mem_words hw)
  oneWord := Text.isOneWord_of_mem_words hw

/-- A word of a title comes from a part of the identifier, and the first one has its capital. -/
theorem of_mem_titleWords (h : IsAscii name) (hv : v ∈ titleWords name) :
    ∃ w, IsPart w ∧ (v = titleWord w ∨ v = capitalize (titleWord w)) := by
  rw [titleWords] at hv
  split at hv
  · exact absurd hv List.not_mem_nil
  · rename_i w ws hwords
    rcases List.mem_cons.1 hv with rfl | hv
    · exact ⟨w, isPart_of_mem h (hwords ▸ List.mem_cons_self), .inr rfl⟩
    · obtain ⟨u, hu, rfl⟩ := List.mem_map.1 hv
      exact ⟨u, isPart_of_mem h (hwords ▸ List.mem_cons_of_mem w hu), .inl rfl⟩

theorem isOneWord_titleWords (h : IsAscii name) :
    ∀ v ∈ titleWords name, Text.IsOneWord isGap v := by
  intro v hv
  obtain ⟨w, hw, rfl | rfl⟩ := of_mem_titleWords h hv
  · exact isOneWord_titleWord hw.oneWord hw.ascii
  · exact isOneWord_capitalize (isOneWord_titleWord hw.oneWord hw.ascii)
      (isAscii_titleWord hw.ascii)

theorem isSmooth_titleWords (h : IsAscii name) : ∀ v ∈ titleWords name, IsSmooth v := by
  intro v hv
  obtain ⟨w, hw, rfl | rfl⟩ := of_mem_titleWords h hv
  · exact (isSmooth_titleWord hw.ascii hw.level).1
  · exact (isSmooth_titleWord hw.ascii hw.level).2

/-- The words of a title are the words of its title. -/
theorem titleWords_join_titleWords (h : IsAscii name) :
    titleWords (Text.join [' '] (titleWords name)) = titleWords name := by
  rw [titleWords, spaceWords_of_isSmooth (isSmooth_join (isSmooth_titleWords h)),
    Text.words_join isGap_space (isOneWord_titleWords h), titleWords]
  cases hwords : Text.words isGap (spaceWords name) with
  | nil => rfl
  | cons w ws =>
    have hpart : ∀ u ∈ w :: ws, IsPart u := fun u hu => isPart_of_mem h (hwords ▸ hu)
    obtain ⟨hw, hws⟩ := List.forall_mem_cons.1 hpart
    have hmore : (ws.map titleWord).map titleWord = ws.map titleWord := by
      rw [List.map_map]
      exact List.map_congr_left fun u hu => titleWord_titleWord (hws u hu).ascii
    dsimp only
    rw [capitalize_titleWord_capitalize hw.ascii, hmore]

theorem lower_flatten_titleWords (h : IsAscii name) :
    (titleWords name).flatten.map Char.toLower =
      (Text.words isGap (spaceWords name)).flatten.map Char.toLower := by
  rw [titleWords]
  cases hwords : Text.words isGap (spaceWords name) with
  | nil => rfl
  | cons w ws =>
    have hpart : ∀ u ∈ w :: ws, IsPart u := fun u hu => isPart_of_mem h (hwords ▸ hu)
    obtain ⟨hw, hws⟩ := List.forall_mem_cons.1 hpart
    have hmore : (ws.map titleWord).flatten.map Char.toLower = ws.flatten.map Char.toLower := by
      rw [List.map_flatten, List.map_flatten, List.map_map]
      exact congrArg _ (List.map_congr_left fun u hu => lower_titleWord (hws u hu).ascii)
    dsimp only
    rw [List.flatten_cons, List.flatten_cons, List.map_append, List.map_append, hmore,
      lower_capitalize (isAscii_titleWord hw.ascii), lower_titleWord hw.ascii]

/-! ## Titles -/

/-- The text has no gaps but single spaces, and none at either end. -/
structure SingleSpaced (t : Text) : Prop where
  underscore_notMem : '_' ∉ t
  hyphen_notMem : '-' ∉ t
  eq_space : ∀ c ∈ t, Text.isBlank c = true → c = ' '
  not_two : ¬ [' ', ' '] <:+: t
  head?_ne : t.head? ≠ some ' '
  getLast?_ne : t.getLast? ≠ some ' '

/-- One of two neighbours is no space. -/
def NotBothSpaces (a c : Char) : Prop := a = ' ' → c ≠ ' '

theorem ne_space (h : Text.IsOneWord isGap w) : ' ' ∉ w := by
  intro hspace
  exact absurd (h.free ' ' hspace) (by decide)

theorem isChain_oneWord (h : ' ' ∉ w) : w.IsChain NotBothSpaces := by
  induction w with
  | nil => exact List.isChain_nil
  | cons c w ih =>
    rw [List.mem_cons, not_or] at h
    refine List.isChain_cons.2 ⟨?_, ih h.2⟩
    exact fun d _ hc => absurd hc (Ne.symm h.1)

theorem isChain_join (h : ∀ w ∈ ws, Text.IsOneWord isGap w) :
    (Text.join [' '] ws).IsChain NotBothSpaces ∧ (Text.join [' '] ws).head? ≠ some ' ' ∧
      (Text.join [' '] ws).getLast? ≠ some ' ' := by
  induction ws with
  | nil => exact ⟨List.isChain_nil, by simp, by simp⟩
  | cons w ws ih =>
    obtain ⟨hw, hws⟩ := List.forall_mem_cons.1 h
    have hnot := ne_space hw
    have hhead : w.head? ≠ some ' ' := fun heq => hnot (List.mem_of_head? heq)
    have hlast : w.getLast? ≠ some ' ' := fun heq => hnot (List.mem_of_getLast? heq)
    cases ws with
    | nil =>
      rw [Text.join_singleton]
      exact ⟨isChain_oneWord hnot, hhead, hlast⟩
    | cons v ws =>
      obtain ⟨hchain, hfront, hback⟩ := ih hws
      rw [Text.join_cons_cons, List.singleton_append]
      obtain ⟨c, w, rfl⟩ := List.exists_cons_of_ne_nil hw.ne_nil
      refine ⟨?_, hhead, ?_⟩
      · refine List.isChain_append.2 ⟨isChain_oneWord hnot, List.isChain_cons.2 ⟨?_, hchain⟩, ?_⟩
        · rintro d hd - rfl
          exact hfront hd
        · rintro a ha d - rfl
          exact absurd ha hlast
      · rw [List.getLast?_append_of_ne_nil _ (List.cons_ne_nil _ _), List.getLast?_cons]
        intro heq
        cases hmore : (Text.join [' '] (v :: ws)).getLast? with
        | none =>
          -- the words behind the space are not nothing
          have hv := (hws v List.mem_cons_self).ne_nil
          rw [List.getLast?_eq_none_iff] at hmore
          cases ws <;> simp [hv] at hmore
        | some d =>
          rw [hmore] at heq
          exact hback (hmore.trans heq)

theorem mem_join (h : c ∈ Text.join [' '] ws) : c = ' ' ∨ ∃ w ∈ ws, c ∈ w := by
  induction ws with
  | nil => exact absurd h (by simp)
  | cons w ws ih =>
    cases ws with
    | nil =>
      rw [Text.join_singleton] at h
      exact .inr ⟨w, List.mem_cons_self, h⟩
    | cons v ws =>
      rw [Text.join_cons_cons, List.mem_append, List.mem_append, List.mem_singleton] at h
      rcases h with h | h | h
      · exact .inr ⟨w, List.mem_cons_self, h⟩
      · exact .inl h
      · rcases ih h with hspace | ⟨u, hu, hc⟩
        · exact .inl hspace
        · exact .inr ⟨u, List.mem_cons_of_mem w hu, hc⟩

theorem singleSpaced_join (h : ∀ w ∈ ws, Text.IsOneWord isGap w) :
    SingleSpaced (Text.join [' '] ws) := by
  obtain ⟨hchain, hhead, hlast⟩ := isChain_join h
  have hgap : ∀ c ∈ Text.join [' '] ws, isGap c = true → c = ' ' := by
    intro c hc hgap
    rcases mem_join hc with rfl | ⟨w, hw, hc⟩
    · rfl
    · rw [(h w hw).free c hc] at hgap
      exact absurd hgap Bool.false_ne_true
  refine ⟨fun hc => ?_, fun hc => ?_, fun c hc hblank => ?_, fun htwo => ?_, hhead, hlast⟩
  · exact absurd (hgap _ hc (by decide)) (by decide)
  · exact absurd (hgap _ hc (by decide)) (by decide)
  · exact hgap c hc (by rw [isGap, hblank]; rfl)
  · have hpair := List.IsChain.infix hchain htwo
    exact (List.isChain_cons_cons.1 hpair).1 rfl rfl

/-- What is left of a text without its gaps, in small letters. -/
def letters (t : Text) : Text := Text.lower (t.filter (!isGap ·))

/-- The title of a title is that title; it has single spaces between its words and no other gaps;
and it has the letters of the identifier. -/
theorem humanize_ascii (h : IsAscii name) :
    humanize (humanize name) = humanize name ∧ SingleSpaced (humanize name) ∧
      letters (humanize name) = letters name := by
  have hwords := isOneWord_titleWords h
  refine ⟨?_, ?_, ?_⟩
  · rw [humanize_eq name, humanize_eq, titleWords_join_titleWords h]
  · rw [humanize_eq]
    exact singleSpaced_join hwords
  · have hfilter : (humanize name).filter (!isGap ·) = (titleWords name).flatten := by
      rw [humanize_eq, ← Text.flatten_words, Text.words_join isGap_space hwords]
    have hascii : IsAscii (titleWords name).flatten := by
      intro c hc
      obtain ⟨v, hv, hc⟩ := List.mem_flatten.1 hc
      obtain ⟨w, hw, rfl | rfl⟩ := of_mem_titleWords h hv
      · exact isAscii_titleWord hw.ascii c hc
      · exact isAscii_capitalize (isAscii_titleWord hw.ascii) c hc
    have hname : IsAscii (name.filter (!isGap ·)) := fun c hc => h c (List.mem_of_mem_filter hc)
    rw [letters, letters, hfilter, lower_ascii hascii, lower_flatten_titleWords h,
      Text.flatten_words, filter_spaceWords, lower_ascii hname]

/-- Two abbreviations, one of them behind a digit, a small word, and gaps of all kinds. -/
theorem humanize_ascii_mixed :
    IsAscii " x1_HTTPServer2XMLFile - a".toList ∧
      humanize " x1_HTTPServer2XMLFile - a".toList = "X1 HTTP server2 XML file a".toList ∧
      humanize "X1 HTTP server2 XML file a".toList = "X1 HTTP server2 XML file a".toList ∧
      SingleSpaced "X1 HTTP server2 XML file a".toList := by
  have hascii : IsAscii " x1_HTTPServer2XMLFile - a".toList := by decide
  have htitle : humanize " x1_HTTPServer2XMLFile - a".toList =
      "X1 HTTP server2 XML file a".toList := by decide +kernel
  obtain ⟨hstable, hspaced, -⟩ := humanize_ascii hascii
  rw [htitle] at hstable hspaced
  exact ⟨hascii, htitle, hstable, hspaced⟩

end RazorViews.Wording
