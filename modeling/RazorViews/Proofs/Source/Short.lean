import Mathlib.Data.List.DropRight
import RazorViews.Proofs.Source.Grammar
import RazorViews.Proofs.Text.Trim

/-!
# Source without comments

Between comments and longer literals stands code, with literals on one line (`Short`).  Erasing such
source empties the literals, and erasing it once more changes nothing: `Short.erase_written`,
`Short.erase_left`.

It may be cut between two segments (`Short.right`, `Short.front`), put together with a space in
between (`Short.join`) and trimmed (`Short.exists_trim`), before erasing or behind it; it is the
same segments that remain.  These are what a scanner does to the lines of an annotation.

Segments are told from each other by a character or two that follow (`tellers`), and each kind of
literal is left with marks by which it is told again.  Verbatim literals need some care: one that is
empty leaves two quotes, and one that begins with a doubled quote begins with what would be an empty
one.  Those are left out (`IsShort`).
-/

namespace RazorViews.Source

/-! ## Verbatim literals on one line -/

/-- Quotes are doubled, and none stands behind a backslash: a scanner that takes every backslash for
an escape sees literals, one directly behind the other, where a verbatim literal stands. -/
def isScanned : Text → Bool
  | [] => true
  | '"' :: '"' :: rest => isScanned rest
  | '\\' :: c :: rest => c != '"' && c != '\n' && isScanned rest
  | c :: rest => c != '"' && c != '\\' && c != '\n' && isScanned rest

theorem verbatimBody_of_isScanned {body : Text} : isScanned body = true → VerbatimBody body := by
  fun_induction isScanned body with
  | case1 => exact fun _ => .nil
  | case2 rest ih => exact fun h => .doubled (ih h)
  | case3 c rest ih =>
    intro h
    simp only [Bool.and_eq_true, bne_iff_ne] at h
    exact .plain (by decide) (.plain h.1.1 (ih h.2))
  | case4 c rest _ _ ih =>
    intro h
    simp only [Bool.and_eq_true, bne_iff_ne] at h
    exact .plain h.1.1.1 (ih h.2)

theorem notMem_of_isScanned {body : Text} : isScanned body = true → '\n' ∉ body := by
  fun_induction isScanned body with
  | case1 => simp
  | case2 rest ih => simpa using ih
  | case3 c rest ih =>
    intro h
    simp only [Bool.and_eq_true, bne_iff_ne] at h
    simp [Ne.symm h.1.2, ih h.2]
  | case4 c rest _ _ ih =>
    intro h
    simp only [Bool.and_eq_true, bne_iff_ne] at h
    simp [Ne.symm h.1.2, ih h.2]

namespace Segment

/-- A character of code, or a literal on one line; if that is verbatim it does not begin like one
that is empty. -/
def IsShort : Segment → Prop
  | code c => c ≠ '"' ∧ c ≠ '\''
  | quoted mark body => (mark = '"' ∨ mark = '\'') ∧ QuotedBody mark body
  | verbatim sigil body => sigil ∈ sigils ∧ isScanned body = true ∧ body.head? ≠ some '"'
  | _ => False

/-- A segment behind erasing: a literal on one line without its inside. -/
def emptied : Segment → Segment
  | quoted mark _ => quoted mark []
  | verbatim sigil _ => verbatim sigil []
  | s => s

variable {s : Segment} {after more : Text}

theorem IsShort.emptied (h : s.IsShort) : s.emptied.IsShort := by
  cases s with
  | code c => exact h
  | quoted mark body => exact ⟨h.1, .nil⟩
  | verbatim sigil body => exact ⟨h.1, rfl, by simp⟩
  | _ => exact h.elim

/-- No line feed is left of a literal on one line. -/
theorem IsShort.left_verbatim {sigil body : Text} (h : (verbatim sigil body).IsShort) :
    (verbatim sigil body).left = sigil ++ ['"', '"'] := by
  have hfeeds : feeds body = [] := @feeds_append_of_notMem [] body (notMem_of_isScanned h.2.1)
  rw [left, hfeeds, List.append_nil]

theorem IsShort.written_emptied (h : s.IsShort) : s.emptied.written = s.left := by
  cases s with
  | code c => rfl
  | quoted mark body => rfl
  | verbatim sigil body =>
    rw [h.left_verbatim, Segment.emptied, written]
    simp
  | _ => exact h.elim

theorem IsShort.left_emptied (h : s.IsShort) : s.emptied.left = s.left := by
  cases s with
  | code c => rfl
  | quoted mark body => rfl
  | verbatim sigil body => rw [h.left_verbatim, Segment.emptied, (h.emptied).left_verbatim]
  | _ => exact h.elim

/-- Such a segment is told by the beginning of what follows it, so less may follow it. -/
theorem Fits.of_append (hs : s.IsShort) (h : s.Fits (after ++ more)) : s.Fits after := by
  have hless : ∀ front : Text, ¬ front <+: after ++ more → ¬ front <+: after :=
    fun front hno hfront => hno (hfront.trans (List.prefix_append after more))
  cases s with
  | code c =>
    obtain ⟨hquote, hmark, hslash, hat, hdollar⟩ := h
    exact ⟨hquote, hmark, fun hc => (hslash hc).imp (hless _) (hless _),
      fun hc => (hat hc).imp (hless _) (hless _), fun hc => hless _ (hdollar hc)⟩
  | quoted mark body => exact ⟨h.1, h.2.1, fun hmark hbody => hless _ (h.2.2 hmark hbody)⟩
  | verbatim sigil body => exact ⟨h.1, h.2.1, hless _ h.2.2⟩
  | _ => exact hs.elim

/-- The characters by which a segment can be told from another. -/
def tellers : List Char := ['/', '*', '"', '$', '@']

theorem isPrefix_of_append_cons {front : Text} {c : Char} (hc : c ∉ front)
    (h : front <+: after ++ c :: more) : front <+: after := by
  rcases Nat.le_total front.length after.length with hle | hle
  · exact List.prefix_of_prefix_length_le h (List.prefix_append after _) hle
  · obtain ⟨rest, rfl⟩ :=
      List.prefix_of_prefix_length_le (List.prefix_append after _) h hle
    cases rest with
    | nil => exact ⟨[], by simp⟩
    | cons d rest =>
      obtain ⟨rest', hrest⟩ := (List.prefix_append_right_inj after).1 h
      obtain ⟨rfl, -⟩ := List.cons.inj hrest
      exact absurd (List.mem_append_right after List.mem_cons_self) hc

/-- Behind a character of another kind anything may follow. -/
theorem Fits.append_cons {c : Char} (hc : c ∉ tellers) (hs : s.IsShort) (h : s.Fits after)
    (more : Text) : s.Fits (after ++ c :: more) := by
  have hmore : ∀ front : Text, front ⊆ tellers → ¬ front <+: after →
      ¬ front <+: after ++ c :: more :=
    fun front hfront hno hpre => hno (isPrefix_of_append_cons (fun hmem => hc (hfront hmem)) hpre)
  cases s with
  | code d =>
    obtain ⟨hquote, hmark, hslash, hat, hdollar⟩ := h
    exact ⟨hquote, hmark,
      fun hd => (hslash hd).imp (hmore _ (by decide)) (hmore _ (by decide)),
      fun hd => (hat hd).imp (hmore _ (by decide)) (hmore _ (by decide)),
      fun hd => hmore _ (by decide) (hdollar hd)⟩
  | quoted mark body =>
    exact ⟨h.1, h.2.1, fun hmark hbody => hmore _ (by decide) (h.2.2 hmark hbody)⟩
  | verbatim sigil body => exact ⟨h.1, h.2.1, hmore _ (by decide) h.2.2⟩
  | _ => exact hs.elim

end Segment

/-! ## Several segments -/

/-- How segments are written. -/
def written (xs : List Segment) : Text := xs.flatMap Segment.written

/-- What erasing leaves of segments. -/
def left (xs : List Segment) : Text := xs.flatMap Segment.left

@[simp]
theorem written_nil : written [] = [] := rfl

@[simp]
theorem written_cons (s : Segment) (xs : List Segment) :
    written (s :: xs) = s.written ++ written xs := rfl

@[simp]
theorem written_append (xs ys : List Segment) : written (xs ++ ys) = written xs ++ written ys :=
  List.flatMap_append

@[simp]
theorem left_nil : left [] = [] := rfl

@[simp]
theorem left_cons (s : Segment) (xs : List Segment) : left (s :: xs) = s.left ++ left xs := rfl

@[simp]
theorem left_append (xs ys : List Segment) : left (xs ++ ys) = left xs ++ left ys :=
  List.flatMap_append

/-- Code with literals on one line, such that the segments are told from each other before erasing
and behind it. -/
def Short : List Segment → Prop
  | [] => True
  | s :: xs => s.IsShort ∧ s.Fits (written xs) ∧ s.emptied.Fits (left xs) ∧ Short xs

variable {s : Segment} {xs ys : List Segment}

theorem short_cons :
    Short (s :: xs) ↔ s.IsShort ∧ s.Fits (written xs) ∧ s.emptied.Fits (left xs) ∧ Short xs :=
  Iff.rfl

theorem Short.isShort (h : Short xs) : ∀ s ∈ xs, s.IsShort := by
  induction xs with
  | nil => simp
  | cons s xs ih => exact List.forall_mem_cons.2 ⟨h.1, ih h.2.2.2⟩

theorem written_map_emptied (h : ∀ s ∈ xs, s.IsShort) :
    written (xs.map Segment.emptied) = left xs := by
  induction xs with
  | nil => rfl
  | cons s xs ih =>
    obtain ⟨hs, hxs⟩ := List.forall_mem_cons.1 h
    rw [List.map_cons, written_cons, hs.written_emptied, ih hxs, left_cons]

theorem left_map_emptied (h : ∀ s ∈ xs, s.IsShort) :
    left (xs.map Segment.emptied) = left xs := by
  induction xs with
  | nil => rfl
  | cons s xs ih =>
    obtain ⟨hs, hxs⟩ := List.forall_mem_cons.1 h
    rw [List.map_cons, left_cons, hs.left_emptied, ih hxs, left_cons]

/-! ### Erasing -/

theorem Short.allFit (h : Short xs) : AllFit [] xs := by
  induction xs with
  | nil => trivial
  | cons s xs ih =>
    have hfits : s.Fits (xs.flatMap Segment.written ++ []) := by
      rw [List.append_nil]
      exact h.2.1
    exact ⟨hfits, ih h.2.2.2⟩

theorem Short.allFit_emptied (h : Short xs) : AllFit [] (xs.map Segment.emptied) := by
  induction xs with
  | nil => trivial
  | cons s xs ih =>
    have hfits : s.emptied.Fits ((xs.map Segment.emptied).flatMap Segment.written ++ []) := by
      rw [List.append_nil, ← written, written_map_emptied h.2.2.2.isShort]
      exact h.2.2.1
    exact ⟨hfits, ih h.2.2.2⟩

theorem erase_of_allFit (h : AllFit [] xs) : erase (written xs) = left xs := by
  have herase := erase_segments h
  have hnil : erase [] = [] := by rw [erase, lexemes, List.flatMap_nil]
  rwa [List.append_nil, ← written, ← left, hnil, List.append_nil] at herase

/-- Erasing leaves what is left of each segment. -/
theorem Short.erase_written (h : Short xs) : erase (written xs) = left xs :=
  erase_of_allFit h.allFit

/-- Erasing once more changes nothing. -/
theorem Short.erase_left (h : Short xs) : erase (left xs) = left xs := by
  have herase := erase_of_allFit h.allFit_emptied
  rwa [written_map_emptied h.isShort, left_map_emptied h.isShort] at herase

/-! ### Cutting and joining -/

theorem Short.right (h : Short (xs ++ ys)) : Short ys := by
  induction xs with
  | nil => exact h
  | cons s xs ih => exact ih h.2.2.2

theorem Short.front (h : Short (xs ++ ys)) : Short xs := by
  induction xs with
  | nil => trivial
  | cons s xs ih =>
    rw [List.cons_append, short_cons, written_append, left_append] at h
    obtain ⟨hs, hfits, hleft, hxs⟩ := h
    exact ⟨hs, hfits.of_append hs, hleft.of_append hs.emptied, ih hxs⟩

/-- Segments go on behind a space, whatever they are. -/
theorem Short.join (hx : Short xs) (hy : Short ys) : Short (xs ++ .code ' ' :: ys) := by
  induction xs with
  | nil =>
    have hcode : ∀ after, (Segment.code ' ').Fits after := by
      intro after
      exact ⟨by decide, by decide, fun h => absurd h (by decide), fun h => absurd h (by decide),
        fun h => absurd h (by decide)⟩
    exact ⟨⟨by decide, by decide⟩, hcode _, hcode _, hy⟩
  | cons s xs ih =>
    obtain ⟨hs, hfits, hleft, hxs⟩ := hx
    rw [List.cons_append, short_cons, written_append, left_append]
    exact ⟨hs, hfits.append_cons (by decide) hs (written ys),
      hleft.append_cons (by decide) hs.emptied (left ys), ih hxs⟩

/-! ### Trimming -/

/-- White space. -/
def Segment.isBlank : Segment → Bool
  | code c => Text.isBlank c
  | _ => false

theorem Segment.isBlank_emptied (s : Segment) : s.emptied.isBlank = s.isBlank := by
  cases s <;> rfl

theorem isBlank_of_mem_written (h : ∀ s ∈ xs, s.isBlank = true) :
    ∀ c ∈ written xs, Text.isBlank c = true := by
  intro c hc
  obtain ⟨s, hs, hc⟩ := List.mem_flatMap.1 hc
  have hblank := h s hs
  cases s with
  | code d => rwa [List.mem_singleton.1 hc]
  | _ => exact absurd hblank Bool.false_ne_true

theorem exists_sigil {sigil : Text} (h : sigil ∈ sigils) :
    ∃ c t, sigil = c :: t ∧ (c = '@' ∨ c = '$') := by
  simp only [sigils, List.mem_cons, List.not_mem_nil, or_false] at h
  rcases h with rfl | rfl | rfl
  · exact ⟨_, _, rfl, .inl rfl⟩
  · exact ⟨_, _, rfl, .inr rfl⟩
  · exact ⟨_, _, rfl, .inl rfl⟩

/-- A segment that is no white space begins and ends with none. -/
theorem Segment.IsShort.exists_ends (h : s.IsShort) (hblank : s.isBlank = false) :
    (∃ c t, s.written = c :: t ∧ Text.isBlank c = false) ∧
      ∃ t c, s.written = t ++ [c] ∧ Text.isBlank c = false := by
  cases s with
  | code c => exact ⟨⟨c, [], rfl, hblank⟩, [], c, rfl, hblank⟩
  | quoted mark body =>
    have hmark : Text.isBlank mark = false := by
      rcases h.1 with rfl | rfl
      · decide
      · decide
    exact ⟨⟨mark, body ++ [mark], rfl, hmark⟩, mark :: body, mark, rfl, hmark⟩
  | verbatim sigil body =>
    obtain ⟨c, t, rfl, hc⟩ := exists_sigil h.1
    have hblank : Text.isBlank c = false := by
      rcases hc with rfl | rfl
      · decide
      · decide
    refine ⟨⟨c, t ++ ['"'] ++ body ++ ['"'], rfl, hblank⟩, _, '"', rfl, by decide⟩
  | _ => exact h.elim

/-- Segments with white space neither in front nor behind. -/
structure Framed (xs : List Segment) : Prop where
  isShort : ∀ s ∈ xs, s.IsShort
  first : ∀ s ∈ xs.head?, s.isBlank = false
  last : ∀ s ∈ xs.getLast?, s.isBlank = false

theorem Framed.emptied (h : Framed xs) : Framed (xs.map Segment.emptied) := by
  refine ⟨?_, ?_, ?_⟩
  · intro s hs
    obtain ⟨s, hmem, rfl⟩ := List.mem_map.1 hs
    exact (h.isShort s hmem).emptied
  · intro s hs
    rw [List.head?_map] at hs
    obtain ⟨s, hmem, rfl⟩ := Option.map_eq_some_iff.1 hs
    rw [s.isBlank_emptied]
    exact h.first s hmem
  · intro s hs
    rw [List.getLast?_map] at hs
    obtain ⟨s, hmem, rfl⟩ := Option.map_eq_some_iff.1 hs
    rw [s.isBlank_emptied]
    exact h.last s hmem

/-- Trimming stops at segments that are no white space. -/
theorem Framed.trim_written (h : Framed xs) (hne : xs ≠ []) {front : Text}
    (hfront : ∀ c ∈ front, Text.isBlank c = true) (more : Text) :
    Text.trim (front ++ (written xs ++ more)) = written xs ++ Text.trimRight more := by
  have hleft : Text.trimLeft (front ++ (written xs ++ more)) = written xs ++ more := by
    rw [Text.trimLeft_blanks_append hfront]
    refine Text.trimLeft_eq_self ?_
    obtain ⟨s, rest, rfl⟩ := List.exists_cons_of_ne_nil hne
    obtain ⟨⟨c, t, hs, hc⟩, -⟩ := (h.isShort s List.mem_cons_self).exists_ends (h.first s rfl)
    rw [written_cons, hs]
    intro d hd
    obtain rfl := Option.some.inj hd
    exact hc
  obtain ⟨init, s, rfl⟩ : ∃ init s, xs = init ++ [s] :=
    ⟨_, _, (List.dropLast_append_getLast hne).symm⟩
  have hs : s ∈ init ++ [s] := List.mem_append_right init List.mem_cons_self
  obtain ⟨-, t, c, hlast, hc⟩ := (h.isShort s hs).exists_ends (h.last s List.getLast?_concat)
  have hwritten : written (init ++ [s]) ++ more = (written init ++ t) ++ c :: more := by
    rw [written_append, written_cons, hlast]
    simp
  rw [Text.trim, hleft, hwritten, Text.trimRight_append_cons hc, written_append, written_cons,
    hlast]
  simp

theorem Framed.trim_left (h : Framed xs) (hne : xs ≠ []) {front : Text}
    (hfront : ∀ c ∈ front, Text.isBlank c = true) (more : Text) :
    Text.trim (front ++ (left xs ++ more)) = left xs ++ Text.trimRight more := by
  have htrim := h.emptied.trim_written (mt List.map_eq_nil_iff.1 hne) hfront more
  rwa [written_map_emptied h.isShort] at htrim

/-- White space stands in front of segments and behind them. -/
theorem exists_framed (h : ∀ s ∈ xs, s.IsShort) :
    ∃ front mid back, xs = front ++ (mid ++ back) ∧ (∀ s ∈ front, s.isBlank = true) ∧
      (∀ s ∈ back, s.isBlank = true) ∧ Framed mid := by
  have hsplit : xs = xs.takeWhile Segment.isBlank ++
      ((xs.dropWhile Segment.isBlank).rdropWhile Segment.isBlank ++
        (xs.dropWhile Segment.isBlank).rtakeWhile Segment.isBlank) := by
    rw [List.rdropWhile_append_rtakeWhile, List.takeWhile_append_dropWhile]
  refine ⟨_, _, _, hsplit, fun s hs => List.mem_takeWhile_imp hs,
    fun s hs => List.mem_rtakeWhile_imp hs, ?_, ?_, ?_⟩
  · intro s hs
    have hmem := (List.rdropWhile_prefix Segment.isBlank _).subset hs
    exact h s ((List.dropWhile_suffix Segment.isBlank).subset hmem)
  · intro s hs
    obtain ⟨t, ht⟩ := List.rdropWhile_prefix Segment.isBlank (xs.dropWhile Segment.isBlank)
    have hhead := List.head?_dropWhile_not Segment.isBlank xs
    rw [← ht, List.head?_append, hs] at hhead
    simpa using hhead
  · intro s hs
    obtain ⟨hne, hlast⟩ := List.mem_getLast?_eq_getLast hs
    have hnot := List.rdropWhile_last_not Segment.isBlank _ hne
    rw [← hlast, Bool.not_eq_true] at hnot
    exact hnot

theorem left_of_isBlank (h : ∀ s ∈ xs, s.isBlank = true) : left xs = written xs := by
  induction xs with
  | nil => rfl
  | cons s xs ih =>
    obtain ⟨hs, hxs⟩ := List.forall_mem_cons.1 h
    rw [left_cons, written_cons, ih hxs]
    cases s with
    | code c => rfl
    | _ => exact absurd hs Bool.false_ne_true

/-- White space around segments is trimmed before erasing and behind it. -/
theorem Framed.trim_between {front mid back : List Segment} (h : Framed mid)
    (hfront : ∀ s ∈ front, s.isBlank = true) (hback : ∀ s ∈ back, s.isBlank = true) :
    Text.trim (written (front ++ (mid ++ back))) = written mid ∧
      Text.trim (left (front ++ (mid ++ back))) = left mid := by
  have hfront' := isBlank_of_mem_written hfront
  have hback' := isBlank_of_mem_written hback
  rw [written_append, written_append, left_append, left_append, left_of_isBlank hfront,
    left_of_isBlank hback]
  by_cases hne : mid = []
  · subst hne
    have hall : ∀ c ∈ written front ++ written back, Text.isBlank c = true := by
      simpa [or_imp, forall_and] using ⟨hfront', hback'⟩
    exact ⟨Text.trim_eq_nil hall, Text.trim_eq_nil hall⟩
  · have hnil : Text.trimRight (written back) = [] := by
      have htrim := Text.trimRight_append_blanks hback' []
      rwa [List.nil_append] at htrim
    rw [h.trim_written hne hfront', h.trim_left hne hfront', hnil, List.append_nil,
      List.append_nil]
    exact ⟨rfl, rfl⟩

/-- It is the same segments that trimming leaves before erasing and behind it. -/
theorem Short.exists_trim (h : Short xs) :
    ∃ mid, Short mid ∧ Text.trim (written xs) = written mid ∧ Text.trim (left xs) = left mid := by
  obtain ⟨front, mid, back, rfl, hfront, hback, hmid⟩ := exists_framed h.isShort
  exact ⟨mid, h.right.front, hmid.trim_between hfront hback⟩

end RazorViews.Source
