import RazorViews.Proofs.Member.Beside
import RazorViews.Proofs.Source.Legible

/-!
# Annotations on legible lines

A line keeps its annotations if what erasing leaves of them is the same whether they are read from
the source or from the erased line (`Recovered`).  Legible lines do: those without comments and
longer literals, those on which one begins where no bracket is open, and those into which one
reaches from above.

* `Line.IsLegible.keeps`: a legible line keeps its annotations.
* `legible_join`: so do the lines of an annotation that goes on over several of them, trimmed and
  joined by spaces; for this none of them may hold a comment, or the rest of the annotation would
  become part of it.
* `Line.IsLegible.afterBrace`: what follows the brace of a class on a legible line is legible.  A
  literal in front of the brace may hold others in the source, and then the two lines are not cut at
  the same place; what follows then opens no bracket.

Which lines of source are legible is said in `KeepsOff.legibleLines`, and which lines a scan joins
in `forall₂_recognize_recovered`.
-/

namespace RazorViews.Member

open Source Annotations

/-! ## Annotations without their source -/

/-- Erasing leaves the same of both. -/
def Recovered (read erased : List Text) : Prop := read.map erase = erased.map erase

theorem piecewise_recovered : Piecewise Recovered where
  nil := rfl
  append := by
    intro a b c d hab hcd
    rw [Recovered, List.map_append, List.map_append, hab, hcd]

/-- The line is legible beside its source, if that is at hand. -/
def Line.IsLegible (inner outer : Nat) (l : Line) : Prop :=
  ∀ raw ∈ l.raw, ∃ behind, Legible behind inner outer raw l.erased

variable {behind : Bool} {inner outer : Nat} {raw erased : Text} {l : Line} {xs : List Segment}

theorem keeps_of_none (h : l.raw = none) : l.Keeps Recovered := by
  rw [Line.Keeps, Line.annotations, h]
  rfl

theorem keeps_of_sameGroups (h : SameGroups raw erased) :
    (⟨erased, some raw⟩ : Line).Keeps Recovered := by
  rw [Line.Keeps, annotations_bare, Line.annotations]
  dsimp only
  split
  · exact h.groups
  · rfl

theorem keeps_of_noGroup (h : NoGroup erased) : (⟨erased, some raw⟩ : Line).Keeps Recovered := by
  rw [Line.Keeps, annotations_bare, Line.annotations]
  dsimp only
  split
  · rename_i hsame
    rw [Bool.and_eq_true, beq_iff_eq, h.groups, List.length_nil, List.length_eq_zero_iff] at hsame
    rw [hsame.2, h.groups]
    rfl
  · rfl

/-! ## One line -/

theorem sameGroups_whole (h : Short xs) : SameGroups (written xs) (left xs) := by
  have hsame := @sameGroups xs 0 [] [] h (SameGroups.refl []) (.inl ⟨rfl, rfl⟩)
  rwa [List.append_nil, List.append_nil] at hsame

theorem sameGroups_front {back back' : Text} (h : Short xs) (hopen : opens inner xs = 0)
    (hback : NoGroup back) (hback' : '[' ∉ back') :
    SameGroups (written xs ++ back) (left xs ++ back') :=
  sameGroups h (sameGroups_of_nil ⟨hback.groups, hback.finished⟩
    ⟨(noGroup_of_notMem hback').groups, (noGroup_of_notMem hback').finished⟩) (.inr hopen)

theorem Line.IsLegible.keeps (h : l.IsLegible inner outer) : l.Keeps Recovered := by
  obtain ⟨erased, raw⟩ := l
  cases raw with
  | none => exact keeps_of_none rfl
  | some raw =>
    obtain ⟨behind, hlegible⟩ := h raw rfl
    cases hlegible with
    | whole hxs => exact keeps_of_sameGroups (sameGroups_whole hxs)
    | front hxs hopen hback hback' =>
      exact keeps_of_sameGroups (sameGroups_front hxs hopen hback hback')
    | behind hnone => exact keeps_of_noGroup (noGroup_of_notMem hnone)

/-- A line that leaves an annotation open is without comments altogether, and a bracket is open
behind it. -/
theorem exists_whole (h : Legible behind inner outer raw erased)
    (hopen : (split erased).unfinished = true) :
    ∃ xs, Short xs ∧ raw = written xs ∧ erased = left xs ∧ opens inner xs = outer ∧
      0 < outer := by
  cases h with
  | @whole _ xs hxs =>
    refine ⟨xs, hxs, rfl, rfl, rfl, ?_⟩
    rw [← (sameGroups_whole hxs).unfinished, ← List.append_nil (written xs)] at hopen
    exact opens_pos_of_unfinished hxs.isShort (noGroup_of_notMem List.not_mem_nil).finished hopen _
  | front hxs hzero hback hback' =>
    rw [← (sameGroups_front hxs hzero hback hback').unfinished] at hopen
    have hpos := opens_pos_of_unfinished hxs.isShort hback.finished hopen inner
    rw [hzero] at hpos
    exact absurd hpos (Nat.lt_irrefl 0)
  | behind hnone =>
    rw [(noGroup_of_notMem hnone).finished] at hopen
    exact absurd hopen (by simp)

/-! ## Trimming -/

theorem notMem_trim {t : Text} (h : '[' ∉ t) : '[' ∉ Text.trim t :=
  fun hmem => h ((Text.trim_isInfix t).subset hmem)

/-- Trimming leaves a line legible. -/
theorem legible_trim (h : Legible behind inner outer raw erased) :
    Legible behind inner outer (Text.trim raw) (Text.trim erased) := by
  cases h with
  | @whole _ xs hxs =>
    obtain ⟨front, mid, back, rfl, hfront, hback, hmid⟩ := exists_framed hxs.isShort
    obtain ⟨hwritten, hleft⟩ := hmid.trim_between hfront hback
    rw [hwritten, hleft, opens_append, opens_of_isBlank hfront, opens_append,
      opens_of_isBlank hback]
    exact .whole hxs.right.front
  | @front _ xs more more' hxs hopen hmore hmore' =>
    obtain ⟨front, mid, back, rfl, hfront, hback, hmid⟩ := exists_framed hxs.isShort
    have hfront' := isBlank_of_mem_written hfront
    have hback' := isBlank_of_mem_written hback
    rw [opens_append, opens_of_isBlank hfront, opens_append, opens_of_isBlank hback] at hopen
    rw [written_append, written_append, left_append, left_append, left_of_isBlank hfront,
      left_of_isBlank hback, List.append_assoc, List.append_assoc, List.append_assoc,
      List.append_assoc]
    by_cases hne : mid = []
    · subst hne
      have htrim : ∀ t, Text.trim (written front ++ ([] ++ (written back ++ t))) = Text.trim t := by
        intro t
        rw [Text.trim, Text.trimLeft_blanks_append hfront', List.nil_append,
          Text.trimLeft_blanks_append hback', ← Text.trim]
      rw [written_nil, left_nil, htrim, htrim]
      exact @Legible.front inner [] _ _ trivial hopen hmore.trim (notMem_trim hmore')
    · have hnone : '[' ∉ Text.trimRight (written back ++ more') := by
        intro hmem
        rcases List.mem_append.1 ((List.rdropWhile_prefix _ _).subset hmem) with hmem | hmem
        · exact absurd (hback' _ hmem) (by decide)
        · exact hmore' hmem
      rw [hmid.trim_written hne hfront', hmid.trim_left hne hfront']
      exact .front hxs.right.front hopen (hmore.blank_append hback').trimRight hnone
  | behind hnone => exact .behind (notMem_trim hnone)

theorem eq_nil_of_left (h : Short xs) (hnil : left xs = []) : xs = [] := by
  cases xs with
  | nil => rfl
  | cons s xs =>
    have hs := h.1
    cases s with
    | code c => exact absurd hnil (List.cons_ne_nil _ _)
    | quoted mark body => exact absurd hnil (List.cons_ne_nil _ _)
    | verbatim sigil body =>
      obtain ⟨c, t, rfl, -⟩ := exists_sigil hs.1
      exact absurd hnil (List.cons_ne_nil _ _)
    | _ => exact hs.elim

/-- A line of which nothing is left opens and closes no bracket. -/
theorem outer_eq_of_nil (h : Legible behind inner outer raw []) : outer = inner := by
  generalize hnil : ([] : Text) = erased at h
  cases h with
  | whole hxs =>
    rw [eq_nil_of_left hxs hnil.symm]
    rfl
  | front hxs hopen hback hback' =>
    rw [eq_nil_of_left hxs (List.append_eq_nil_iff.1 hnil.symm).1] at hopen
    exact hopen.symm
  | behind hnone => rfl

/-! ## Behind the brace of a class -/

theorem exists_of_append_brace {marks more front after : Text} (hmarks : '{' ∉ marks)
    (h : marks ++ more = front ++ '{' :: after) :
    ∃ front', front = marks ++ front' ∧ more = front' ++ '{' :: after := by
  rcases List.append_eq_append_iff.1 h with ⟨front', hfront, hmore⟩ | ⟨back, rfl, hback⟩
  · exact ⟨front', hfront, hmore⟩
  · cases back with
    | nil => exact ⟨[], by simp, hback.symm⟩
    | cons c back =>
      obtain ⟨rfl, -⟩ := List.cons.inj hback
      exact absurd (List.mem_append_right front List.mem_cons_self) hmarks

/-- A literal stands in front of the brace in both texts, and the text in front of the brace is the
same only if nothing stands inside the literal. -/
theorem literal_before_brace {s : Segment} {front more more' rawAfter after : Text} (hs : s.IsShort)
    (hliteral : ∀ c, s ≠ .code c) (hraw : s.written ++ more = front ++ '{' :: rawAfter)
    (herased : s.left ++ more' = front ++ '{' :: after) :
    ∃ front', more = front' ++ '{' :: rawAfter ∧ more' = front' ++ '{' :: after := by
  cases s with
  | code c => exact absurd rfl (hliteral c)
  | quoted mark body =>
    have hmarks : '{' ∉ [mark, mark] := by
      rcases hs.1 with rfl | rfl
      · decide
      · decide
    obtain ⟨front, rfl, hrest⟩ := exists_of_append_brace hmarks herased
    have hinside : body ++ mark :: more = mark :: (front ++ '{' :: rawAfter) := by
      simpa [Segment.written] using hraw
    cases hs.2 with
    | nil => exact ⟨front, (List.cons.inj hinside).2, hrest⟩
    | plain hne => exact absurd (List.cons.inj hinside).1 hne
    | escape =>
      have hback : '\\' = mark := (List.cons.inj hinside).1
      rcases hs.1 with rfl | rfl
      · exact absurd hback (by decide)
      · exact absurd hback (by decide)
  | verbatim sigil body =>
    have hmarks : ∀ sigil ∈ sigils, '{' ∉ sigil ++ ['"', '"'] := by decide
    rw [hs.left_verbatim] at herased
    obtain ⟨front, rfl, hrest⟩ := exists_of_append_brace (hmarks sigil hs.1) herased
    have hinside : body ++ '"' :: more = '"' :: (front ++ '{' :: rawAfter) := by
      simpa [Segment.written] using hraw
    cases body with
    | nil => exact ⟨front, (List.cons.inj hinside).2, hrest⟩
    | cons c body => exact absurd (congrArg some (List.cons.inj hinside).1) hs.2.2
  | _ => exact hs.elim

theorem cut_brace {front back back' rawAfter after : Text} (h : ∀ s ∈ xs, s.IsShort)
    (hraw : written xs ++ back = front ++ '{' :: rawAfter)
    (herased : left xs ++ back' = front ++ '{' :: after) :
    (∃ ys zs, xs = ys ++ .code '{' :: zs ∧ rawAfter = written zs ++ back ∧
      after = left zs ++ back') ∨ ∃ mid, back' = mid ++ '{' :: after := by
  induction xs generalizing front with
  | nil => exact .inr ⟨front, herased⟩
  | cons s xs ih =>
    obtain ⟨hs, hxs⟩ := List.forall_mem_cons.1 h
    rw [written_cons, List.append_assoc] at hraw
    rw [left_cons, List.append_assoc] at herased
    have hgoesOn : ∀ front', written xs ++ back = front' ++ '{' :: rawAfter →
        left xs ++ back' = front' ++ '{' :: after →
        (∃ ys zs, s :: xs = ys ++ .code '{' :: zs ∧ rawAfter = written zs ++ back ∧
          after = left zs ++ back') ∨ ∃ mid, back' = mid ++ '{' :: after := by
      intro front' hraw herased
      refine (ih hxs hraw herased).imp_left ?_
      rintro ⟨ys, zs, rfl, hparts⟩
      exact ⟨s :: ys, zs, rfl, hparts⟩
    by_cases hcode : ∃ c, s = .code c
    · obtain ⟨c, rfl⟩ := hcode
      cases front with
      | nil =>
        obtain ⟨rfl, rfl⟩ := List.cons.inj hraw
        obtain ⟨-, rfl⟩ := List.cons.inj herased
        exact .inl ⟨[], xs, rfl, rfl, rfl⟩
      | cons d front => exact hgoesOn front (List.cons.inj hraw).2 (List.cons.inj herased).2
    · obtain ⟨front', hraw, herased⟩ :=
        literal_before_brace hs (fun c hc => hcode ⟨c, hc⟩) hraw herased
      exact hgoesOn front' hraw herased

theorem legible_brace {front rawAfter after : Text}
    (h : Legible behind inner outer (front ++ '{' :: rawAfter) (front ++ '{' :: after)) :
    ∃ behind' inner', Legible behind' inner' outer rawAfter after := by
  generalize hraw : front ++ '{' :: rawAfter = raw at h
  generalize herased : front ++ '{' :: after = erased at h
  cases h with
  | @whole _ xs hxs =>
    rw [← List.append_nil (written xs)] at hraw
    rw [← List.append_nil (left xs)] at herased
    rcases cut_brace hxs.isShort hraw.symm herased.symm with ⟨ys, zs, rfl, rfl, rfl⟩ | ⟨mid, hmid⟩
    · rw [List.append_nil, List.append_nil, opens_append, opens_cons]
      exact ⟨_, _, .whole hxs.right.2.2.2⟩
    · exact absurd hmid (by simp)
  | @front _ xs back back' hxs hopen hback hback' =>
    rcases cut_brace hxs.isShort hraw.symm herased.symm with ⟨ys, zs, rfl, rfl, rfl⟩ | ⟨mid, rfl⟩
    · rw [opens_append, opens_cons] at hopen
      exact ⟨_, _, .front hxs.right.2.2.2 hopen hback hback'⟩
    · exact ⟨_, _, .behind fun hmem => hback' (by simp [hmem])⟩
  | behind hnone =>
    rw [← herased] at hnone
    exact ⟨_, _, .behind fun hmem => hnone (by simp [hmem])⟩

theorem Line.IsLegible.afterBrace {rest : Line} (h : l.IsLegible inner outer)
    (hrest : l.afterBrace? = some rest) : ∃ inner', rest.IsLegible inner' outer := by
  obtain ⟨⟨front, after⟩, hcut, rfl⟩ := Option.map_eq_some_iff.1 hrest
  obtain ⟨herased, -⟩ := cutAtBrace?_eq_some_iff.1 hcut
  cases hraw : l.raw.bind cutAtBrace? with
  | none => exact ⟨0, by simp [Line.IsLegible]⟩
  | some parts =>
    obtain ⟨rawFront, rawAfter⟩ := parts
    obtain ⟨raw, hsome, hcut⟩ := Option.bind_eq_some_iff.1 hraw
    obtain ⟨rfl, -⟩ := cutAtBrace?_eq_some_iff.1 hcut
    by_cases hfront : rawFront = front
    · subst hfront
      obtain ⟨behind, hlegible⟩ := h _ hsome
      rw [herased] at hlegible
      obtain ⟨behind', inner', hafter⟩ := legible_brace hlegible
      refine ⟨inner', ?_⟩
      intro raw' hraw'
      obtain rfl : Text.trim rawAfter = raw' := by simpa [hraw] using hraw'
      exact ⟨behind', legible_trim hafter⟩
    · exact ⟨0, by simp [Line.IsLegible, hfront]⟩

/-! ## Lines joined -/

/-- A legible line goes on where an annotation is open. -/
theorem legible_join {start : Nat} (h : Short xs) (hopen : 0 < opens start xs)
    (hl : Legible behind (opens start xs) outer raw erased) :
    Legible false start outer (written xs ++ ' ' :: raw) (left xs ++ ' ' :: erased) := by
  generalize hinner : opens start xs = inner at hopen hl
  cases hl with
  | @whole _ ys hys =>
    have hjoin := @Legible.whole start _ (h.join hys)
    rw [opens_append, hinner, written_append, left_append] at hjoin
    exact hjoin
  | @front _ ys back back' hys hzero hback hback' =>
    have hzero' : opens start (xs ++ .code ' ' :: ys) = 0 := by
      rw [opens_append, hinner]
      exact hzero
    have hjoin := Legible.front (h.join hys) hzero' hback hback'
    rw [written_append, left_append, List.append_assoc, List.append_assoc] at hjoin
    exact hjoin
  | behind hnone => exact absurd hopen (Nat.lt_irrefl 0)

end RazorViews.Member
