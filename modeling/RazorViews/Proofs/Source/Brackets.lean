import RazorViews.Proofs.Source.Balanced
import RazorViews.Proofs.Source.Short

/-!
# Groups in source without comments

In source without comments and longer literals a group ends at the same bracket before erasing and
behind it, since no bracket inside a literal counts (`closeGroup_written`).  So a line of such
source is divided into the same groups both times, and a group that was erased is the erased group:
`sameGroups`.  What follows on the line may be something else, a comment for one, if no bracket is
open in front of it.

Which brackets are open behind some source is counted by its segments (`opens`), and not by its
characters: a bracket counts if it is a segment of its own.  The scanner of brackets works on
characters and has its own notion of quotes; that both agree on source of this kind is what the
middle part is about, one kind of segment at a time (`closeGroup_segment`).

A line is gone through group by group, and the ways in which it can begin are four
(`frontInduction`): white space altogether, or behind white space a group, a group that is left
open, or something that is no group.
-/

namespace RazorViews.Source

open Annotations

/-! ## Brackets -/

/-- How many brackets are open behind a segment. -/
def Segment.opens (inner : Nat) : Segment → Nat
  | code c => if c = '[' then inner + 1 else if c = ']' then inner - 1 else inner
  | _ => inner

/-- How many brackets are open behind several segments. -/
def opens (inner : Nat) (xs : List Segment) : Nat := xs.foldl Segment.opens inner

/-- The segments of a group, `inner` further brackets being open, and those behind the bracket that
closes it. -/
def close : (inner : Nat) → List Segment → Option (List Segment × List Segment)
  | _, [] => none
  | inner, s :: xs =>
    if s = .code ']' ∧ inner = 0 then some ([], xs)
    else (close (s.opens inner) xs).map fun (body, after) => (s :: body, after)

variable {s : Segment} {xs front inside body after : List Segment} {inner : Nat}

@[simp]
theorem opens_nil : opens inner [] = inner := rfl

@[simp]
theorem opens_cons : opens inner (s :: xs) = opens (s.opens inner) xs := rfl

@[simp]
theorem opens_append (ys : List Segment) : opens inner (xs ++ ys) = opens (opens inner xs) ys :=
  List.foldl_append

theorem opens_of_isBlank (h : ∀ s ∈ xs, s.isBlank = true) : opens inner xs = inner := by
  induction xs generalizing inner with
  | nil => rfl
  | cons s xs ih =>
    obtain ⟨hs, hxs⟩ := List.forall_mem_cons.1 h
    rw [opens_cons, ih hxs]
    cases s with
    | code c =>
      have hopen : c ≠ '[' := by
        rintro rfl
        exact absurd hs (by decide)
      have hclose : c ≠ ']' := by
        rintro rfl
        exact absurd hs (by decide)
      rw [Segment.opens, if_neg hopen, if_neg hclose]
    | _ => rfl

theorem opens_bracket (hfront : ∀ s ∈ front, s.isBlank = true) (inside : List Segment) :
    opens inner (front ++ .code '[' :: inside) = opens (0 + (inner + 1)) inside := by
  rw [opens_append, opens_of_isBlank hfront, opens_cons, Segment.opens, if_pos rfl, Nat.zero_add]

theorem Segment.opens_zero (h : s ≠ .code '[') : s.opens 0 = 0 := by
  cases s with
  | code c =>
    have hc : c ≠ '[' := fun hc => h (congrArg Segment.code hc)
    rw [Segment.opens, if_neg hc]
    split
    · rfl
    · rfl
  | _ => rfl

/-- What a segment does to the brackets that are open it does to any greater number of them, unless
it closes the last one. -/
theorem Segment.opens_add (h : ¬ (s = .code ']' ∧ inner = 0)) (outer : Nat) :
    s.opens (inner + outer) = s.opens inner + outer := by
  cases s with
  | code c =>
    rw [opens, opens]
    split
    · omega
    · split
      · rename_i hc
        have hinner : inner ≠ 0 := fun hinner => h ⟨by rw [hc], hinner⟩
        omega
      · rfl
  | _ => rfl

/-- Where a group is not closed its brackets stay open. -/
theorem opens_of_close_eq_none (h : close inner xs = none) (outer : Nat) :
    outer ≤ opens (inner + outer) xs := by
  induction xs generalizing inner with
  | nil => exact Nat.le_add_left outer inner
  | cons s xs ih =>
    rw [close] at h
    split at h
    · exact absurd h (by simp)
    · rename_i hs
      rw [opens_cons, Segment.opens_add hs]
      exact ih (Option.map_eq_none_iff.1 h)

/-- Behind a group that is closed the brackets in front of it are open. -/
theorem opens_of_close_eq_some (h : close inner xs = some (body, after)) (outer : Nat) :
    opens (inner + (outer + 1)) xs = opens outer after := by
  induction xs generalizing inner body with
  | nil => exact absurd h (by simp [close])
  | cons s xs ih =>
    rw [close] at h
    split at h
    · rename_i hs
      obtain ⟨rfl, rfl⟩ := hs
      obtain ⟨-, rfl⟩ := Prod.mk.inj (Option.some.inj h)
      rw [opens_cons, Segment.opens, Nat.zero_add]
      rfl
    · rename_i hs
      obtain ⟨⟨body', after'⟩, hclose, hparts⟩ := Option.map_eq_some_iff.1 h
      obtain ⟨-, rfl⟩ := Prod.mk.inj hparts
      rw [opens_cons, Segment.opens_add hs]
      exact ih hclose

theorem eq_of_close (h : close inner xs = some (body, after)) :
    xs = body ++ .code ']' :: after := by
  induction xs generalizing inner body with
  | nil => exact absurd h (by simp [close])
  | cons s xs ih =>
    rw [close] at h
    split at h
    · rename_i hs
      obtain ⟨rfl, rfl⟩ := Prod.mk.inj (Option.some.inj h)
      rw [hs.1]
      rfl
    · obtain ⟨⟨body', after'⟩, hclose, hparts⟩ := Option.map_eq_some_iff.1 h
      obtain ⟨rfl, rfl⟩ := Prod.mk.inj hparts
      rw [ih hclose]
      rfl

theorem close_emptied (inner : Nat) (xs : List Segment) :
    close inner (xs.map Segment.emptied) = (close inner xs).map fun (body, after) =>
      (body.map Segment.emptied, after.map Segment.emptied) := by
  induction xs generalizing inner with
  | nil => rfl
  | cons s xs ih =>
    have hs : s.emptied.opens inner = s.opens inner ∧ (s.emptied = .code ']' ↔ s = .code ']') := by
      cases s with
      | code c => exact ⟨rfl, Iff.rfl⟩
      | _ => exact ⟨rfl, by simp [Segment.emptied]⟩
    rw [List.map_cons, close, close, hs.1, ih]
    by_cases hclose : s = .code ']' ∧ inner = 0
    · rw [if_pos hclose, if_pos ⟨hs.2.2 hclose.1, hclose.2⟩]
      rfl
    · rw [if_neg hclose, if_neg fun h => hclose ⟨hs.2.1 h.1, h.2⟩, Option.map_map, Option.map_map]
      rfl

/-! ## Groups as they are written -/

theorem inQuotes_of_quotedBody {mark : Char} {body : Text} (h : QuotedBody mark body) :
    InQuotes mark body := by
  induction h with
  | nil => exact .nil
  | plain hne hback _ _ ih => exact .plain hne hback ih
  | escape _ _ ih => exact .escape ih

theorem closeGroup_scanned {body : Text} (h : isScanned body = true) (inner : Nat) (rest : Text) :
    closeGroup inner (some '"') (body ++ '"' :: rest) =
      (closeGroup inner none rest).map fun (group, after) => (body ++ '"' :: group, after) := by
  revert h
  fun_induction isScanned body with
  | case1 => simp [closeGroup]
  | case2 body ih =>
    -- the second of two quotes begins a literal again
    intro h
    simp [closeGroup, closeGroup_cons, ih h, Function.comp_def]
  | case3 c body ih =>
    intro h
    simp only [Bool.and_eq_true] at h
    simp [closeGroup, ih h.2, Function.comp_def]
  | case4 c body _ _ ih =>
    intro h
    simp only [Bool.and_eq_true, bne_iff_ne] at h
    simp [closeGroup, h.1.1.1, h.1.1.2, ih h.2, Function.comp_def]

theorem closeGroup_sigil {sigil : Text} (h : sigil ∈ sigils) (inner : Nat) (rest : Text) :
    closeGroup inner none (sigil ++ '"' :: rest) =
      (closeGroup inner (some '"') rest).map fun (group, after) =>
        (sigil ++ '"' :: group, after) := by
  simp only [sigils, List.mem_cons, List.not_mem_nil, or_false] at h
  rcases h with rfl | rfl | rfl
  · simp [closeGroup_cons, Function.comp_def]
  · simp [closeGroup_cons, Function.comp_def]
  · simp [closeGroup_cons, Function.comp_def]

theorem closeGroup_segment (hs : s.IsShort) (inner : Nat) (rest : Text) :
    closeGroup inner none (s.written ++ rest) =
      if s = .code ']' ∧ inner = 0 then some ([], rest)
      else (closeGroup (s.opens inner) none rest).map fun (group, after) =>
        (s.written ++ group, after) := by
  cases s with
  | code c =>
    obtain ⟨hquote, hmark⟩ := hs
    rw [Segment.written, List.singleton_append]
    by_cases hc : c = ']'
    · subst hc
      cases inner with
      | zero => rfl
      | succ inner => simp [closeGroup, Segment.opens]
    · have hnot : ¬ (Segment.code c = .code ']' ∧ inner = 0) := by simp [hc]
      rw [closeGroup_cons hc, if_neg (not_or_intro hquote hmark), if_neg hnot, Segment.opens,
        if_neg hc]
      rfl
  | quoted mark body =>
    obtain ⟨hmark, hbody⟩ := hs
    have hne : mark ≠ ']' ∧ mark ≠ '[' ∧ mark ≠ '\\' := by
      rcases hmark with rfl | rfl
      · decide
      · decide
    have hwritten :
        (Segment.quoted mark body).written ++ rest = mark :: (body ++ mark :: rest) := by
      simp [Segment.written]
    have hnot : ¬ (Segment.quoted mark body = .code ']' ∧ inner = 0) := by simp
    rw [hwritten, closeGroup_cons hne.1, if_neg hne.2.1, if_pos hmark,
      closeGroup_inQuotes hne.2.2 (inQuotes_of_quotedBody hbody), if_neg hnot, Option.map_map]
    simp [Segment.written, Segment.opens, Function.comp_def]
  | verbatim sigil body =>
    obtain ⟨hsigil, hbody, -⟩ := hs
    have hwritten : (Segment.verbatim sigil body).written ++ rest =
        sigil ++ '"' :: (body ++ '"' :: rest) := by
      simp [Segment.written]
    have hnot : ¬ (Segment.verbatim sigil body = .code ']' ∧ inner = 0) := by simp
    rw [hwritten, closeGroup_sigil hsigil, closeGroup_scanned hbody, if_neg hnot, Option.map_map]
    simp [Segment.written, Segment.opens, Function.comp_def]
  | _ => exact hs.elim

/-- A group in source without comments ends at the bracket that closes it. -/
theorem closeGroup_written (h : ∀ s ∈ xs, s.IsShort) (hclose : close inner xs = some (body, after))
    (more : Text) :
    closeGroup inner none (written xs ++ more) = some (written body, written after ++ more) := by
  induction xs generalizing inner body with
  | nil => exact absurd hclose (by simp [close])
  | cons s xs ih =>
    obtain ⟨hs, hxs⟩ := List.forall_mem_cons.1 h
    rw [written_cons, List.append_assoc, closeGroup_segment hs]
    rw [close] at hclose
    split at hclose
    · obtain ⟨rfl, rfl⟩ := Prod.mk.inj (Option.some.inj hclose)
      rw [if_pos ‹_›]
      rfl
    · obtain ⟨⟨body', after'⟩, hrest, hparts⟩ := Option.map_eq_some_iff.1 hclose
      obtain ⟨rfl, rfl⟩ := Prod.mk.inj hparts
      rw [if_neg ‹_›, ih hxs hrest]
      rfl

theorem closeGroup_written_open (h : ∀ s ∈ xs, s.IsShort) (hclose : close inner xs = none) :
    closeGroup inner none (written xs) = none := by
  induction xs generalizing inner with
  | nil => simp [closeGroup]
  | cons s xs ih =>
    obtain ⟨hs, hxs⟩ := List.forall_mem_cons.1 h
    rw [written_cons, closeGroup_segment hs]
    rw [close] at hclose
    split at hclose
    · exact absurd hclose (by simp)
    · rw [if_neg ‹_›, ih hxs (Option.map_eq_none_iff.1 hclose)]
      rfl

/-! ## The groups in front of a line -/

/-- The ways in which source without comments begins: it is white space altogether, or white space
stands in front of a group, of a group that is left open, or of something else. -/
theorem frontInduction {motive : List Segment → Prop}
    (blank : ∀ front, (∀ s ∈ front, s.isBlank = true) → motive front)
    (group : ∀ front inside body after, (∀ s ∈ front, s.isBlank = true) →
      close 0 inside = some (body, after) → motive after →
      motive (front ++ .code '[' :: inside))
    (unclosed : ∀ front inside, (∀ s ∈ front, s.isBlank = true) → close 0 inside = none →
      motive (front ++ .code '[' :: inside))
    (other : ∀ front s rest, (∀ s ∈ front, s.isBlank = true) → s.isBlank = false →
      s ≠ .code '[' → motive (front ++ s :: rest)) (xs : List Segment) : motive xs := by
  induction hn : xs.length using Nat.strongRecOn generalizing xs with
  | ind n ih =>
    subst hn
    have hsplit := List.takeWhile_append_dropWhile (p := Segment.isBlank) (l := xs)
    have hfront : ∀ s ∈ xs.takeWhile Segment.isBlank, s.isBlank = true :=
      fun s hs => List.mem_takeWhile_imp hs
    have hhead := List.head?_dropWhile_not Segment.isBlank xs
    rw [← hsplit]
    cases hrest : xs.dropWhile Segment.isBlank with
    | nil =>
      rw [List.append_nil]
      exact blank _ hfront
    | cons s rest =>
      rw [hrest] at hhead hsplit
      by_cases hs : s = .code '['
      · subst hs
        cases hclose : close 0 rest with
        | none => exact unclosed _ rest hfront hclose
        | some parts =>
          obtain ⟨body, after⟩ := parts
          refine group _ rest body after hfront hclose (ih after.length ?_ after rfl)
          rw [← hsplit, eq_of_close hclose]
          simp only [List.length_append, List.length_cons]
          omega
      · exact other _ s rest hfront (by simpa using hhead) hs

variable {more : Text}

theorem split_blank (hfront : ∀ s ∈ front, s.isBlank = true) (more : Text) :
    split (written front ++ more) = split more :=
  split_blanks_append (isBlank_of_mem_written hfront) more

theorem trimLeft_bracket (t : Text) : Text.trimLeft ('[' :: t) = '[' :: t :=
  List.dropWhile_cons_of_neg (by decide)

theorem split_written_group (hfront : ∀ s ∈ front, s.isBlank = true)
    (h : ∀ s ∈ inside, s.IsShort) (hclose : close 0 inside = some (body, after)) (more : Text) :
    split (written (front ++ .code '[' :: inside) ++ more) =
      (split (written after ++ more)).withGroup (written body) := by
  rw [written_append, List.append_assoc, split_blank hfront]
  exact split_group (trimLeft_bracket _) (closeGroup_written h hclose more)

theorem split_written_unclosed (hfront : ∀ s ∈ front, s.isBlank = true)
    (h : ∀ s ∈ inside, s.IsShort) (hclose : close 0 inside = none) :
    (split (written (front ++ .code '[' :: inside))).groups = [] ∧
      (split (written (front ++ .code '[' :: inside))).unfinished = true := by
  have hsplit : split (written (.code '[' :: inside)) =
      ⟨[], Text.trim ('[' :: written inside), true⟩ :=
    split_open (trimLeft_bracket _) (closeGroup_written_open h hclose)
  rw [written_append, split_blank hfront, hsplit]
  exact ⟨rfl, rfl⟩

theorem Segment.IsShort.head_ne (h : s.IsShort) (hother : s ≠ .code '[') :
    ∀ c ∈ s.written.head?, c ≠ '[' := by
  intro c hc
  cases s with
  | code d =>
    rintro rfl
    exact hother (congrArg Segment.code (Option.some.inj hc))
  | quoted mark body =>
    obtain rfl : mark = c := Option.some.inj hc
    rcases h.1 with rfl | rfl
    · decide
    · decide
  | verbatim sigil body =>
    obtain ⟨d, t, rfl, hd⟩ := exists_sigil h.1
    obtain rfl : d = c := Option.some.inj hc
    rcases hd with rfl | rfl
    · decide
    · decide
  | _ => exact h.elim

theorem split_written_other (hfront : ∀ s ∈ front, s.isBlank = true) (hs : s.IsShort)
    (hblank : s.isBlank = false) (hother : s ≠ .code '[') (rest : List Segment) (more : Text) :
    (split (written (front ++ s :: rest) ++ more)).groups = [] ∧
      (split (written (front ++ s :: rest) ++ more)).unfinished = false := by
  obtain ⟨⟨c, t, hwritten, hc⟩, -⟩ := hs.exists_ends hblank
  have hopen := hs.head_ne hother c (by rw [hwritten]; rfl)
  have hline : Text.trimLeft (c :: (t ++ (written rest ++ more))) =
      c :: (t ++ (written rest ++ more)) := Text.trimLeft_eq_self (by simpa using hc)
  have hhead : (Text.trimLeft (c :: (t ++ (written rest ++ more)))).head? ≠ some '[' := by
    rw [hline]
    simpa using hopen
  rw [written_append, List.append_assoc, split_blank hfront, written_cons, hwritten,
    List.append_assoc, List.cons_append, split_noGroup hhead]
  exact ⟨rfl, rfl⟩

/-! ### Behind erasing -/

theorem left_blank_append (hfront : ∀ s ∈ front, s.isBlank = true) (h : ∀ s ∈ xs, s.IsShort) :
    left (front ++ xs) = written (front ++ xs.map Segment.emptied) := by
  rw [left_append, left_of_isBlank hfront, ← written_map_emptied h, written_append]

theorem isShort_map_emptied (h : ∀ s ∈ xs, s.IsShort) :
    ∀ s ∈ xs.map Segment.emptied, s.IsShort := by
  intro s hs
  obtain ⟨s, hmem, rfl⟩ := List.mem_map.1 hs
  exact (h s hmem).emptied

theorem split_left_group (hfront : ∀ s ∈ front, s.isBlank = true)
    (h : ∀ s ∈ .code '[' :: inside, s.IsShort) (hclose : close 0 inside = some (body, after))
    (more : Text) :
    split (left (front ++ .code '[' :: inside) ++ more) =
      (split (left after ++ more)).withGroup (left body) := by
  have hclose' : close 0 (inside.map Segment.emptied) =
      some (body.map Segment.emptied, after.map Segment.emptied) := by
    rw [close_emptied, hclose]
    rfl
  have hinside := (List.forall_mem_cons.1 h).2
  have hparts := hinside
  rw [eq_of_close hclose, List.forall_mem_append, List.forall_mem_cons] at hparts
  rw [left_blank_append hfront h, List.map_cons, ← written_map_emptied hparts.1,
    ← written_map_emptied hparts.2.2]
  exact split_written_group hfront (isShort_map_emptied hinside) hclose' more

theorem split_left_unclosed (hfront : ∀ s ∈ front, s.isBlank = true)
    (h : ∀ s ∈ .code '[' :: inside, s.IsShort) (hclose : close 0 inside = none) :
    (split (left (front ++ .code '[' :: inside))).groups = [] ∧
      (split (left (front ++ .code '[' :: inside))).unfinished = true := by
  have hclose' : close 0 (inside.map Segment.emptied) = none := by
    rw [close_emptied, hclose]
    rfl
  rw [left_blank_append hfront h, List.map_cons]
  exact split_written_unclosed hfront (isShort_map_emptied (List.forall_mem_cons.1 h).2) hclose'

theorem split_left_other {rest : List Segment} (hfront : ∀ s ∈ front, s.isBlank = true)
    (h : ∀ x ∈ s :: rest, x.IsShort) (hblank : s.isBlank = false) (hother : s ≠ .code '[')
    (more : Text) :
    (split (left (front ++ s :: rest) ++ more)).groups = [] ∧
      (split (left (front ++ s :: rest) ++ more)).unfinished = false := by
  have hother' : s.emptied ≠ .code '[' := by
    cases s with
    | code c => exact hother
    | _ => simp [Segment.emptied]
  rw [left_blank_append hfront h, List.map_cons]
  exact split_written_other hfront (h s List.mem_cons_self).emptied
    (s.isBlank_emptied.trans hblank) hother' _ more

/-! ## Before erasing and behind it -/

/-- A line of source has the groups of an erased line, and it is these that erasing leaves. -/
structure SameGroups (raw erased : Text) : Prop where
  unfinished : (split raw).unfinished = (split erased).unfinished
  groups : (split raw).groups.map erase = (split erased).groups.map erase

theorem SameGroups.refl (t : Text) : SameGroups t t := ⟨rfl, rfl⟩

theorem sameGroups_of_nil {raw erased : Text} {unfinished : Bool}
    (h : (split raw).groups = [] ∧ (split raw).unfinished = unfinished)
    (h' : (split erased).groups = [] ∧ (split erased).unfinished = unfinished) :
    SameGroups raw erased :=
  ⟨h.2.trans h'.2.symm, by rw [h.1, h'.1]⟩

theorem isEmpty_written (h : Short xs) : (written xs).isEmpty = (left xs).isEmpty := by
  cases xs with
  | nil => rfl
  | cons s xs =>
    have hs := h.1
    cases s with
    | code c => rfl
    | quoted mark body => rfl
    | verbatim sigil body =>
      obtain ⟨c, t, rfl, -⟩ := exists_sigil hs.1
      rfl
    | _ => exact hs.elim

/-- One more group of source without comments in front. -/
theorem SameGroups.withGroup {raw erased : Text} (h : SameGroups raw erased) (hbody : Short body) :
    ((split raw).withGroup (written body)).unfinished =
        ((split erased).withGroup (left body)).unfinished ∧
      ((split raw).withGroup (written body)).groups.map erase =
        ((split erased).withGroup (left body)).groups.map erase := by
  obtain ⟨mid, hmid, hwritten, hleft⟩ := hbody.exists_trim
  rw [(withGroup_rest _ _).2, (withGroup_rest _ _).2, Split.withGroup, Split.withGroup, hwritten,
    hleft, isEmpty_written hmid]
  refine ⟨h.unfinished, ?_⟩
  split
  · exact h.groups
  · rw [List.map_cons, List.map_cons, hmid.erase_written, hmid.erase_left, h.groups]

/-- Source without comments has the same groups before erasing and behind it, and so has a line that
goes on with something else behind it, if no bracket is open there. -/
theorem sameGroups {more more' : Text} (h : Short xs) (hmore : SameGroups more more')
    (hopen : more = [] ∧ more' = [] ∨ opens inner xs = 0) :
    SameGroups (written xs ++ more) (left xs ++ more') := by
  induction xs using frontInduction with
  | blank front hfront =>
    rw [left_of_isBlank hfront]
    refine ⟨?_, ?_⟩
    · rw [split_blank hfront, split_blank hfront, hmore.unfinished]
    · rw [split_blank hfront, split_blank hfront, hmore.groups]
  | group front inside body after hfront hclose ih =>
    have hinside := h.right.2.2.2
    have hshort := hinside.isShort
    have hafter := opens_of_close_eq_some hclose inner
    rw [opens_bracket hfront, hafter] at hopen
    rw [eq_of_close hclose] at hinside
    have hsame := (ih hinside.right.2.2.2 hopen).withGroup hinside.front
    rw [← split_written_group hfront hshort hclose,
      ← split_left_group hfront h.right.isShort hclose] at hsame
    exact ⟨hsame.1, hsame.2⟩
  | unclosed front inside hfront hclose =>
    rcases hopen with ⟨rfl, rfl⟩ | hopen
    · rw [List.append_nil, List.append_nil]
      exact sameGroups_of_nil (split_written_unclosed hfront h.right.2.2.2.isShort hclose)
        (split_left_unclosed hfront h.right.isShort hclose)
    · have hpos := opens_of_close_eq_none hclose (inner + 1)
      rw [opens_bracket hfront] at hopen
      omega
  | other front s rest hfront hblank hother =>
    have hshort := h.right.isShort
    exact sameGroups_of_nil
      (split_written_other hfront (hshort s List.mem_cons_self) hblank hother rest more)
      (split_left_other hfront hshort hblank hother more')

/-- Behind a line that is divided into groups of which the last one is left open, a bracket is
open. -/
theorem opens_pos_of_unfinished {more : Text} (h : ∀ s ∈ xs, s.IsShort)
    (hmore : (split more).unfinished = false)
    (hopen : (split (written xs ++ more)).unfinished = true) (inner : Nat) :
    0 < opens inner xs := by
  induction xs using frontInduction with
  | blank front hfront =>
    rw [split_blank hfront, hmore] at hopen
    exact absurd hopen (by simp)
  | group front inside body after hfront hclose ih =>
    rw [List.forall_mem_append, List.forall_mem_cons] at h
    have hinside := h.2.2
    rw [split_written_group hfront hinside hclose, (withGroup_rest _ _).2] at hopen
    rw [eq_of_close hclose, List.forall_mem_append, List.forall_mem_cons] at hinside
    have hafter := opens_of_close_eq_some hclose inner
    rw [opens_bracket hfront, hafter]
    exact ih hinside.2.2 hopen
  | unclosed front inside hfront hclose =>
    have hpos := opens_of_close_eq_none hclose (inner + 1)
    rw [opens_bracket hfront]
    exact Nat.zero_lt_of_lt hpos
  | other front s rest hfront hblank hother =>
    have hs : s.IsShort := h s (by simp)
    rw [(split_written_other hfront hs hblank hother rest more).2] at hopen
    exact absurd hopen (by simp)

end RazorViews.Source
