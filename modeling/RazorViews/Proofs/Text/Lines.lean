import RazorViews.Text.Basic

/-!
# Lines of a text

A text is cut at line feeds only, so a text that ends a line is cut independently of what follows
it: `lines_append`.  Written line by line, a text has just these lines: `lines_cons`.

The number of a line is the number of line feeds in front of it: `getElem?_lines` goes from a
stretch without a line feed to the line that it stands on, and `exists_of_getElem?_lines` from the
number of a line to where it stands.  A text that ends with a line feed has one more line behind it,
which is empty; so the number of lines is one more than the number of line feeds, always
(`length_lines`).
-/

namespace RazorViews.Text

/-- The text ends with a line feed, if it does not end at once. -/
def EndsLine (t : Text) : Prop := t = [] ∨ t.getLast? = some '\n'

/-! ## Cutting at a separator -/

variable {sep : Char} {t : Text}

theorem splitAt_ne_nil : splitAt sep t ≠ [] := by
  cases t with
  | nil => simp [splitAt]
  | cons c t =>
    rw [splitAt]
    split
    · simp
    · split <;> simp

theorem splitAt_cons_sep : splitAt sep (sep :: t) = [] :: splitAt sep t := by
  rw [splitAt]
  split
  · rename_i h
    exact absurd h splitAt_ne_nil
  · rename_i h
    simp [h]

theorem splitAt_cons_of_ne {c : Char} (hc : c ≠ sep) :
    splitAt sep (c :: t) = (splitAt sep t).modifyHead (c :: ·) := by
  rw [splitAt]
  split
  · rename_i h
    exact absurd h splitAt_ne_nil
  · rename_i h
    simp [h, hc]

theorem length_splitAt : (splitAt sep t).length = t.count sep + 1 := by
  induction t with
  | nil => rfl
  | cons c t ih =>
    by_cases hc : c = sep
    · subst hc
      rw [splitAt_cons_sep, List.length_cons, ih, List.count_cons_self]
    · rw [splitAt_cons_of_ne hc, List.length_modifyHead, ih, List.count_cons_of_ne hc]

theorem splitAt_of_notMem (h : sep ∉ t) : splitAt sep t = [t] := by
  induction t with
  | nil => rfl
  | cons c t ih =>
    have hc : c ≠ sep := fun hc => h (hc ▸ List.mem_cons_self)
    rw [splitAt_cons_of_ne hc, ih fun hm => h (List.mem_cons_of_mem c hm)]
    rfl

/-- A separator ends the piece in front of it. -/
theorem splitAt_append_sep {s : Text} :
    splitAt sep (s ++ sep :: t) = splitAt sep s ++ splitAt sep t := by
  induction s with
  | nil => exact splitAt_cons_sep
  | cons c s ih =>
    rw [List.cons_append]
    by_cases hc : c = sep
    · subst hc
      rw [splitAt_cons_sep, splitAt_cons_sep, ih, List.cons_append]
    · rw [splitAt_cons_of_ne hc, splitAt_cons_of_ne hc, ih]
      cases hs : splitAt sep s with
      | nil => exact absurd hs splitAt_ne_nil
      | cons piece pieces => rfl

/-- The last piece of a text goes on with the first piece of what follows. -/
theorem splitAt_append (sep : Char) (s t : Text) :
    ∃ front last next behind, splitAt sep s = front ++ [last] ∧ splitAt sep t = next :: behind ∧
      splitAt sep (s ++ t) = front ++ (last ++ next) :: behind := by
  induction s with
  | nil =>
    have hne : splitAt sep t ≠ [] := splitAt_ne_nil
    obtain ⟨next, behind, h⟩ := List.exists_cons_of_ne_nil hne
    exact ⟨[], [], next, behind, rfl, h, h⟩
  | cons c s ih =>
    obtain ⟨front, last, next, behind, hs, ht, hst⟩ := ih
    rw [List.cons_append]
    by_cases hc : c = sep
    · subst hc
      refine ⟨[] :: front, last, next, behind, ?_, ht, ?_⟩
      · rw [splitAt_cons_sep, hs, List.cons_append]
      · rw [splitAt_cons_sep, hst, List.cons_append]
    · rw [splitAt_cons_of_ne hc, splitAt_cons_of_ne hc, hs, hst]
      cases front with
      | nil => exact ⟨[], c :: last, next, behind, rfl, ht, rfl⟩
      | cons first front => exact ⟨(c :: first) :: front, last, next, behind, rfl, ht, rfl⟩

/-! ## Lines -/

theorem exists_lines (t : Text) : ∃ first more, lines t = first :: more :=
  List.exists_cons_of_ne_nil splitAt_ne_nil

theorem length_lines : (lines t).length = lineFeeds t + 1 := length_splitAt

/-- Behind the end of a line, lines go on as if nothing were in front of it. -/
theorem lines_append (h : EndsLine t) (more : Text) :
    lines (t ++ more) = (lines t).dropLast ++ lines more := by
  rcases h with rfl | h
  · rfl
  · obtain ⟨front, rfl⟩ := List.getLast?_eq_some_iff.1 h
    rw [List.append_assoc, List.singleton_append, lines, splitAt_append_sep, lines,
      splitAt_append_sep, splitAt, List.dropLast_concat, lines]

theorem length_dropLast_lines : (lines t).dropLast.length = lineFeeds t := by
  rw [List.length_dropLast, length_lines, Nat.add_sub_cancel]

/-- A line that is written with its line feed is read as one. -/
theorem lines_cons {l : Text} (h : '\n' ∉ l) (more : Text) :
    lines (l ++ '\n' :: more) = l :: lines more := by
  rw [lines, splitAt_append_sep, splitAt_of_notMem h, lines, List.singleton_append]

/-- What stands in front of a text without a line feed goes on its first line. -/
theorem lines_append_of_notMem {u first : Text} {more : List Text} (hu : '\n' ∉ u)
    (h : lines t = first :: more) : lines (u ++ t) = (u ++ first) :: more := by
  obtain ⟨front, last, next, behind, hfront, hnext, happend⟩ := splitAt_append '\n' u t
  rw [splitAt_of_notMem hu] at hfront
  obtain ⟨rfl, rfl⟩ : next = first ∧ behind = more := List.cons.inj (hnext.symm.trans h)
  cases front with
  | nil =>
    obtain ⟨rfl, -⟩ := List.cons.inj hfront
    exact happend
  | cons piece front => exact absurd (List.cons.inj hfront).2 (by simp)

/-! ## Where a line stands -/

/-- Up to its last line feed a text ends a line; behind that it holds none. -/
theorem exists_endsLine (t : Text) :
    ∃ front, t = front ++ afterLast '\n' t ∧ EndsLine front ∧ '\n' ∉ afterLast '\n' t := by
  refine ⟨(t.reverse.dropWhile (· != '\n')).reverse, ?_, ?_, ?_⟩
  · rw [afterLast, ← List.reverse_append, List.takeWhile_append_dropWhile, List.reverse_reverse]
  · rw [EndsLine, List.reverse_eq_nil_iff, List.getLast?_reverse]
    have hstop := List.head?_dropWhile_not (· != '\n') t.reverse
    cases hdrop : t.reverse.dropWhile (· != '\n') with
    | nil => exact .inl rfl
    | cons c rest =>
      rw [hdrop] at hstop
      obtain rfl : c = '\n' := by simpa using hstop
      exact .inr rfl
  · intro h
    have hall := List.all_eq_true.1 List.all_takeWhile _ (List.mem_reverse.1 h)
    exact absurd hall (by decide)

/-- The first line goes on to the first line feed. -/
theorem getElem?_lines_zero {w : Text} (h : '\n' ∉ w) (v : Text) :
    (lines (w ++ v))[0]? = some (w ++ v.takeWhile (· != '\n')) := by
  have hfront : '\n' ∉ v.takeWhile (· != '\n') := by
    intro hmem
    exact absurd (List.all_eq_true.1 List.all_takeWhile _ hmem) (by decide)
  have hnone : '\n' ∉ w ++ v.takeWhile (· != '\n') := List.not_mem_append h hfront
  have hsplit : w ++ v = (w ++ v.takeWhile (· != '\n')) ++ v.dropWhile (· != '\n') := by
    rw [List.append_assoc, List.takeWhile_append_dropWhile]
  have hstop := List.head?_dropWhile_not (· != '\n') v
  rw [hsplit]
  cases hdrop : v.dropWhile (· != '\n') with
  | nil =>
    rw [List.append_nil, lines, splitAt_of_notMem hnone]
    rfl
  | cons c rest =>
    rw [hdrop] at hstop
    obtain rfl : c = '\n' := by simpa using hstop
    rw [lines_cons hnone]
    rfl

theorem eq_takeWhile_of_lines {first : Text} {more : List Text} (h : lines t = first :: more) :
    first = t.takeWhile (· != '\n') := by
  have hfirst := getElem?_lines_zero List.not_mem_nil t
  rw [List.nil_append, h] at hfirst
  exact Option.some.inj hfirst

/-- The line that a stretch of a text stands on, if it holds no line feed: the stretch with what is
in front of it and behind it up to the nearest line feeds. -/
theorem getElem?_lines {w : Text} (h : '\n' ∉ w) (u v : Text) :
    (lines (u ++ (w ++ v)))[lineFeeds u]? =
      some (afterLast '\n' u ++ w ++ v.takeWhile (· != '\n')) := by
  obtain ⟨front, hu, hend, hlast⟩ := exists_endsLine u
  have hfeeds : lineFeeds u = (lines front).dropLast.length := by
    have hcount := congrArg lineFeeds hu
    rw [lineFeeds, lineFeeds, List.count_append, List.count_eq_zero.2 hlast, Nat.add_zero] at hcount
    rw [length_dropLast_lines]
    exact hcount
  have htext : u ++ (w ++ v) = front ++ ((afterLast '\n' u ++ w) ++ v) := by
    rw [← List.append_assoc, ← List.append_assoc, ← List.append_assoc, ← hu]
  rw [htext, lines_append hend, hfeeds, List.getElem?_append_right (Nat.le_refl _), Nat.sub_self,
    getElem?_lines_zero (List.not_mem_append hlast h)]

/-- In front of the line with number `k` there are `k` line feeds, and on it there is none. -/
theorem exists_of_getElem?_lines {k : Nat} {l : Text} (h : (lines t)[k]? = some l) :
    ∃ u v, t = u ++ (l ++ v) ∧ lineFeeds u = k ∧ '\n' ∉ l := by
  induction k generalizing t with
  | zero =>
    by_cases hfeed : '\n' ∈ t
    · obtain ⟨first, more, rfl, hfirst⟩ := List.eq_append_cons_of_mem hfeed
      rw [lines_cons hfirst] at h
      obtain rfl := Option.some.inj h
      exact ⟨[], '\n' :: more, rfl, rfl, hfirst⟩
    · rw [lines, splitAt_of_notMem hfeed] at h
      obtain rfl := Option.some.inj h
      exact ⟨[], [], (List.append_nil t).symm, rfl, hfeed⟩
  | succ k ih =>
    by_cases hfeed : '\n' ∈ t
    · obtain ⟨first, more, rfl, hfirst⟩ := List.eq_append_cons_of_mem hfeed
      rw [lines_cons hfirst, List.getElem?_cons_succ] at h
      obtain ⟨u, v, rfl, hu, hl⟩ := ih h
      refine ⟨first ++ '\n' :: u, v, ?_, ?_, hl⟩
      · rw [List.append_assoc, List.cons_append]
      · rw [lineFeeds, List.count_append, List.count_eq_zero.2 hfirst, List.count_cons_self,
          ← lineFeeds, hu, Nat.zero_add]
    · rw [lines, splitAt_of_notMem hfeed] at h
      exact absurd h (by simp)

theorem isInfix_of_mem_lines {l : Text} (h : l ∈ lines t) : l <:+: t := by
  obtain ⟨k, hk⟩ := List.getElem?_of_mem h
  obtain ⟨u, v, rfl, -, -⟩ := exists_of_getElem?_lines hk
  exact ⟨u, v, by rw [List.append_assoc]⟩

end RazorViews.Text
