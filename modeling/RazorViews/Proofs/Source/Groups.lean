import Mathlib.Data.List.DropRight
import RazorViews.Proofs.Text.Trim
import RazorViews.Source.Annotations

/-!
# Groups in front of a line

A group is closed by the first bracket that closes it, whatever stands behind that bracket:
`closeGroup_eq_some`.  A line is divided into the groups in front of it, one after another, and the
ways in which it can begin are three (`split_cases`): with a group, with one that is left open, or
with something else.

White space at the ends of a line makes no difference (`split_blanks_append`,
`split_append_blanks`).

If a text begins with a group that it leaves open, and more text closes it, then what follows the
groups lies in that further text altogether: `exists_rest_of_unfinished`.  This is why a property
behind an annotation of several lines stands on the last of them.
-/

namespace RazorViews.Annotations

variable {t inside body after : Text}

/-! ## Closing a group -/

/-- A group ends at its bracket, and what stands behind the bracket has no part in that. -/
theorem closeGroup_eq_some {inner : Nat} {quote : Option Char}
    (h : closeGroup inner quote t = some (body, after)) :
    t = body ++ ']' :: after ∧
      ∀ other, closeGroup inner quote (body ++ ']' :: other) = some (body, other) := by
  fun_induction closeGroup inner quote t generalizing body after with
  | case1 => exact absurd h (by simp)
  | case2 inner q c rest ih =>
    obtain ⟨⟨body', _⟩, hrest, hparts⟩ := Option.map_eq_some_iff.1 h
    obtain ⟨rfl, rfl⟩ := Prod.mk.inj hparts
    obtain ⟨rfl, hother⟩ := ih hrest
    refine ⟨rfl, ?_⟩
    intro other
    rw [List.cons_append, List.cons_append, closeGroup, hother]
    rfl
  | case3 inner q c rest hpair ih =>
    obtain ⟨⟨body', _⟩, hrest, hparts⟩ := Option.map_eq_some_iff.1 h
    obtain ⟨rfl, rfl⟩ := Prod.mk.inj hparts
    obtain ⟨hsplit, hother⟩ := ih hrest
    -- a backslash here would hide the character behind it
    have hback : c ≠ '\\' := by
      intro hc
      cases rest with
      | nil => exact absurd hsplit (by simp)
      | cons d r => exact hpair d r hc rfl
    refine ⟨by rw [hsplit]; rfl, ?_⟩
    intro other
    rw [List.cons_append, closeGroup.eq_3 _ _ _ _ fun _ _ hc _ => hback hc, hother]
    rfl
  | case4 c rest hclose =>
    obtain ⟨rfl, rfl⟩ := Prod.mk.inj (Option.some.inj h)
    obtain rfl := beq_iff_eq.1 hclose
    exact ⟨rfl, fun other => rfl⟩
  | case5 c rest hclose inner ih =>
    obtain ⟨⟨body', _⟩, hrest, hparts⟩ := Option.map_eq_some_iff.1 h
    obtain ⟨rfl, rfl⟩ := Prod.mk.inj hparts
    obtain ⟨rfl, hother⟩ := ih hrest
    refine ⟨rfl, ?_⟩
    intro other
    rw [List.cons_append, closeGroup, if_pos hclose]
    simp only [hother]
    rfl
  | case6 inner c rest hclose depth =>
    rename_i mark ih
    obtain ⟨⟨body', _⟩, hrest, hparts⟩ := Option.map_eq_some_iff.1 h
    obtain ⟨rfl, rfl⟩ := Prod.mk.inj hparts
    obtain ⟨rfl, hother⟩ := ih hrest
    refine ⟨rfl, ?_⟩
    intro other
    rw [List.cons_append, closeGroup.eq_def]
    simp only [if_neg hclose]
    exact congrArg (Option.map _) (hother other)

theorem closeGroup_append (h : closeGroup 0 none t = some (body, after)) (more : Text) :
    closeGroup 0 none (t ++ more) = some (body, after ++ more) := by
  obtain ⟨rfl, hother⟩ := closeGroup_eq_some h
  rw [List.append_assoc, List.cons_append]
  exact hother (after ++ more)

/-- The bracket of a group that is left open stands behind the text. -/
theorem isSuffix_more_of_closeGroup {more : Text} (hopen : closeGroup 0 none t = none)
    (h : closeGroup 0 none (t ++ more) = some (body, after)) : after <:+ more := by
  obtain ⟨hsplit, hother⟩ := closeGroup_eq_some h
  rcases List.append_eq_append_iff.1 hsplit with ⟨body', rfl, rfl⟩ | ⟨behind, rfl, hmore⟩
  · exact (List.suffix_cons ']' after).trans (List.suffix_append body' _)
  · cases behind with
    | nil =>
      rw [List.nil_append] at hmore
      exact hmore ▸ List.suffix_cons ']' after
    | cons c behind =>
      obtain ⟨rfl, rfl⟩ := List.cons.inj hmore
      exact absurd (hopen.symm.trans (hother behind)) (by simp)

/-! ## The groups in front of a line -/

variable {line : Text}

theorem split_group (h : Text.trimLeft line = '[' :: inside)
    (h' : closeGroup 0 none inside = some (body, after)) :
    split line = (split after).withGroup body := by
  rw [split]
  split
  · rename_i inside' hline
    obtain rfl : inside = inside' := (List.cons.inj (h.symm.trans hline)).2
    split
    · rename_i body' after' hclose
      obtain ⟨rfl, rfl⟩ := Prod.mk.inj (Option.some.inj (h'.symm.trans hclose))
      rfl
    · rename_i hclose
      exact absurd (h'.symm.trans hclose) (by simp)
  · rename_i hne
    exact (hne inside h).elim

/-- What stands behind the first group is shorter than the line. -/
theorem length_after_lt (h : Text.trimLeft line = '[' :: inside)
    (h' : closeGroup 0 none inside = some (body, after)) : after.length < line.length := by
  have hle := (List.dropWhile_suffix Text.isBlank (l := line)).length_le
  rw [← Text.trimLeft, h, List.length_cons] at hle
  have := length_of_closeGroup h'
  omega

theorem split_open (h : Text.trimLeft line = '[' :: inside) (h' : closeGroup 0 none inside = none) :
    split line = ⟨[], Text.trim ('[' :: inside), true⟩ := by
  rw [split]
  split
  · rename_i inside' hline
    obtain rfl : inside = inside' := (List.cons.inj (h.symm.trans hline)).2
    split
    · rename_i hclose
      exact absurd (h'.symm.trans hclose) (by simp)
    · rfl
  · rename_i hne
    exact (hne inside h).elim

theorem split_noGroup (h : (Text.trimLeft line).head? ≠ some '[') :
    split line = ⟨[], Text.trim (Text.trimLeft line), false⟩ := by
  rw [split]
  split
  · rename_i inside' hline
    exact absurd (by rw [hline]; rfl) h
  · rfl

theorem withGroup_rest (body : Text) (s : Split) :
    (s.withGroup body).rest = s.rest ∧ (s.withGroup body).unfinished = s.unfinished := by
  rw [Split.withGroup]
  split <;> exact ⟨rfl, rfl⟩

/-- The ways in which a line begins. -/
theorem split_cases (line : Text) :
    (∃ inside body after, Text.trimLeft line = '[' :: inside ∧
      closeGroup 0 none inside = some (body, after) ∧ split line = (split after).withGroup body) ∨
    (∃ inside, Text.trimLeft line = '[' :: inside ∧ closeGroup 0 none inside = none ∧
      split line = ⟨[], Text.trim ('[' :: inside), true⟩) ∨
    (split line = ⟨[], Text.trim (Text.trimLeft line), false⟩) := by
  by_cases hhead : (Text.trimLeft line).head? = some '['
  · obtain ⟨inside, hline⟩ := List.head?_eq_some_iff.1 hhead
    cases hclose : closeGroup 0 none inside with
    | none => exact .inr (.inl ⟨inside, hline, hclose, split_open hline hclose⟩)
    | some parts => exact .inl ⟨inside, parts.1, parts.2, hline, hclose, split_group hline hclose⟩
  · exact .inr (.inr (split_noGroup hhead))

/-! ## White space around a line -/

theorem split_congr {line' : Text} (h : Text.trimLeft line = Text.trimLeft line') :
    split line = split line' := by
  by_cases hhead : (Text.trimLeft line').head? = some '['
  · obtain ⟨inside, hline⟩ := List.head?_eq_some_iff.1 hhead
    cases hclose : closeGroup 0 none inside with
    | none => rw [split_open (h.trans hline) hclose, split_open hline hclose]
    | some parts => rw [split_group (h.trans hline) hclose, split_group hline hclose]
  · rw [split_noGroup hhead, split_noGroup (h ▸ hhead), h]

theorem split_blanks_append {front : Text} (hfront : ∀ c ∈ front, Text.isBlank c = true)
    (line : Text) : split (front ++ line) = split line :=
  split_congr (Text.trimLeft_blanks_append hfront line)

/-- White space closes no group. -/
theorem closeGroup_append_blanks {back : Text} (hback : ∀ c ∈ back, Text.isBlank c = true)
    (h : closeGroup 0 none t = none) : closeGroup 0 none (t ++ back) = none := by
  have hbracket : ∀ front after, back ≠ front ++ ']' :: after := by
    rintro front after rfl
    exact absurd (hback ']' (by simp)) (by decide)
  cases hclose : closeGroup 0 none (t ++ back) with
  | none => rfl
  | some parts =>
    obtain ⟨body, after⟩ := parts
    obtain ⟨hsplit, hother⟩ := closeGroup_eq_some hclose
    rcases List.append_eq_append_iff.1 hsplit with ⟨front, -, hfront⟩ | ⟨behind, rfl, hbehind⟩
    · exact absurd hfront (hbracket front after)
    · cases behind with
      | nil => exact absurd hbehind.symm (hbracket [] after)
      | cons c behind =>
        obtain ⟨rfl, -⟩ := List.cons.inj hbehind
        exact absurd (h.symm.trans (hother behind)) (by simp)

/-- A line is divided without regard to white space behind it. -/
theorem split_append_blanks {back : Text} (hback : ∀ c ∈ back, Text.isBlank c = true)
    (line : Text) : split (line ++ back) = split line := by
  induction hn : line.length using Nat.strongRecOn generalizing line with
  | ind n ih =>
    subst hn
    by_cases hblank : Text.trimLeft line = []
    · refine split_congr ?_
      rw [hblank, Text.trimLeft, List.dropWhile_append, ← Text.trimLeft, hblank]
      exact Text.trimLeft_eq_nil hback
    · have hmore := Text.trimLeft_append hblank back
      by_cases hhead : (Text.trimLeft line).head? = some '['
      · obtain ⟨inside, hline⟩ := List.head?_eq_some_iff.1 hhead
        rw [hline, List.cons_append] at hmore
        cases hclose : closeGroup 0 none inside with
        | none =>
          rw [split_open hline hclose, split_open hmore (closeGroup_append_blanks hback hclose),
            ← List.cons_append, Text.trim_append_blanks hback]
        | some parts =>
          obtain ⟨body, after⟩ := parts
          rw [split_group hline hclose, split_group hmore (closeGroup_append hclose back),
            ih after.length (length_after_lt hline hclose) after rfl]
      · have hhead' : (Text.trimLeft (line ++ back)).head? ≠ some '[' := by
          rwa [hmore, List.head?_append_of_ne_nil _ hblank]
        rw [split_noGroup hhead, split_noGroup hhead', hmore, Text.trim_append_blanks hback]

theorem split_trimRight (line : Text) : split (Text.trimRight line) = split line := by
  have hback : ∀ c ∈ line.rtakeWhile Text.isBlank, Text.isBlank c = true :=
    fun c hc => List.mem_rtakeWhile_imp hc
  have hsame := split_append_blanks hback (line.rdropWhile Text.isBlank)
  rw [List.rdropWhile_append_rtakeWhile] at hsame
  exact hsame.symm

/-! ## What follows the groups -/

/-- What follows the groups is a piece at the end of the line, trimmed. -/
theorem exists_rest (line : Text) : ∃ back, back <:+ line ∧ (split line).rest = Text.trim back := by
  induction hn : line.length using Nat.strongRecOn generalizing line with
  | ind n ih =>
    subst hn
    have htrim : Text.trimLeft line <:+ line := List.dropWhile_suffix Text.isBlank
    rcases split_cases line with ⟨inside, body, after, hline, hclose, hsplit⟩ |
      ⟨inside, hline, -, hsplit⟩ | hsplit
    · obtain ⟨hinside, -⟩ := closeGroup_eq_some hclose
      have hafter : after <:+ line := by
        have hback : after <:+ Text.trimLeft line :=
          ⟨'[' :: (body ++ [']']), by rw [hline, hinside]; simp⟩
        exact hback.trans htrim
      obtain ⟨back, hback, hrest⟩ := ih after.length (length_after_lt hline hclose) after rfl
      refine ⟨back, hback.trans hafter, ?_⟩
      rw [hsplit, (withGroup_rest body _).1, hrest]
    · exact ⟨'[' :: inside, hline ▸ htrim, by rw [hsplit]⟩
    · exact ⟨Text.trimLeft line, htrim, by rw [hsplit]⟩

/-- Where more text closes a group that a text leaves open, what follows the groups is a piece of
that further text. -/
theorem exists_rest_of_unfinished {more : Text} (hopen : (split t).unfinished = true)
    (hclosed : (split (t ++ more)).unfinished = false) :
    ∃ back, back <:+ more ∧ (split (t ++ more)).rest = Text.trim back := by
  induction hn : t.length using Nat.strongRecOn generalizing t with
  | ind n ih =>
    subst hn
    rcases split_cases t with ⟨inside, body, after, hline, hclose, hsplit⟩ |
      ⟨inside, hline, hclose, -⟩ | hsplit
    · -- this group is closed: the one that is left open stands behind it
      have hboth : split (t ++ more) = (split (after ++ more)).withGroup body := by
        refine split_group ?_ (closeGroup_append hclose more)
        rw [Text.trimLeft_append (by rw [hline]; exact List.cons_ne_nil '[' inside), hline,
          List.cons_append]
      rw [hsplit, (withGroup_rest body _).2] at hopen
      rw [hboth, (withGroup_rest body _).2] at hclosed
      rw [hboth, (withGroup_rest body _).1]
      exact ih after.length (length_after_lt hline hclose) hopen hclosed rfl
    · have hboth : Text.trimLeft (t ++ more) = '[' :: (inside ++ more) := by
        rw [Text.trimLeft_append (by rw [hline]; exact List.cons_ne_nil '[' inside), hline,
          List.cons_append]
      cases hclose' : closeGroup 0 none (inside ++ more) with
      | none =>
        rw [split_open hboth hclose'] at hclosed
        exact absurd hclosed (by simp)
      | some parts =>
        have hafter := isSuffix_more_of_closeGroup hclose hclose'
        obtain ⟨back, hback, hrest⟩ := exists_rest parts.2
        refine ⟨back, hback.trans hafter, ?_⟩
        rw [split_group hboth hclose', (withGroup_rest parts.1 _).1, hrest]
    · rw [hsplit] at hopen
      exact absurd hopen (by simp)

end RazorViews.Annotations
