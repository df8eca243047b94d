import RazorViews.Proofs.Source.Groups

/-!
# Lines of groups

A line of annotations is written as groups, each a body between brackets, and whatever follows them.
The brackets of a body are balanced outside quotes (`Balanced`), and it may hold anything else.

## What is proved

Dividing a line and writing it are inverse to each other: `split_exact`.

* Groups whose bodies are trimmed and not empty, with any white space between them and behind them,
  and a rest that begins with no bracket, are read back as these bodies and this rest.
* Every line whatever is groups and what is left over behind the last of them.  The bodies that are
  not empty are the groups that are read, in order, and the rest is what is left over, trimmed.
* The line is unfinished exactly if its rest begins with a bracket that nothing behind it closes, so
  an unfinished line is never taken for a finished one, and a rest that begins with a bracket is
  always an unfinished one.

## What it is not

Quotes are what a scanner of brackets takes for quotes: it knows double and single ones and the
escapes in them, and neither verbatim literals nor comments.  In erased source nothing stands
between quotes, and this makes no difference there; where annotations are recovered from the source
it may, which is what `KeepsOff` excludes.

## The proof

A scanner that counts brackets finds the end of a group just where the body in front of it is
balanced, and at no earlier bracket: `closeGroup_eq_some_iff`.  One group is divided off at a time.
-/

namespace RazorViews.Annotations

variable {body after t u v : Text} {inner : Nat} {mark : Char}

/-! ## Balanced texts -/

/-- What may stand between two quotes of a kind: a backslash takes the character behind it along,
and there is no such quote besides. -/
inductive InQuotes (mark : Char) : Text → Prop
  | nil : InQuotes mark []
  | plain {c : Char} {rest : Text} : c ≠ mark → c ≠ '\\' → InQuotes mark rest →
      InQuotes mark (c :: rest)
  | escape {c : Char} {rest : Text} : InQuotes mark rest → InQuotes mark ('\\' :: c :: rest)

/-- Outside quotes every bracket has its counterpart, and every quote is closed. -/
inductive Balanced : Text → Prop
  | nil : Balanced []
  | plain {c : Char} {rest : Text} : c ∉ ['[', ']', '"', '\''] → Balanced rest →
      Balanced (c :: rest)
  | quoted {mark : Char} {inside rest : Text} : mark ∈ ['"', '\''] → InQuotes mark inside →
      Balanced rest → Balanced (mark :: (inside ++ mark :: rest))
  | group {inside rest : Text} : Balanced inside → Balanced rest →
      Balanced ('[' :: (inside ++ ']' :: rest))

theorem Balanced.append (hu : Balanced u) (hv : Balanced v) : Balanced (u ++ v) := by
  induction hu with
  | nil => exact hv
  | plain hc _ ih => exact .plain hc ih
  | quoted hmark hinside _ ih =>
    rw [List.cons_append, List.append_assoc]
    exact .quoted hmark hinside ih
  | group hinside _ _ ih =>
    rw [List.cons_append, List.append_assoc]
    exact .group hinside ih

/-- Balanced texts with a closing bracket behind each of the first `inner`. -/
def Closing : (inner : Nat) → Text → Prop
  | 0, t => Balanced t
  | inner + 1, t => ∃ u v, t = u ++ ']' :: v ∧ Balanced u ∧ Closing inner v

theorem Closing.append (hu : Balanced u) (hv : Closing inner v) : Closing inner (u ++ v) := by
  cases inner with
  | zero => exact hu.append hv
  | succ inner =>
    obtain ⟨first, rest, rfl, hfirst, hrest⟩ := hv
    exact ⟨u ++ first, rest, (List.append_assoc _ _ _).symm, hu.append hfirst, hrest⟩

/-- A bracket in front is closed by the first one that would close another. -/
theorem Closing.bracket (h : Closing (inner + 1) t) : Closing inner ('[' :: t) := by
  obtain ⟨u, v, rfl, hu, hv⟩ := h
  have hgroup : Balanced ('[' :: (u ++ [']'])) := .group hu .nil
  have hwhole := hv.append hgroup
  rwa [List.cons_append, List.append_assoc] at hwhole

/-! ## Closing a group -/

theorem closeGroup_cons {c : Char} (hclose : c ≠ ']') (inner : Nat) (rest : Text) :
    closeGroup inner none (c :: rest) =
      (closeGroup (if c = '[' then inner + 1 else inner)
        (if c = '"' ∨ c = '\'' then some c else none) rest).map fun (group, after) =>
          (c :: group, after) := by
  cases inner with
  | zero => simp [closeGroup, hclose]
  | succ inner => simp [closeGroup, hclose]

/-- No bracket counts inside quotes. -/
theorem closeGroup_inQuotes (hmark : mark ≠ '\\') (h : InQuotes mark u) (inner : Nat) (t : Text) :
    closeGroup inner (some mark) (u ++ mark :: t) =
      (closeGroup inner none t).map fun (group, after) => (u ++ mark :: group, after) := by
  induction h with
  | nil => simp [closeGroup, hmark]
  | plain hne hback _ ih => simp [closeGroup, hne, hback, ih, Function.comp_def]
  | escape _ ih => simp [closeGroup, ih, Function.comp_def]

/-- A balanced text is passed over, however many brackets are open. -/
theorem closeGroup_balanced (h : Balanced u) (inner : Nat) (t : Text) :
    closeGroup inner none (u ++ t) =
      (closeGroup inner none t).map fun (group, after) => (u ++ group, after) := by
  induction h generalizing inner t with
  | nil => simp
  | @plain c rest hc _ ih =>
    simp only [List.mem_cons, List.not_mem_nil, or_false, not_or] at hc
    obtain ⟨hopen, hclose, hquote⟩ := hc
    rw [List.cons_append, closeGroup_cons hclose, if_neg hopen, if_neg (not_or.2 hquote), ih,
      Option.map_map]
    rfl
  | @quoted mark inside rest hmark hinside _ ih =>
    have hne : mark ≠ ']' ∧ mark ≠ '[' ∧ mark ≠ '\\' ∧ (mark = '"' ∨ mark = '\'') := by
      simp only [List.mem_cons, List.not_mem_nil, or_false] at hmark
      rcases hmark with rfl | rfl
      · decide
      · decide
    rw [List.cons_append, List.append_assoc, List.cons_append, closeGroup_cons hne.1,
      if_neg hne.2.1, if_pos hne.2.2.2, closeGroup_inQuotes hne.2.2.1 hinside, ih, Option.map_map,
      Option.map_map]
    simp [Function.comp_def]
  | @group inside rest _ _ ihInside ih =>
    have hclose : closeGroup (inner + 1) none (']' :: (rest ++ t)) =
        (closeGroup inner none (rest ++ t)).map fun (group, after) => (']' :: group, after) := rfl
    rw [List.cons_append, List.append_assoc, List.cons_append, closeGroup_cons (by decide),
      if_pos rfl, if_neg (by decide), ihInside, hclose, ih, Option.map_map, Option.map_map,
      Option.map_map]
    simp [Function.comp_def]

/-- What has been passed over when the last bracket is closed; inside quotes, their end comes
first. -/
def PassedOver (inner : Nat) : (quote : Option Char) → Text → Prop
  | none, body => Closing inner body
  | some q, body => ∃ u v, body = u ++ q :: v ∧ InQuotes q u ∧ Closing inner v

theorem passedOver_of_closeGroup {quote : Option Char} (hquote : ∀ q ∈ quote, q ∈ ['"', '\''])
    (h : closeGroup inner quote t = some (body, after)) : PassedOver inner quote body := by
  fun_induction closeGroup inner quote t generalizing body after with
  | case1 => exact absurd h (by simp)
  | case2 inner q c rest ih =>
    obtain ⟨⟨group, _⟩, hrest, hparts⟩ := Option.map_eq_some_iff.1 h
    obtain ⟨rfl, rfl⟩ := Prod.mk.inj hparts
    obtain ⟨u, v, rfl, hu, hv⟩ := ih hquote hrest
    exact ⟨'\\' :: c :: u, v, rfl, .escape hu, hv⟩
  | case3 inner q c rest hpair ih =>
    obtain ⟨⟨group, _⟩, hrest, hparts⟩ := Option.map_eq_some_iff.1 h
    obtain ⟨rfl, rfl⟩ := Prod.mk.inj hparts
    by_cases hc : c = q
    · subst hc
      rw [beq_self_eq_true, if_pos rfl] at ih hrest
      exact ⟨[], group, rfl, .nil, ih (by simp) hrest⟩
    · rw [if_neg (by simpa using hc)] at ih hrest
      obtain ⟨u, v, rfl, hu, hv⟩ := ih hquote hrest
      -- a backslash here would have taken the next character along
      have hback : c ≠ '\\' := by
        intro hback
        cases rest with
        | nil => exact absurd hrest (by simp [closeGroup])
        | cons d r => exact hpair d r hback rfl
      exact ⟨c :: u, v, rfl, .plain hc hback hu, hv⟩
  | case4 c rest hclose =>
    obtain ⟨rfl, rfl⟩ := Prod.mk.inj (Option.some.inj h)
    exact Balanced.nil
  | case5 c rest hclose inner ih =>
    obtain ⟨⟨group, _⟩, hrest, hparts⟩ := Option.map_eq_some_iff.1 h
    obtain ⟨rfl, rfl⟩ := Prod.mk.inj hparts
    obtain rfl := beq_iff_eq.1 hclose
    exact ⟨[], group, rfl, .nil, ih hquote hrest⟩
  | case6 inner c rest hclose depth =>
    rename_i mark ih
    obtain ⟨⟨group, _⟩, hrest, hparts⟩ := Option.map_eq_some_iff.1 h
    obtain ⟨rfl, rfl⟩ := Prod.mk.inj hparts
    by_cases hmark : c = '"' ∨ c = '\''
    · have hopen : ¬ (c == '[') = true := by
        rcases hmark with rfl | rfl
        · decide
        · decide
      have hdepth : depth = inner := if_neg hopen
      have hquoted : mark = some c := if_pos (by simpa using hmark)
      rw [hdepth, hquoted] at ih hrest
      obtain ⟨u, v, rfl, hu, hv⟩ := ih (by simpa using hmark) hrest
      have hpiece : Balanced (c :: (u ++ [c])) := .quoted (by simpa using hmark) hu .nil
      have hwhole := hv.append hpiece
      rwa [List.cons_append, List.append_assoc] at hwhole
    · have hquoted : mark = none := if_neg (by simpa using hmark)
      rw [hquoted] at ih hrest
      by_cases hopen : c = '['
      · have hdepth : depth = inner + 1 := if_pos (beq_iff_eq.2 hopen)
        rw [hdepth] at ih hrest
        exact hopen ▸ (ih (by simp) hrest).bracket
      · have hdepth : depth = inner := if_neg (by simpa using hopen)
        rw [hdepth] at ih hrest
        have hpiece : Balanced [c] := by
          refine .plain ?_ .nil
          rw [beq_iff_eq] at hclose
          simp [hopen, hclose, not_or.1 hmark]
        exact (ih (by simp) hrest).append hpiece

/-- **A group ends behind the first balanced body** that has a closing bracket behind it. -/
theorem closeGroup_eq_some_iff :
    closeGroup 0 none t = some (body, after) ↔ t = body ++ ']' :: after ∧ Balanced body := by
  constructor
  · intro h
    exact ⟨(closeGroup_eq_some h).1, passedOver_of_closeGroup (by simp) h⟩
  · rintro ⟨rfl, hbody⟩
    rw [closeGroup_balanced hbody, closeGroup]
    simp

theorem closeGroup_eq_none_iff :
    closeGroup 0 none t = none ↔ ∀ body after, t = body ++ ']' :: after → ¬ Balanced body := by
  constructor
  · intro h body after ht hbody
    exact absurd (h.symm.trans (closeGroup_eq_some_iff.2 ⟨ht, hbody⟩)) (by simp)
  · intro h
    cases hclose : closeGroup 0 none t with
    | none => rfl
    | some parts =>
      obtain ⟨ht, hbody⟩ := closeGroup_eq_some_iff.1 hclose
      exact absurd hbody (h _ _ ht)

instance (t : Text) : Decidable (Balanced t) :=
  decidable_of_iff (closeGroup 0 none (t ++ [']']) = some (t, [])) <| by
    rw [closeGroup_eq_some_iff]
    exact and_iff_right rfl

/-! ## Lines as they are written -/

/-- A group in front of a line, with the white space before it. -/
structure Group where
  gap : Text
  body : Text
  isBlank_gap : ∀ c ∈ gap, Text.isBlank c = true
  balanced_body : Balanced body

/-- The group between its brackets. -/
def Group.written (g : Group) : Text := g.gap ++ '[' :: (g.body ++ [']'])

/-- Where there is nothing, there is nothing but white space. -/
theorem isBlank_of_mem_nil : ∀ c ∈ ([] : Text), Text.isBlank c = true :=
  fun _ hc => absurd hc List.not_mem_nil

/-- Several groups, one behind the other. -/
def writtenGroups (gs : List Group) : Text := gs.flatMap Group.written

/-- What several groups say: their bodies, trimmed, but for those that are empty then. -/
def groupBodies (gs : List Group) : List Text :=
  (gs.map fun g => Text.trim g.body).filter fun body => !body.isEmpty

variable {g : Group} {gs : List Group}

theorem groupBodies_cons : groupBodies (g :: gs) =
    if (Text.trim g.body).isEmpty then groupBodies gs else Text.trim g.body :: groupBodies gs := by
  rw [groupBodies, List.map_cons, List.filter_cons, groupBodies]
  cases (Text.trim g.body).isEmpty <;> rfl

theorem groupBodies_eq_map (h : ∀ g ∈ gs, g.body ≠ [] ∧ Text.trim g.body = g.body) :
    groupBodies gs = gs.map Group.body := by
  rw [groupBodies, List.map_congr_left fun g hg => (h g hg).2, List.filter_eq_self]
  intro body hbody
  obtain ⟨g, hg, rfl⟩ := List.mem_map.1 hbody
  simpa using (h g hg).1

/-- A group that is written in front of a line is the first one of the line. -/
theorem split_group_append (g : Group) (t : Text) :
    split (g.written ++ t) = (split t).withGroup g.body := by
  have htrim : Text.trimLeft (g.written ++ t) = '[' :: (g.body ++ ']' :: t) := by
    rw [Group.written, List.append_assoc, Text.trimLeft_blanks_append g.isBlank_gap,
      List.cons_append, List.append_assoc]
    exact Text.trimLeft_eq_self fun c hc => Option.some.inj hc ▸ rfl
  exact split_group htrim (closeGroup_eq_some_iff.2 ⟨rfl, g.balanced_body⟩)

/-- Groups are divided off a line one by one. -/
theorem split_written_append (gs : List Group) (t : Text) :
    split (writtenGroups gs ++ t) =
      { split t with groups := groupBodies gs ++ (split t).groups } := by
  induction gs with
  | nil => rfl
  | cons g gs ih =>
    rw [writtenGroups, List.flatMap_cons, List.append_assoc, ← writtenGroups, split_group_append,
      ih, groupBodies_cons, Split.withGroup]
    split <;> rfl

/-- A line whose rest begins with no bracket is divided into what it was written of. -/
theorem split_written (hgs : ∀ g ∈ gs, g.body ≠ [] ∧ Text.trim g.body = g.body)
    {gap rest : Text} (hgap : ∀ c ∈ gap, Text.isBlank c = true) (hrest : Text.trim rest = rest)
    (hhead : rest.head? ≠ some '[') :
    split (writtenGroups gs ++ (gap ++ rest)) = ⟨gs.map Group.body, rest, false⟩ := by
  have hleft := Text.trimLeft_of_trim hrest
  have hback : split rest = ⟨[], rest, false⟩ := by
    rw [split_noGroup (by rwa [hleft]), hleft, hrest]
  rw [split_written_append, split_blanks_append hgap, hback, groupBodies_eq_map hgs,
    List.append_nil]

/-! ## Lines as they are divided -/

/-- The text begins with a bracket that is not closed anywhere behind it. -/
def BeginsOpen (t : Text) : Prop :=
  t.head? = some '[' ∧ ∀ body after, t = '[' :: (body ++ ']' :: after) → ¬ Balanced body

theorem beginsOpen_trim {inside : Text} (h : closeGroup 0 none inside = none) :
    BeginsOpen (Text.trim ('[' :: inside)) := by
  have htrim : Text.trim ('[' :: inside) = '[' :: Text.trimRight inside :=
    Text.trim_append_cons (by decide) [] inside
  rw [htrim]
  refine ⟨rfl, ?_⟩
  intro body after hsplit hbody
  obtain ⟨more, hmore⟩ := Text.trimRight_isPrefix inside
  have hclose := closeGroup_eq_some_iff.2 ⟨(List.cons.inj hsplit).2, hbody⟩
  have hwhole := closeGroup_append hclose more
  rw [hmore, h] at hwhole
  exact absurd hwhole (by simp)

/-- What is left over of a line: a bracket in front of it is one that is not closed. -/
structure IsLeftOver (back : Text) (s : Split) : Prop where
  rest : s.rest = Text.trim back
  beginsOpen : s.unfinished = true → BeginsOpen s.rest
  unfinished : s.rest.head? = some '[' → s.unfinished = true

/-- **A line is groups and what is left over.** -/
theorem exists_written (line : Text) :
    ∃ gs back, line = writtenGroups gs ++ back ∧ (split line).groups = groupBodies gs ∧
      IsLeftOver back (split line) := by
  induction hn : line.length using Nat.strongRecOn generalizing line with
  | ind n ih =>
    subst hn
    by_cases hhead : (Text.trimLeft line).head? = some '['
    · obtain ⟨inside, hline⟩ := List.head?_eq_some_iff.1 hhead
      cases hclose : closeGroup 0 none inside with
      | none =>
        have htrim : Text.trim line = Text.trim ('[' :: inside) := by
          rw [← Text.trim_trimLeft, hline]
        rw [split_open hline hclose]
        exact ⟨[], line, rfl, rfl, htrim.symm, fun _ => beginsOpen_trim hclose, fun _ => rfl⟩
      | some parts =>
        obtain ⟨body, after⟩ := parts
        obtain ⟨rfl, hbody⟩ := closeGroup_eq_some_iff.1 hclose
        obtain ⟨gs, back, rfl, hgroups, hback⟩ :=
          ih after.length (length_after_lt hline hclose) after rfl
        let g : Group := ⟨line.takeWhile Text.isBlank, body,
          fun c hc => List.all_eq_true.1 List.all_takeWhile c hc, hbody⟩
        have hwhole : line = g.written ++ (writtenGroups gs ++ back) := by
          have hparts := List.takeWhile_append_dropWhile (p := Text.isBlank) (l := line)
          rw [← Text.trimLeft, hline] at hparts
          rw [Group.written, List.append_assoc, List.cons_append, List.append_assoc]
          exact hparts.symm
        have hsplit : split line = (split (writtenGroups gs ++ back)).withGroup body := by
          conv => lhs; rw [hwhole]
          exact split_group_append g _
        obtain ⟨hrest, hopen⟩ := withGroup_rest body (split (writtenGroups gs ++ back))
        refine ⟨g :: gs, back, ?_, ?_, ?_⟩
        · rw [writtenGroups, List.flatMap_cons, List.append_assoc]
          exact hwhole
        · rw [hsplit, Split.withGroup, groupBodies_cons, ← hgroups]
          split <;> rfl
        · rw [hsplit]
          refine ⟨hrest.trans hback.rest, ?_, ?_⟩
          · rw [hrest, hopen]
            exact hback.beginsOpen
          · rw [hrest, hopen]
            exact hback.unfinished
    · rw [split_noGroup hhead, Text.trim_trimLeft]
      exact ⟨[], line, rfl, rfl, rfl, fun h => absurd h (by simp),
        fun h => absurd (Text.head?_trimLeft_of_trim h) hhead⟩

/-- **Dividing a line is exact.**  What is written of groups that are trimmed and not empty, with
any white space around them, and of a rest that begins with no bracket is divided into these; and
every line is groups, of which those that are empty do not count, and what is left over, which is
called unfinished just if it begins with a bracket that is not closed. -/
theorem split_exact :
    (∀ (gs : List Group) (gap rest : Text), (∀ g ∈ gs, g.body ≠ [] ∧ Text.trim g.body = g.body) →
      (∀ c ∈ gap, Text.isBlank c = true) → Text.trim rest = rest → rest.head? ≠ some '[' →
      split (writtenGroups gs ++ (gap ++ rest)) = ⟨gs.map Group.body, rest, false⟩) ∧
    ∀ line,
      (∃ gs back, line = writtenGroups gs ++ back ∧ (split line).groups = groupBodies gs ∧
        (split line).rest = Text.trim back) ∧
      ((split line).unfinished = true ↔ BeginsOpen (split line).rest) ∧
      ((split line).rest.head? = some '[' → (split line).unfinished = true) := by
  refine ⟨fun gs gap rest hgs hgap hrest hhead => split_written hgs hgap hrest hhead, ?_⟩
  intro line
  obtain ⟨gs, back, hline, hgroups, hback⟩ := exists_written line
  exact ⟨⟨gs, back, hline, hgroups, hback.rest⟩, ⟨hback.beginsOpen, fun h => hback.unfinished h.1⟩,
    hback.unfinished⟩

/-- A group with brackets inside quotes and outside, and an escaped quote among them. -/
def patternGroup : Group where
  gap := []
  body := "Pattern(\"[^\\\"]\", typeof(int[]))".toList
  isBlank_gap := isBlank_of_mem_nil
  balanced_body := by decide +kernel

def keyGroup : Group where
  gap := [' ', ' ']
  body := "Key".toList
  isBlank_gap := List.all_eq_true.1 rfl
  balanced_body := by decide +kernel

theorem split_exact_pattern :
    (∀ g ∈ [patternGroup, keyGroup], g.body ≠ [] ∧ Text.trim g.body = g.body) ∧
      split "[Pattern(\"[^\\\"]\", typeof(int[]))]  [Key] int X".toList =
        ⟨["Pattern(\"[^\\\"]\", typeof(int[]))".toList, "Key".toList], "int X".toList, false⟩ := by
  have hbodies : ∀ g ∈ [patternGroup, keyGroup], g.body ≠ [] ∧ Text.trim g.body = g.body := by
    decide +kernel
  exact ⟨hbodies, split_exact.1 [patternGroup, keyGroup] [' '] "int X".toList hbodies
    (List.all_eq_true.1 rfl) (by decide +kernel) (by decide)⟩

end RazorViews.Annotations
