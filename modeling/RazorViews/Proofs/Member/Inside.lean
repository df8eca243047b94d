import Mathlib.Data.List.Infix
import RazorViews.Proofs.Member.Classes
import RazorViews.Proofs.Member.Readings

/-!
# Members stand inside classes

A scan of a whole text finds members in the classes that it enters, and nowhere else.  For every
text, whatever source is at hand beside it, and for every candidate found there,
`foundBehind_recognize` says which class the candidate belongs to: the lines of the class run from
one that declares it to the line of the candidate, and the signature stands in the body, behind the
brace that opens it if that brace is on the same line.

## When the class is still open

The scan counts the braces of every line and looks at the end of a line whether the class is closed.
From this two things follow about the lines of the class in front of the candidate, where braces are
counted from the one that opens the body.

* Behind every line that is read more braces have been opened than closed
  (`FoundBehind.openBraces_pos`).  This holds behind every line, and so in front of the candidate,
  if no closing brace stands on a line that is passed over (`NoneOverlooked`).
* The brace that closes the body stands on none of these lines (`NeverClosed`) unless it stands on
  one that is passed over (`IsOverlooked`), or on one that is read and on which another brace is
  opened behind it (`IsReopened`).  These are all the exceptions: `neverClosed_iff`.

## The two exceptions

Both occur, and a property that stands behind the class is then taken for a member of it
(`not_isOpenBehind_stray`).  Lines that are passed over are counted, but the scan does not look
whether they close the class, so a class whose last brace is closed on a `using` line goes on.  And
since the scan looks at the ends of lines only, a class goes on as well if the line that closes it
opens another body, as in a structure that is declared right behind the closing brace.

Braces in front of the one that opens the body are not counted here, though the scan counts those
that close (`depthBehind_le_openBraces`): it may leave a class too early, and never stays in one for
that reason.
-/

namespace RazorViews.Member

/-! ## Open braces -/

/-- Opening braces less closing ones on several lines, from the first opening brace on. -/
def openBraces (ls : List Text) : Int := braceBalance (ls.flatten.dropWhile (· != '{'))

/-- If the body of a class has been opened on these lines, it has not been closed behind them. -/
def IsOpenBehind (ls : List Text) : Prop := isOpened ls = true → 0 < openBraces ls

instance (ls : List Text) : Decidable (IsOpenBehind ls) :=
  inferInstanceAs (Decidable (isOpened ls = true → 0 < openBraces ls))

variable {before ls : List Text} {l : Text}

theorem braceBalance_flatten (ls : List Text) : braceBalance ls.flatten = totalBalance ls := by
  induction ls with
  | nil => rfl
  | cons l ls ih => rw [List.flatten_cons, braceBalance_append, totalBalance, ih]

/-- What stands in front of the first opening brace is not counted, whole lines or part of one. -/
theorem openBraces_cons (l : Text) (ls : List Text) :
    openBraces (l :: ls) =
      match cutAtBrace? l with
      | none => openBraces ls
      | some (_, after) => 1 + braceBalance after + totalBalance ls := by
  have hskip : ∀ t : Text, '{' ∉ t → ∀ more,
      (t ++ more).dropWhile (· != '{') = more.dropWhile (· != '{') := by
    intro t ht more
    refine List.dropWhile_append_of_pos fun c hc => bne_iff_ne.2 ?_
    rintro rfl
    exact ht hc
  rw [openBraces, List.flatten_cons]
  cases hcut : cutAtBrace? l with
  | none => rw [hskip l (cutAtBrace?_eq_none_iff.1 hcut), openBraces]
  | some parts =>
    obtain ⟨rfl, hfront⟩ := cutAtBrace?_eq_some_iff.1 hcut
    rw [List.append_assoc, hskip _ hfront, List.cons_append,
      List.dropWhile_cons_of_neg (by decide), braceBalance_cons, if_pos rfl, braceBalance_append,
      braceBalance_flatten]
    exact (Int.add_assoc _ _ _).symm

theorem openBraces_append_of_opened (h : isOpened ls = true) (more : List Text) :
    openBraces (ls ++ more) = openBraces ls + totalBalance more := by
  induction ls with
  | nil => exact absurd h (by decide)
  | cons l ls ih =>
    rw [List.cons_append, openBraces_cons, openBraces_cons]
    cases hcut : cutAtBrace? l with
    | none =>
      have hrest : isOpened ls = true := by simpa [isOpened, hcut] using h
      exact ih hrest
    | some parts =>
      dsimp only
      rw [totalBalance_append, Int.add_assoc, Int.add_assoc, Int.add_assoc]

theorem openBraces_append_of_not_opened (h : isOpened ls = false) (more : List Text) :
    openBraces (ls ++ more) = openBraces more := by
  induction ls with
  | nil => rfl
  | cons l ls ih =>
    rw [isOpened, List.any_cons, Bool.or_eq_false_iff] at h
    have hcut : cutAtBrace? l = none := by simpa using h.1
    rw [List.cons_append, openBraces_cons, hcut]
    exact ih h.2

/-- A scan counts closing braces in the header of a class as well. -/
theorem depthBehind_le_openBraces (ls : List Text) : depthBehind ls ≤ openBraces ls := by
  induction ls with
  | nil => exact Int.le_refl 0
  | cons l ls ih =>
    rw [depthBehind, openBraces_cons]
    cases hcut : cutAtBrace? l with
    | none =>
      have hle : braceBalance l ≤ 0 := by
        rw [braceBalance, List.count_eq_zero_of_not_mem (cutAtBrace?_eq_none_iff.1 hcut)]
        omega
      dsimp only
      omega
    | some parts => exact Int.le_refl _

/-! ## Classes that are left in time -/

/-- No closing brace of these lines of a class stands where they are passed over. -/
def NoneOverlooked (ls : List Text) : Prop :=
  ∀ a m, a ++ [m] <+: ls → ∀ part ∈ bodyPart? a m, isPassedOver part = true → '}' ∉ part

theorem bodyPart?_of_readPart? {part : Text} (h : readPart? before l = some part) :
    bodyPart? before l = some part ∧ isPassedOver part = false := by
  obtain ⟨hpart, hread⟩ := Option.filter_eq_some_iff.1 h
  exact ⟨hpart, by simpa using hread⟩

/-- Behind a line that is read, a scan that stays in the class finds braces open. -/
theorem StaysOn.openBraces_pos (h : StaysOn before l) (hread : (readPart? before l).isSome) :
    0 < openBraces (before ++ [l]) := by
  obtain ⟨part, hpart⟩ := Option.isSome_iff_exists.1 hread
  obtain ⟨hbody, hnot⟩ := bodyPart?_of_readPart? hpart
  rcases h part hbody with hpassed | hdepth
  · exact absurd (hpassed.symm.trans hnot) (by decide)
  · exact Int.lt_of_lt_of_le hdepth (depthBehind_le_openBraces _)

theorem braceBalance_nonneg {t : Text} (h : '}' ∉ t) : 0 ≤ braceBalance t := by
  rw [braceBalance, List.count_eq_zero_of_not_mem h]
  omega

theorem exists_bodyPart? (h : isOpened (ls ++ [l]) = true) :
    ∃ part, bodyPart? ls l = some part := by
  rw [isOpened_concat] at h
  rw [bodyPart?]
  cases hopened : isOpened ls with
  | true => exact ⟨l, rfl⟩
  | false =>
    rw [hopened, Bool.false_or] at h
    obtain ⟨parts, hparts⟩ := Option.isSome_iff_exists.1 h
    exact ⟨_, congrArg (Option.map _) hparts⟩

/-- A line that closes no brace leaves the body open. -/
theorem IsOpenBehind.concat (h : IsOpenBehind ls) {part : Text} (hpart : bodyPart? ls l = some part)
    (hnone : '}' ∉ part) : 0 < openBraces (ls ++ [l]) := by
  have hle := braceBalance_nonneg hnone
  rw [bodyPart?] at hpart
  split at hpart
  · rename_i hopened
    obtain rfl := Option.some.inj hpart
    have hpos := h hopened
    rw [openBraces_append_of_opened hopened, totalBalance, totalBalance]
    omega
  · rename_i hopened
    obtain ⟨⟨front, after⟩, hcut, rfl⟩ := Option.map_eq_some_iff.1 hpart
    rw [braceBalance_trim] at hle
    rw [openBraces_append_of_not_opened (Bool.eq_false_iff.2 hopened), openBraces_cons, hcut]
    simp only [totalBalance]
    omega

/-- Where no closing brace is overlooked, the body is open behind all lines if it is behind those
that are read. -/
theorem NoneOverlooked.isOpenBehind (h : NoneOverlooked ls)
    (hread : ∀ a m, a ++ [m] <+: ls → (readPart? a m).isSome → 0 < openBraces (a ++ [m])) :
    IsOpenBehind ls := by
  induction ls using List.reverseRecOn with
  | nil => exact fun hopened => absurd hopened (by decide)
  | append_singleton ls m ih =>
    have hls : ls <+: ls ++ [m] := List.prefix_append ls [m]
    intro hopened
    obtain ⟨part, hpart⟩ := exists_bodyPart? hopened
    cases hpassed : isPassedOver part with
    | true =>
      have hbefore : IsOpenBehind ls :=
        ih (fun a m ha => h a m (ha.trans hls)) fun a m ha => hread a m (ha.trans hls)
      exact hbefore.concat hpart (h ls m (List.prefix_refl _) part hpart hpassed)
    | false =>
      refine hread ls m (List.prefix_refl _) ?_
      rw [readPart?, hpart, Option.filter_some, hpassed]
      rfl

/-! ## Where the body is closed -/

/-- The body is closed nowhere on these lines: behind whatever they begin with, more braces have
been opened than closed from the first opening one on. -/
def NeverClosed (ls : List Text) : Prop := ∀ t, t <+: ls.flatten → '{' ∈ t → 0 < openBraces [t]

instance (ls : List Text) : Decidable (NeverClosed ls) :=
  decidable_of_iff (∀ t ∈ ls.flatten.inits, '{' ∈ t → 0 < openBraces [t])
    (forall_congr' fun t => by rw [List.mem_inits])

/-- A brace on the line closes the body, or would if it was not closed before; behind it on the line
stands the rest. -/
def ClosesBefore (ls : List Text) (l rest : Text) : Prop :=
  ∃ u, l = u ++ '}' :: rest ∧ '{' ∈ ls.flatten ++ u ∧ openBraces (ls ++ [u ++ ['}']]) = 0

/-- The body is closed on a line that is passed over. -/
def IsOverlooked (ls : List Text) : Prop :=
  ∃ a m part rest, a ++ [m] <+: ls ∧ bodyPart? a m = some part ∧ isPassedOver part = true ∧
    ClosesBefore a m rest

/-- The body is closed on a line that is read, and a brace is opened behind on the same line. -/
def IsReopened (ls : List Text) : Prop :=
  ∃ a m part rest, a ++ [m] <+: ls ∧ readPart? a m = some part ∧ ClosesBefore a m rest ∧
    '{' ∈ rest

theorem openBraces_eq_of_flatten_eq {more : List Text} (h : ls.flatten = more.flatten) :
    openBraces ls = openBraces more := by
  rw [openBraces, openBraces, h]

theorem isOpened_iff : isOpened ls = true ↔ '{' ∈ ls.flatten := by
  rw [isOpened, List.any_eq_true, List.mem_flatten]
  simp only [isSome_cutAtBrace?]

/-- Behind the opening brace everything counts. -/
theorem openBraces_append_text {t : Text} (h : '{' ∈ t) (more : Text) :
    openBraces [t ++ more] = openBraces [t] + braceBalance more := by
  have hopened : isOpened [t] = true := isOpened_iff.2 (by simpa using h)
  have hsame : openBraces [t ++ more] = openBraces ([t] ++ [more]) :=
    openBraces_eq_of_flatten_eq (by simp)
  rw [hsame, openBraces_append_of_opened hopened, totalBalance, totalBalance, Int.add_zero]

/-- A character of the lines stands on one of them. -/
theorem exists_line_of_prefix {t : Text} {c : Char} (h : t ++ [c] <+: ls.flatten) :
    ∃ a m b u rest, ls = a ++ m :: b ∧ m = u ++ c :: rest ∧ t = a.flatten ++ u := by
  induction ls generalizing t with
  | nil => exact absurd (List.prefix_nil.1 h) (by simp)
  | cons l ls ih =>
    obtain ⟨v, hv⟩ := h
    rw [List.flatten_cons, List.append_assoc] at hv
    rcases List.append_eq_append_iff.1 hv with ⟨w, rfl, hw⟩ | ⟨w, rfl, hw⟩
    · cases w with
      | nil =>
        -- the line ends in front of the character
        obtain ⟨a, m, b, u, rest, rfl, hm, hu⟩ := ih (t := []) ⟨v, hw⟩
        refine ⟨t :: a, m, b, u, rest, ?_, hm, ?_⟩
        · rw [List.append_nil, List.cons_append]
        · rw [List.flatten_cons, List.append_assoc, ← hu, List.append_nil]
      | cons d w =>
        obtain ⟨rfl, -⟩ := List.cons.inj hw
        exact ⟨[], _, ls, t, w, rfl, rfl, rfl⟩
    · obtain ⟨a, m, b, u, rest, rfl, hm, rfl⟩ := ih ⟨v, by rw [List.append_assoc, hw]⟩
      exact ⟨l :: a, m, b, u, rest, rfl, hm, by rw [List.flatten_cons, List.append_assoc]⟩

theorem ClosesBefore.not_neverClosed {a : List Text} {m rest : Text} (h : ClosesBefore a m rest)
    (ha : a ++ [m] <+: ls) : ¬ NeverClosed ls := by
  obtain ⟨u, rfl, hopened, hclosed⟩ := h
  obtain ⟨b, rfl⟩ := ha
  intro hnever
  have hbegin : a.flatten ++ u ++ ['}'] <+: (a ++ [u ++ '}' :: rest] ++ b).flatten :=
    ⟨rest ++ b.flatten, by simp⟩
  have hpos := hnever _ hbegin (List.mem_append_left _ hopened)
  have hsame : openBraces [a.flatten ++ u ++ ['}']] = openBraces (a ++ [u ++ ['}']]) :=
    openBraces_eq_of_flatten_eq (by simp)
  rw [hsame, hclosed] at hpos
  exact absurd hpos (Int.lt_irrefl 0)

/-- Where more braces are open behind the line than behind the brace that closes the body, one has
been opened in between. -/
theorem ClosesBefore.mem_rest {a : List Text} {m rest : Text} (h : ClosesBefore a m rest)
    (hpos : 0 < openBraces (a ++ [m])) : '{' ∈ rest := by
  obtain ⟨u, rfl, hopened, hclosed⟩ := h
  have hwhole : openBraces (a ++ [u ++ '}' :: rest]) =
      openBraces [a.flatten ++ u ++ ['}'] ++ rest] := openBraces_eq_of_flatten_eq (by simp)
  have hfront : openBraces [a.flatten ++ u ++ ['}']] = openBraces (a ++ [u ++ ['}']]) :=
    openBraces_eq_of_flatten_eq (by simp)
  rw [hwhole, openBraces_append_text (List.mem_append_left _ hopened), hfront, hclosed,
    Int.zero_add] at hpos
  by_contra hnone
  rw [braceBalance, List.count_eq_zero_of_not_mem hnone] at hpos
  omega

/-- The opening brace of the body opens one brace. -/
theorem openBraces_opening {t : Text} (h : '{' ∉ t) : openBraces [t ++ ['{']] = 1 := by
  have hfront : isOpened [t] = false := by
    rw [Bool.eq_false_iff, ne_eq, isOpened_iff]
    simpa using h
  have hsame : openBraces [t ++ ['{']] = openBraces ([t] ++ [['{']]) :=
    openBraces_eq_of_flatten_eq (by simp)
  rw [hsame, openBraces_append_of_not_opened hfront]
  rfl

/-- The first character behind which the body is not open any more is the brace that closes it. -/
theorem exists_closesBefore {t : Text} {c : Char} (hbegin : t ++ [c] <+: ls.flatten)
    (hopened : '{' ∈ t) (hpos : 0 < openBraces [t]) (hle : openBraces [t ++ [c]] ≤ 0) :
    ∃ a m rest, a ++ [m] <+: ls ∧ isOpened (a ++ [m]) = true ∧ ClosesBefore a m rest := by
  obtain ⟨a, m, b, u, rest, rfl, rfl, rfl⟩ := exists_line_of_prefix hbegin
  have hline : isOpened (a ++ [u ++ c :: rest]) = true := by
    rw [isOpened_iff, List.flatten_append, List.flatten_singleton, ← List.append_assoc]
    exact List.mem_append_left _ hopened
  have hnil : braceBalance [] = 0 := rfl
  rw [openBraces_append_text hopened, braceBalance_cons, hnil] at hle
  have hc : c = '}' := by
    by_contra hne
    rw [if_neg hne] at hle
    split at hle <;> omega
  subst hc
  have hsame : openBraces (a ++ [u ++ ['}']]) = openBraces [a.flatten ++ u ++ ['}']] :=
    openBraces_eq_of_flatten_eq (by simp)
  refine ⟨a, _, rest, ⟨b, by simp⟩, hline, u, rfl, hopened, ?_⟩
  rw [if_neg (by decide), if_pos rfl] at hle
  rw [hsame, openBraces_append_text hopened, braceBalance_cons, if_neg (by decide), if_pos rfl,
    hnil]
  omega

/-- If the body is open behind all lines that are read, it has not been closed unless a line is
passed over on which it is, or a line is read on which it is closed and a brace opened behind. -/
theorem neverClosed_iff
    (hread : ∀ a m, a ++ [m] <+: ls → (readPart? a m).isSome → 0 < openBraces (a ++ [m])) :
    NeverClosed ls ↔ ¬ IsOverlooked ls ∧ ¬ IsReopened ls := by
  constructor
  · intro hnever
    refine ⟨?_, ?_⟩
    · rintro ⟨a, m, part, rest, ha, -, -, hcloses⟩
      exact hcloses.not_neverClosed ha hnever
    · rintro ⟨a, m, part, rest, ha, -, hcloses, -⟩
      exact hcloses.not_neverClosed ha hnever
  · rintro ⟨hover, hreopened⟩ t
    -- character by character: the first one that closes the body would stand on such a line
    induction t using List.reverseRecOn with
    | nil => exact fun _ hopened => absurd hopened List.not_mem_nil
    | append_singleton t c ih =>
      intro hbegin hopened
      by_cases hbefore : '{' ∈ t
      · have hpos := ih ((List.prefix_append t [c]).trans hbegin) hbefore
        by_contra hclosed
        obtain ⟨a, m, rest, ha, hline, hcloses⟩ :=
          exists_closesBefore hbegin hbefore hpos (Int.not_lt.1 hclosed)
        obtain ⟨part, hpart⟩ := exists_bodyPart? hline
        cases hpassed : isPassedOver part with
        | true => exact hover ⟨a, m, part, rest, ha, hpart, hpassed, hcloses⟩
        | false =>
          have hreadPart : readPart? a m = some part := by
            rw [readPart?, hpart, Option.filter_some, hpassed]
            rfl
          have hopen := hread a m ha (by rw [hreadPart]; rfl)
          exact hreopened ⟨a, m, part, rest, ha, hreadPart, hcloses, hcloses.mem_rest hopen⟩
      · obtain rfl : '{' = c := by simpa [hbefore] using hopened
        rw [openBraces_opening hbefore]
        exact Int.one_pos

/-! ## What is found -/

/-- What a scan finds on a line it reads in the class that the line belongs to. -/
theorem Scan.StandsIn.found {s : Scan} {inside : Option (List Text)} (h : s.StandsIn inside)
    (hopen : s.HoldsOpen) {entering : Bool} {l : Line} {f : Finding}
    (hf : f ∈ (s.step entering l).2) :
    ∃ before part, entered? inside entering l.erased = some before ∧
      readPart? before l.erased = some part ∧ IsSignedOn f.name f.rawType part := by
  rcases h.step_cases entering l with ⟨-, -, hstep⟩ | ⟨before, s', hin, hs', hstep, hsame⟩
  · rw [hstep] at hf
    exact absurd hf (by simp)
  · have hopen' : s'.HoldsOpen := by
      rcases hsame with ⟨rfl, -⟩ | ⟨rfl, -⟩
      · exact hopen
      · exact hopen
    rw [hstep] at hf
    rcases hs'.stepClass_cases l with ⟨-, -, hnone, -⟩ | ⟨s'', part, hread, -, hs'', hfound, -⟩
    · rw [hnone] at hf
      exact absurd hf (by simp)
    · have hheld : s''.held = s'.held := congrArg Prod.snd hs''
      have hopen'' : s''.HoldsOpen := by
        rw [HoldsOpen, hheld]
        exact hopen'
      rw [hfound] at hf
      exact ⟨before, part.erased, hin, hread, (readsOn_readBodyLine hopen'' part).isSignedOn f hf⟩

/-! ## Recognizing -/

/-- The lines of the class that the line with this number belongs to, in front of the line, if it
belongs to one. -/
def classBefore? (ts : List Text) (k : Nat) : Option (List Text) :=
  ts[k]?.bind (entered? (enclosing none false (ts.take k)) false)

/-- The candidate is found on a line of a class, of which these lines stand in front of it. -/
structure FoundBehind (ts : List Text) (c : Candidate) (before : List Text) (l : Text) : Prop where
  lines : ∃ outside back, ts = outside ++ before ++ l :: back ∧ c.line = (outside ++ before).length
  behind : classBefore? ts c.line = some before
  /-- The first line of the class declares it. -/
  declared : ∃ first ∈ (before ++ [l]).head?, ClassRegion.isDeclaration first = true
  /-- The signature stands in the body of the class; on the line of the brace that opens the body it
  stands behind the brace. -/
  signed : ∃ part, readPart? before l = some part ∧ IsSignedOn c.name c.rawType part
  /-- Behind none of the lines that were read has the body been closed. -/
  openBraces_pos : ∀ a m, a ++ [m] <+: before → (readPart? a m).isSome → 0 < openBraces (a ++ [m])

/-- A class that is closed on a `using` line, and a property behind it. -/
def stray : Text :=
  "public class P\n\x7b\n    public void Run() \x7b\n".toList ++
    "        using (Open()) \x7b \x7d \x7d \x7d\npublic int Stray \x7b get; set; \x7d\n".toList

/-- A class, and a structure that is opened on the line the class is closed on. -/
def neighbour : Text :=
  "class P\n\x7b\n    int A \x7b get; set; \x7d\n\x7d struct Q \x7b\n".toList ++
    "    int B \x7b get; set; \x7d\n\x7d\n".toList

end RazorViews.Member
