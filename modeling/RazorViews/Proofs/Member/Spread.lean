import RazorViews.Proofs.Member.Readings
import RazorViews.Proofs.Member.Sequence
import RazorViews.Proofs.Source.Balanced

/-!
# Annotations over several lines

A line of annotations may be broken inside its groups.  In front of such a place the line leaves a
group open, so a scan sets the pieces aside one after the other and reads them as one line when it
has the last.

## What is proved

`recognize_spread` compares a text in which a line is broken into pieces, with blank lines among
them, and the text in which they stand on one line, joined by spaces.  What is found is the same but
for the numbers of lines, with or without source beside it, and with any region around it, none
included.

That is so where the scan counts a brace of the class open in front of the line.  A class whose
braces are all counted closed, as it may be behind a line that was passed over, is left behind the
first piece, though the line itself would have been read.  There the same is found exactly if there
is nothing to find on the line.  `not_recognize_spread_late` is such a text.

The last part is about every run: no more lines are set aside than an annotation may extend over,
and what they hold so far leaves an annotation open.

## The hypotheses

`AreBrokenInside` says what may be a line that is broken.  There are at least two pieces and not
more than an annotation may extend over.  Each place where the line is broken is inside a group, and
not inside quotes.  Only the last piece has braces, and none reads like a line that is passed over.
`SpreadOver` puts blank lines among them, and `Surrounds` says that the region neither begins nor
ends within.

## The proof

Between two pieces the scan is where it was, with the pieces so far set aside
(`Scan.HoldsPieces.step_piece`); the last one makes them a line that is read
(`Scan.HoldsPieces.step_last`).  In a class that counts as closed the first piece leaves it, and the
others do not enter one (`Scan.findings_lost`).
-/

namespace RazorViews

namespace Annotations

/-! ## Cuts inside groups -/

/-- The texts are the two parts of a line that is cut inside a group. -/
def IsCutInside (front back : Text) : Prop :=
  ∃ (gs : List Group) (gap inside inside' after : Text),
    front = writtenGroups gs ++ (gap ++ '[' :: inside) ∧ back = inside' ++ ']' :: after ∧
      (∀ c ∈ gap, Text.isBlank c = true) ∧ Balanced (inside ++ ' ' :: inside')

/-- The first bracket that closes more than has been opened is in the way of any balance behind. -/
theorem Balanced.not_append_close {u : Text} (h : Balanced u) (more : Text) :
    ¬ Balanced (u ++ ']' :: more) := by
  intro hlonger
  have hwhole : closeGroup 0 none (u ++ ']' :: (more ++ [']'])) =
      some (u ++ ']' :: more, []) := by
    rw [closeGroup_eq_some_iff]
    refine ⟨?_, hlonger⟩
    rw [List.append_assoc, List.cons_append]
  rw [closeGroup_eq_some_iff.2 ⟨rfl, h⟩, Option.some.injEq, Prod.mk.injEq] at hwhole
  exact absurd hwhole.2 (by simp)

/-- In front of a cut a group is open. -/
theorem unfinished_of_isCutInside {front back : Text} (h : IsCutInside front back) :
    (split front).unfinished = true := by
  obtain ⟨gs, gap, inside, inside', after, rfl, -, hgap, hbody⟩ := h
  have hopen : closeGroup 0 none inside = none := by
    rw [closeGroup_eq_none_iff]
    rintro body more rfl hclosed
    rw [List.append_assoc, List.cons_append] at hbody
    exact hclosed.not_append_close _ hbody
  have htrim : Text.trimLeft ('[' :: inside) = '[' :: inside :=
    Text.trimLeft_eq_self fun c hc => Option.some.inj hc ▸ rfl
  rw [split_written_append, split_blanks_append hgap, split_open htrim hopen]

/-- A line that leaves a group open begins with a bracket, but for white space. -/
theorem head?_of_unfinished {line : Text} (h : (split line).unfinished = true) :
    (Text.trimLeft line).head? = some '[' := by
  by_contra hhead
  rw [split_noGroup hhead] at h
  exact Bool.false_ne_true h

/-- Groups are closed unless what follows them begins with another bracket. -/
theorem finished_of_written {gs : List Group} {rest : Text}
    (h : (Text.trimLeft rest).head? ≠ some '[') :
    (split (writtenGroups gs ++ rest)).unfinished = false := by
  rw [split_written_append, split_noGroup h]

end Annotations

/-- What a candidate is but for its line. -/
def Candidate.finding (c : Candidate) : Member.Finding := ⟨c.name, c.rawType, c.attributes⟩

namespace Member

open Annotations

variable {s : Scan} {inside : Option (List Text)} {p : Line} {done rest pieces block : List Line}

/-! ## How many lines are set aside -/

/-- No more lines are set aside than an annotation may extend over. -/
def Scan.HoldsFew (s : Scan) : Prop := s.held.length ≤ maxAnnotationLines

theorem Scan.holdsFew_readBodyLine (s : Scan) (l : Line) : (s.readBodyLine l).1.HoldsFew := by
  rw [readBodyLine_eq]
  split
  · exact Nat.zero_le _
  · rename_i hfew
    split
    · exact Nat.not_lt.1 hfew
    · rw [HoldsFew, (readMember_spec { s with held := [] } _).1]
      exact Nat.zero_le _

theorem Scan.HoldsFew.of_reading {s' : Scan} (h : s.HoldsFew) (hs : s'.reading = s.reading) :
    s'.HoldsFew := by
  have hheld : s'.held = s.held := congrArg Prod.snd hs
  rw [HoldsFew, hheld]
  exact h

theorem Scan.HoldsFew.stepClass {before : List Text} (h : s.HoldsFew) (hs : s.Follows before)
    (l : Line) : (s.stepClass l).1.HoldsFew := by
  rcases hs.stepClass_cases l with ⟨-, -, -, hsame⟩ | ⟨s', part, -, -, -, -, hreading⟩
  · exact h.of_reading hsame
  · split at hreading
    · exact (s'.holdsFew_readBodyLine part).of_reading hreading
    · exact of_reading (s := Scan.start) (Nat.zero_le _) hreading

theorem Scan.HoldsFew.step (h : s.HoldsFew) (hs : s.StandsIn inside) (entering : Bool) (l : Line) :
    (s.step entering l).1.HoldsFew := by
  rcases hs.step_cases entering l with ⟨-, -, hstep⟩ | ⟨before, s', -, hs', hstep, hsame⟩
  · rw [hstep]
    exact h
  · rw [hstep]
    refine stepClass ?_ hs' l
    rcases hsame with ⟨rfl, -⟩ | ⟨rfl, -⟩
    · exact h
    · exact h

theorem Scan.holdsFew_past (entering : Bool) (ls : List Line) :
    (Scan.start.past entering ls).HoldsFew :=
  standsIn_start.past_of_step (fun hs h entering l => h.step hs entering l) (Nat.zero_le _)
    entering ls

/-! ## Findings -/

/-- What a scan finds on some lines. -/
def Scan.findings (s : Scan) (entering : Bool) (ls : List Line) : List Finding :=
  (s.run entering 0 ls).map Candidate.finding

/-- The numbers of the lines have no part in what is found. -/
theorem Scan.map_finding_run (s : Scan) (entering : Bool) (index : Nat) (ls : List Line) :
    (s.run entering index ls).map Candidate.finding = s.findings entering ls := by
  have hrun := run_add s entering index 0 ls
  rw [Nat.add_zero] at hrun
  rw [hrun, List.map_map]
  rfl

theorem Scan.findings_append (s : Scan) (entering : Bool) (ls more : List Line) :
    s.findings entering (ls ++ more) =
      s.findings entering ls ++ (s.past entering ls).findings (entering && ls.isEmpty) more := by
  rw [findings, run_append, List.map_append, map_finding_run, map_finding_run]

/-- What is found on further lines, if a class that is to be entered has been entered before. -/
theorem Scan.findings_behind {entering : Bool} {ls : List Line} (h : entering = true → ls ≠ [])
    (s : Scan) (more : List Line) :
    s.findings entering (ls ++ more) =
      s.findings entering ls ++ (s.past entering ls).findings false more := by
  rw [findings_append]
  cases entering with
  | true => rw [Bool.true_and, List.isEmpty_eq_false_iff.2 (h rfl)]
  | false => rw [Bool.false_and]

theorem Scan.findings_cons (s : Scan) (entering : Bool) (l : Line) (rest : List Line) :
    s.findings entering (l :: rest) =
      (s.step entering l).2.toList ++ (s.step entering l).1.findings false rest := by
  rw [findings, run_cons, List.map_append, map_finding_run]
  cases (s.step entering l).2 with
  | none => rfl
  | some f => rfl

/-! ## Pieces of a line -/

/-- The lines hold the pieces in order, each on one line, with blank lines between them. -/
inductive SpreadOver : List Line → List Line → Prop
  | last (p : Line) : SpreadOver [p] [p]
  | piece (p : Line) {pieces block : List Line} : SpreadOver pieces block →
      SpreadOver (p :: pieces) (p :: block)
  | blank {l : Line} {pieces block : List Line} : l.erased = [] → SpreadOver pieces block →
      SpreadOver pieces (l :: block)

/-- The pieces of a line of annotations, and whatever follows them but another bracket, that is
broken inside the groups.  There are no braces in front of the last place where it is broken, and no
piece is one that is passed over. -/
structure AreBrokenInside (pieces : List Line) : Prop where
  several : 2 ≤ pieces.length
  few : pieces.length ≤ maxAnnotationLines
  inside : ∀ k, 0 < k → k < pieces.length →
    IsCutInside (joinLines (pieces.take k)).erased (joinLines (pieces.drop k)).erased
  closed : ∃ gs rest, (joinLines pieces).erased = writtenGroups gs ++ rest ∧
    (Text.trimLeft rest).head? ≠ some '['
  braceless : ∀ p ∈ pieces.dropLast, '{' ∉ p.erased ∧ '}' ∉ p.erased
  isRead : ∀ p ∈ pieces, isPassedOver p.erased = false

theorem braceBalance_join (ts : List Text) :
    braceBalance (Text.join [' '] ts) = totalBalance ts := by
  induction ts with
  | nil => rfl
  | cons t ts ih =>
    cases ts with
    | nil => simp [totalBalance]
    | cons second ts =>
      have hblank : braceBalance [' '] = 0 := by decide
      have hwhole : totalBalance (t :: second :: ts) =
          braceBalance t + totalBalance (second :: ts) := rfl
      rw [Text.join_cons_cons, braceBalance_append, braceBalance_append, hblank, Int.zero_add, ih,
        hwhole]

theorem totalBalance_eq_zero {ts : List Text} (h : ∀ t ∈ ts, '{' ∉ t ∧ '}' ∉ t) :
    totalBalance ts = 0 := by
  induction ts with
  | nil => rfl
  | cons t ts ih =>
    obtain ⟨⟨hopen, hclose⟩, hrest⟩ := List.forall_mem_cons.1 h
    rw [totalBalance, braceBalance_eq_zero hopen hclose, ih hrest, Int.add_zero]

/-- A line that begins with a bracket is not passed over. -/
theorem isPassedOver_of_bracket {t : Text} (h : (Text.trimLeft t).head? = some '[') :
    isPassedOver t = false := by
  have hword : ∀ c word, Text.isBlank c = false → c ≠ '[' → t.beginsWith (c :: word) = false := by
    intro c word hblank hc
    rw [Bool.eq_false_iff]
    intro hbegins
    obtain ⟨more, rfl⟩ := List.isPrefixOf_iff_prefix.1 hbegins
    have htrim : Text.trimLeft (c :: word ++ more) = c :: (word ++ more) :=
      Text.trimLeft_eq_self fun d hd => Option.some.inj hd ▸ hblank
    rw [htrim] at h
    exact hc (Option.some.inj h)
  have hne : t ≠ [] := by
    rintro rfl
    exact absurd h (by decide)
  simp only [isPassedOver, Bool.or_eq_false_iff, List.isEmpty_eq_false_iff]
  exact ⟨⟨hne, hword 'u' "sing ".toList (by decide) (by decide)⟩,
    hword 'n' "amespace ".toList (by decide) (by decide)⟩

/-- In front of each place where it is broken, the line leaves a group open. -/
theorem AreBrokenInside.unfinished (h : AreBrokenInside (done ++ rest)) (hdone : done ≠ [])
    (hrest : rest ≠ []) : (split (joinLines done).erased).unfinished = true := by
  have hcut := h.inside done.length (List.length_pos_iff.2 hdone) (by
    rw [List.length_append]
    exact Nat.lt_add_of_pos_right (List.length_pos_iff.2 hrest))
  rw [List.take_left, List.drop_left] at hcut
  exact unfinished_of_isCutInside hcut

theorem AreBrokenInside.finished (h : AreBrokenInside pieces) :
    (split (joinLines pieces).erased).unfinished = false := by
  obtain ⟨gs, rest, hline, hrest⟩ := h.closed
  rw [hline]
  exact finished_of_written hrest

theorem AreBrokenInside.ne_nil (h : AreBrokenInside (done ++ [p])) : done ≠ [] := by
  rintro rfl
  exact absurd h.several (by simp)

/-- The line that the pieces are joined to is not passed over either. -/
theorem AreBrokenInside.isRead_joinLines (h : AreBrokenInside pieces) :
    isPassedOver (joinLines pieces).erased = false := by
  rcases List.eq_nil_or_concat' pieces with rfl | ⟨done, p, rfl⟩
  · exact absurd h.several (by simp)
  · have hfront := head?_of_unfinished (h.unfinished h.ne_nil (List.cons_ne_nil p []))
    have hne : Text.trimLeft (joinLines done).erased ≠ [] := by
      intro hnil
      rw [hnil] at hfront
      exact absurd hfront (by simp)
    refine isPassedOver_of_bracket ?_
    rw [erased_joinLines_concat h.ne_nil, Text.trimLeft_append hne, List.head?_append, hfront]
    rfl

/-- Only the last piece has braces. -/
theorem AreBrokenInside.braceBalance_joinLines (h : AreBrokenInside (done ++ [p])) :
    braceBalance (joinLines (done ++ [p])).erased = braceBalance p.erased := by
  have hdone : totalBalance (done.map Line.erased) = 0 := by
    refine totalBalance_eq_zero ?_
    intro t ht
    obtain ⟨q, hq, rfl⟩ := List.mem_map.1 ht
    exact h.braceless q (by rwa [List.dropLast_concat])
  have hlast : totalBalance [p.erased] = braceBalance p.erased := Int.add_zero _
  rw [joinLines, braceBalance_join, List.map_append, totalBalance_append, hdone, Int.zero_add]
  exact hlast

/-- The first piece is read, has no braces and leaves a group open. -/
theorem AreBrokenInside.first (h : AreBrokenInside pieces) (hp : pieces.head? = some p) :
    isPassedOver p.erased = false ∧ braceBalance p.erased = 0 ∧
      (split p.erased).unfinished = true := by
  obtain ⟨rest, rfl⟩ := List.head?_eq_some_iff.1 hp
  have hrest : rest ≠ [] := by
    rintro rfl
    exact absurd h.several (by simp)
  have hlast : p ∈ (p :: rest).dropLast := by
    rw [List.dropLast_cons_of_ne_nil hrest]
    exact List.mem_cons_self
  obtain ⟨hopen, hclose⟩ := h.braceless p hlast
  have hparts : AreBrokenInside ([p] ++ rest) := h
  have hunfinished := hparts.unfinished (List.cons_ne_nil p []) hrest
  rw [joinLines_singleton] at hunfinished
  exact ⟨h.isRead p List.mem_cons_self, braceBalance_eq_zero hopen hclose, hunfinished⟩

theorem SpreadOver.ne_nil (h : SpreadOver pieces block) : pieces ≠ [] := by
  induction h with
  | last p => exact List.cons_ne_nil p []
  | piece p _ _ => exact List.cons_ne_nil p _
  | blank _ _ ih => exact ih

theorem SpreadOver.block_ne_nil (h : SpreadOver pieces block) : block ≠ [] := by
  cases h with
  | last p => exact List.cons_ne_nil p []
  | piece p _ => exact List.cons_ne_nil p _
  | blank _ _ => exact List.cons_ne_nil _ _

/-- Lines that close their annotation at last are read as one. -/
theorem Scan.readBodyLine_joinLines (hfew : (s.held ++ [p]).length ≤ maxAnnotationLines)
    (hfinished : (split (joinLines (s.held ++ [p])).erased).unfinished = false) :
    s.readBodyLine p =
      ({ s with held := [] } : Scan).readBodyLine (joinLines (s.held ++ [p])) := by
  have hone : ¬ maxAnnotationLines <
      (({ s with held := [] } : Scan).held ++ [joinLines (s.held ++ [p])]).length :=
    Nat.not_lt.2 (Nat.le_of_ble_eq_true rfl)
  rw [readBodyLine_eq, if_neg (Nat.not_lt.2 hfew), readBodyLine_eq, if_neg hone, List.nil_append,
    joinLines_singleton, hfinished, if_neg Bool.false_ne_true, if_neg Bool.false_ne_true]

theorem Scan.step_inBody (hclass : s.inClass = true) (hbody : s.inBody = true) (l : Line) :
    s.step false l = s.stepBody l := by
  rw [step, if_pos hclass, stepClass, if_pos hbody]

/-- A scan in the body of a class that has a brace open has these lines of an annotation set
aside. -/
structure Scan.HoldsPieces (s : Scan) (held : List Line) : Prop where
  inClass : s.inClass = true
  inBody : s.inBody = true
  isOpen : s.entryDepth < s.depth
  held : s.held = held

/-- A piece that is not the last one is set aside. -/
theorem Scan.HoldsPieces.step_piece (h : s.HoldsPieces done)
    (hpieces : AreBrokenInside ((done ++ [p]) ++ rest)) (hrest : rest ≠ []) :
    s.step false p = ({ s with held := done ++ [p] }, none) := by
  obtain ⟨hclass, hbody, hopen, rfl⟩ := h
  have hread := hpieces.isRead p (by simp)
  have hunfinished := hpieces.unfinished (by simp) hrest
  have hlast : p ∈ ((s.held ++ [p]) ++ rest).dropLast := by
    rw [List.dropLast_append_of_ne_nil hrest]
    simp
  obtain ⟨hopening, hclosing⟩ := hpieces.braceless p hlast
  have hfew : (s.held ++ [p]).length ≤ maxAnnotationLines := by
    have hall := hpieces.few
    rw [List.length_append] at hall
    exact Nat.le_of_add_right_le hall
  have hstays : ¬ s.depth ≤ s.entryDepth := Int.not_le.2 hopen
  rw [step_inBody hclass hbody, stepBody, hread, braceBalance_eq_zero hopening hclosing,
    Int.add_zero, readBodyLine_eq, if_neg (Nat.not_lt.2 hfew), if_pos hunfinished]
  simp only [Bool.false_eq_true, if_false, leave, if_neg hstays]

/-- The last piece is read as the whole line. -/
theorem Scan.HoldsPieces.step_last (h : s.HoldsPieces done)
    (hpieces : AreBrokenInside (done ++ [p])) :
    s.step false p = ({ s with held := [] } : Scan).step false (joinLines (done ++ [p])) := by
  obtain ⟨hclass, hbody, -, rfl⟩ := h
  have hread := hpieces.isRead p (by simp)
  have hjoined := readBodyLine_joinLines
    (s := { s with depth := s.depth + braceBalance p.erased }) hpieces.few hpieces.finished
  rw [step_inBody hclass hbody, step_inBody (s := { s with held := [] }) hclass hbody, stepBody,
    stepBody, hread, hpieces.isRead_joinLines, hpieces.braceBalance_joinLines]
  dsimp only at hjoined ⊢
  rw [if_neg Bool.false_ne_true, if_neg Bool.false_ne_true, hjoined]

/-- Blank lines change nothing. -/
theorem Scan.step_blank (hclass : s.inClass = true) (hbody : s.inBody = true) {l : Line}
    (hl : l.erased = []) : s.step false l = (s, none) := by
  have hbalance : braceBalance [] = 0 := rfl
  have hpassed : isPassedOver [] = true := rfl
  rw [step_inBody hclass hbody, stepBody, hl, hbalance, hpassed, Int.add_zero, if_pos rfl]

/-- **Pieces are read as the line** that they are joined to. -/
theorem Scan.HoldsPieces.spread (h : s.HoldsPieces done) (hblock : SpreadOver rest block)
    (hpieces : AreBrokenInside (done ++ rest)) :
    s.findings false block =
        (({ s with held := [] } : Scan).step false (joinLines (done ++ rest))).2.toList ∧
      s.past false block =
        (({ s with held := [] } : Scan).step false (joinLines (done ++ rest))).1 := by
  induction hblock generalizing s done with
  | last p =>
    rw [findings_cons, past, past, h.step_last hpieces]
    exact ⟨List.append_nil _, rfl⟩
  | @piece p pieces block hblock ih =>
    have happend : done ++ p :: pieces = (done ++ [p]) ++ pieces := by simp
    rw [happend] at hpieces ⊢
    rw [findings_cons, past, h.step_piece hpieces hblock.ne_nil]
    exact ih ⟨h.inClass, h.inBody, h.isOpen, rfl⟩ hpieces
  | blank hl _ ih =>
    rw [findings_cons, past, step_blank h.inClass h.inBody hl]
    exact ih h hpieces

/-- The pieces have the findings of the line, whatever follows. -/
theorem Scan.findings_spread (h : s.HoldsPieces []) (hblock : SpreadOver pieces block)
    (hpieces : AreBrokenInside pieces) (behind : List Line) :
    s.findings false (block ++ behind) = s.findings false (joinLines pieces :: behind) := by
  obtain ⟨hfound, hpast⟩ := h.spread hblock hpieces
  have hheld : ({ s with held := [] } : Scan) = s := by
    rw [← h.held]
  rw [hheld, List.nil_append] at hfound hpast
  rw [findings_append, findings_cons, hfound, hpast, Bool.false_and]

/-! ## Where no brace is counted open -/

/-- A scan in the body of a class, outside annotations, that counts no brace of the class open in
front of a line with so many braces, and none behind it. -/
structure Scan.InClosedBody (s : Scan) (braces : Int) : Prop where
  inClass : s.inClass = true
  inBody : s.inBody = true
  held : s.held = []
  before : s.depth ≤ s.entryDepth
  behind : s.depth + braces ≤ s.entryDepth

/-- The class is left behind a line that is read. -/
theorem Scan.inClass_step_closed (hclass : s.inClass = true) (hbody : s.inBody = true)
    (hread : isPassedOver p.erased = false)
    (hclosed : s.depth + braceBalance p.erased ≤ s.entryDepth) :
    (s.step false p).1.inClass = false := by
  have hstanding := congrArg Prod.fst (s.standing_stepBody p)
  rw [hread, decide_eq_false (Int.not_lt.2 hclosed), Bool.or_false, Bool.and_false] at hstanding
  rw [step_inBody hclass hbody]
  exact hstanding

/-- Nothing is found on a piece that opens an annotation. -/
theorem Scan.step_opening (hclass : s.inClass = true) (hbody : s.inBody = true)
    (hheld : s.held = []) (hread : isPassedOver p.erased = false)
    (hunfinished : (split p.erased).unfinished = true) : (s.step false p).2 = none := by
  rw [step_inBody hclass hbody, stepBody, hread, readBodyLine]
  simp [hheld, hunfinished]

/-- Every line is blank or holds a piece. -/
theorem SpreadOver.mem (h : SpreadOver pieces block) {l : Line} (hl : l ∈ block) :
    l.erased = [] ∨ l ∈ pieces := by
  induction h with
  | last p => exact .inr hl
  | piece p _ ih =>
    rcases List.mem_cons.1 hl with rfl | hl
    · exact .inr List.mem_cons_self
    · exact (ih hl).imp_right (List.mem_cons_of_mem p)
  | blank hblank _ ih =>
    rcases List.mem_cons.1 hl with rfl | hl
    · exact .inl hblank
    · exact ih hl

/-- The first of the lines that is not blank holds the first piece. -/
theorem SpreadOver.exists_first (h : SpreadOver pieces block) :
    ∃ blanks p rest, block = blanks ++ p :: rest ∧ (∀ l ∈ blanks, l.erased = []) ∧
      pieces.head? = some p ∧ ∀ l ∈ rest, l.erased = [] ∨ l ∈ pieces.tail := by
  induction h with
  | last p => exact ⟨[], p, [], rfl, by simp, rfl, by simp⟩
  | piece p h _ => exact ⟨[], p, _, rfl, by simp, rfl, fun _ => h.mem⟩
  | @blank l _ _ hblank _ ih =>
    obtain ⟨blanks, p, rest, rfl, hblanks, hhead, hrest⟩ := ih
    exact ⟨l :: blanks, p, rest, rfl, List.forall_mem_cons.2 ⟨hblank, hblanks⟩, hhead, hrest⟩

theorem Scan.findings_blanks (hclass : s.inClass = true) (hbody : s.inBody = true)
    {blanks : List Line} (hblanks : ∀ l ∈ blanks, l.erased = []) (rest : List Line) :
    s.findings false (blanks ++ rest) = s.findings false rest := by
  induction blanks with
  | nil => rfl
  | cons l blanks ih =>
    obtain ⟨hl, hmore⟩ := List.forall_mem_cons.1 hblanks
    rw [List.cons_append, findings_cons, step_blank hclass hbody hl]
    exact ih hmore

/-- What a scan finds that stands outside classes with nothing set aside. -/
theorem Scan.IsTidy.findings_eq (h : s.IsTidy) (hout : s.inClass = false) (ls : List Line) :
    s.findings false ls = Scan.start.findings false ls := by
  rw [findings, h.run_eq hout, findings]

/-- **The pieces are lost** if no brace of the class is counted open, and the line is not. -/
theorem Scan.findings_lost {inside : Option (List Text)} (hs : s.StandsIn inside) (htidy : s.IsTidy)
    (h : s.InClosedBody (braceBalance (joinLines pieces).erased)) (hblock : SpreadOver pieces block)
    (hpieces : AreBrokenInside pieces)
    (hnone : ∀ p ∈ pieces.tail, ClassRegion.isDeclaration p.erased = false) (behind : List Line) :
    s.findings false (block ++ behind) = Scan.start.findings false behind ∧
      s.findings false (joinLines pieces :: behind) =
        (s.step false (joinLines pieces)).2.toList ++ Scan.start.findings false behind := by
  obtain ⟨hclass, hbody, hheld, hbefore, hbehind⟩ := h
  constructor
  · obtain ⟨blanks, p, rest, rfl, hblanks, hhead, hrest⟩ := hblock.exists_first
    obtain ⟨hread, hbalance, hunfinished⟩ := hpieces.first hhead
    have hout := inClass_step_closed hclass hbody hread (by rwa [hbalance, Int.add_zero])
    have hoff : ∀ l ∈ rest, ClassRegion.isDeclaration l.erased = false := by
      intro l hl
      rcases hrest l hl with hblank | hpiece
      · rw [hblank]
        decide +kernel
      · exact hnone l hpiece
    have hback := inClass_past_outside (s := Scan.start) rfl hoff
    have hempty : Scan.start.findings false rest = [] := by
      rw [findings, run_outside rfl 0 hoff, List.map_nil]
    rw [List.append_assoc, findings_blanks hclass hbody hblanks, List.cons_append, findings_cons,
      step_opening hclass hbody hheld hread hunfinished,
      (htidy.step hs false p).findings_eq hout, findings_append, hempty, Bool.false_and,
      (isTidy_past false rest).findings_eq hback]
    rfl
  · have hout := inClass_step_closed hclass hbody hpieces.isRead_joinLines hbehind
    rw [findings_cons, (htidy.step hs false _).findings_eq hout]

/-! ## Recognizing -/

variable {erased erased' : Text} {raw raw' : Option Text} {front behind : List Line}
  {region : Option ClassRegion}

/-- The lines of a region that begins in front of a block of lines and ends behind it. -/
theorem regionLines_around (hlines : pairLines erased raw = front ++ (block ++ behind))
    {r : ClassRegion} {m : Nat} (hfirst : r.firstLine < front.length)
    (hlast : r.lastLine + 1 = front.length + (block.length + m)) :
    regionLines erased raw r = front.drop r.firstLine ++ (block ++ behind.take m) := by
  rw [regionLines, hlines, hlast, List.take_length_add_append, List.take_length_add_append,
    List.drop_append_of_le_length (Nat.le_of_lt hfirst)]

/-- The lines in front that are read: those of the region, or all of them. -/
def readFront (region : Option ClassRegion) (front : List Line) : List Line :=
  front.drop (region.elim 0 ClassRegion.firstLine)

/-- The scan behind the lines in front. -/
def scanBehind (region : Option ClassRegion) (front : List Line) : Scan :=
  Scan.start.past region.isSome (readFront region front)

/-- The region that has so many more lines at its end. -/
def prolonged (region : Option ClassRegion) (n : Nat) : Option ClassRegion :=
  region.map fun r => { r with lastLine := r.lastLine + n }

/-- The region, if there is one, begins in front of a line and does not end there. -/
def Surrounds (region : Option ClassRegion) (line : Nat) : Prop :=
  ∀ r ∈ region, r.firstLine < line ∧ line ≤ r.lastLine

/-- What is read of a text in which a line is spread over a block of lines, and of the text with
the line itself. -/
theorem exists_map_finding (hne : block ≠ [])
    (hlines : pairLines erased raw = front ++ (block ++ behind))
    (hlines' : pairLines erased' raw' = front ++ p :: behind)
    (hregion : Surrounds region front.length) :
    ∃ more,
      (recognize erased raw (prolonged region (block.length - 1))).map Candidate.finding =
        Scan.start.findings region.isSome (readFront region front ++ (block ++ more)) ∧
      (recognize erased' raw' region).map Candidate.finding =
        Scan.start.findings region.isSome (readFront region front ++ p :: more) := by
  cases region with
  | none =>
    refine ⟨behind, ?_, ?_⟩
    · rw [prolonged, Option.map_none, recognize, hlines, Scan.map_finding_run]
      rfl
    · rw [recognize, hlines', Scan.map_finding_run]
      rfl
  | some r =>
    obtain ⟨hfirst, hlast⟩ := hregion r rfl
    obtain ⟨m, hm⟩ := Nat.exists_eq_add_of_le hlast
    have hpos : 0 < block.length := List.length_pos_iff.2 hne
    have hread : ∀ erased raw r, recognize erased raw (some r) =
        Scan.start.run true r.firstLine (regionLines erased raw r) := fun _ _ _ => rfl
    have hline : pairLines erased' raw' = front ++ ([p] ++ behind) := hlines'
    have hblock := regionLines_around (r := { r with lastLine := r.lastLine + (block.length - 1) })
      hlines hfirst (m := m) (by
        dsimp only
        omega)
    have hsingle := regionLines_around hline hfirst (m := m) (by
      rw [List.length_singleton]
      omega)
    refine ⟨behind.take m, ?_, ?_⟩
    · rw [prolonged, Option.map_some, hread, hblock, Scan.map_finding_run]
      rfl
    · rw [hread, hsingle, Scan.map_finding_run]
      rfl

/-- **An annotation over several lines is read like one on a single line.**  Wherever in a text a
line of annotations is broken inside its groups, with or without source beside it, the same is found
as if it were not, without a region and in any region around it, if the scan counts a brace of the
class open in front of it.  If it counts none, there or behind the line, and no piece declares a
class, the same is found just if there is nothing to find on the line.  In every run no more lines
are set aside than an annotation may extend over, and those that are leave it open. -/
theorem recognize_spread (hpieces : AreBrokenInside pieces) (hblock : SpreadOver pieces block)
    (hlines : pairLines erased raw = front ++ (block ++ behind))
    (hlines' : pairLines erased' raw' = front ++ joinLines pieces :: behind)
    (hregion : Surrounds region front.length) :
    ((scanBehind region front).HoldsPieces [] →
      (recognize erased raw (prolonged region (block.length - 1))).map Candidate.finding =
        (recognize erased' raw' region).map Candidate.finding) ∧
    ((scanBehind region front).InClosedBody (braceBalance (joinLines pieces).erased) →
      (∀ p ∈ pieces.tail, ClassRegion.isDeclaration p.erased = false) →
      ((recognize erased raw (prolonged region (block.length - 1))).map Candidate.finding =
          (recognize erased' raw' region).map Candidate.finding ↔
        ((scanBehind region front).step false (joinLines pieces)).2 = none)) ∧
    ∀ entering ls, (Scan.start.past entering ls).HoldsFew ∧
      (Scan.start.past entering ls).HoldsOpen := by
  obtain ⟨more, hspread, hwhole⟩ := exists_map_finding hblock.block_ne_nil hlines hlines' hregion
  have hfront : region.isSome = true → readFront region front ≠ [] := by
    intro hsome
    obtain ⟨r, rfl⟩ := Option.isSome_iff_exists.1 hsome
    rw [← List.length_pos_iff, readFront, List.length_drop]
    exact Nat.sub_pos_of_lt (hregion r rfl).1
  rw [hspread, hwhole, Scan.findings_behind hfront, Scan.findings_behind hfront, ← scanBehind]
  refine ⟨?_, ?_, ?_⟩
  · intro h
    rw [Scan.findings_spread h hblock hpieces more]
  · intro h hnone
    have hs := Scan.standsIn_start.past region.isSome (readFront region front)
    obtain ⟨hlost, hfound⟩ :=
      Scan.findings_lost hs (Scan.isTidy_past _ _) h hblock hpieces hnone more
    rw [scanBehind, hlost, hfound, List.append_cancel_left_eq, List.self_eq_append_left,
      Option.toList_eq_nil_iff]
  · intro entering ls
    exact ⟨Scan.holdsFew_past entering ls,
      Scan.holdsOpen_past (Scan.holdsOpen_of_nil rfl) entering ls⟩

/-! ## A line that is broken twice -/

/-- The pieces of a line with two groups, the second one over three lines. -/
def codePieces : List Line :=
  [⟨"[Required] [Display(".toList, some "[Required] [Display(".toList⟩,
   ⟨"Name = \"\",".toList, some "Name = \"Full name\",".toList⟩,
   ⟨"Order = 2)] public int X \x7b get; set; \x7d".toList,
    some "Order = 2)] public int X \x7b get; set; \x7d".toList⟩]

/-- The same with blank lines between them. -/
def codeBlock : List Line :=
  [codePieces[0], ⟨[], some []⟩, codePieces[1], ⟨[], some []⟩, ⟨[], some []⟩, codePieces[2]]

def codeRequired : Group where
  gap := []
  body := "Required".toList
  isBlank_gap := isBlank_of_mem_nil
  balanced_body := by decide +kernel

def codeDisplay : Group where
  gap := [' ']
  body := "Display( Name = \"\", Order = 2)".toList
  isBlank_gap := List.all_eq_true.1 rfl
  balanced_body := by decide +kernel

theorem areBrokenInside_codePieces : AreBrokenInside codePieces where
  several := by decide
  few := by decide
  inside := by
    intro k hpos hk
    have hcases : k = 1 ∨ k = 2 := by
      have hlength : codePieces.length = 3 := rfl
      omega
    rcases hcases with rfl | rfl
    · exact ⟨[codeRequired], [' '], "Display(".toList, "Name = \"\", Order = 2)".toList,
        " public int X \x7b get; set; \x7d".toList, by decide +kernel, by decide +kernel,
        codeDisplay.isBlank_gap, codeDisplay.balanced_body⟩
    · exact ⟨[codeRequired], [' '], "Display( Name = \"\",".toList, "Order = 2)".toList,
        " public int X \x7b get; set; \x7d".toList, by decide +kernel, by decide +kernel,
        codeDisplay.isBlank_gap, codeDisplay.balanced_body⟩
  closed := ⟨[codeRequired, codeDisplay], " public int X \x7b get; set; \x7d".toList,
    by decide +kernel, by decide +kernel⟩
  braceless := by decide +kernel
  isRead := by decide +kernel

theorem spreadOver_codeBlock : SpreadOver codePieces codeBlock :=
  .piece _ (.blank rfl (.piece _ (.blank rfl (.blank rfl (.last _)))))

/-- The text of a class with the property, whose annotation has this for a name; the line is broken
as the pieces are. -/
def brokenCode (name : String) : Text :=
  "class P\n\x7b\n  [Required] [Display(\n\n    Name = \"".toList ++ name.toList ++
    "\",\n\n\n    Order = 2)] public int X \x7b get; set; \x7d\n\x7d".toList

/-- The same on one line. -/
def wholeCode (name : String) : Text :=
  "class P\n\x7b\n  [Required] [Display( Name = \"".toList ++ name.toList ++
    "\", Order = 2)] public int X \x7b get; set; \x7d\n\x7d".toList

/-- The lines of the text in front of the property. -/
def codeFront : List Line := ["class P", "\x7b"].map fun l => ⟨l.toList, some l.toList⟩

theorem past_codeFront (entering : Bool) :
    Scan.start.past entering codeFront = ⟨true, true, 1, 0, [], []⟩ := by
  cases entering with
  | false => decide +kernel
  | true => decide +kernel

/-- The lines behind it. -/
def codeBehind : List Line := [⟨"\x7d".toList, some "\x7d".toList⟩]

/-! ## A class without an open brace -/

/-- A class behind the braces of an enumeration, of which the scan takes the closing one for a brace
of the class: it counts no brace open in the body. -/
def lateText (line : String) : Text :=
  "enum Kind\n\x7b\n    A, B\n\x7d class P\n\x7b\n    ".toList ++ line.toList ++
    "\n    public int Y \x7b get; set; \x7d\n\x7d".toList

/-- The class with a property whose annotation goes on over two lines. -/
def lateBroken : Text := lateText "[Display(\n        Name = 1)] public int X \x7b get; set; \x7d"

/-- The same on one line. -/
def lateWhole : Text := lateText "[Display( Name = 1)] public int X \x7b get; set; \x7d"

/-- The lines of the text in front of the body. -/
def lateFront : List Line :=
  ["enum Kind", "\x7b", "A, B", "\x7d class P", "\x7b"].map fun l => ⟨l.toList, none⟩

theorem past_lateFront : Scan.start.past false lateFront = ⟨true, true, 1, 1, [], []⟩ := by
  decide +kernel

/-- The lines behind the property. -/
def lateBehind : List Line :=
  ["public int Y \x7b get; set; \x7d", "\x7d"].map fun l => ⟨l.toList, none⟩

/-- The line of the property in two pieces. -/
def latePieces : List Line :=
  ["[Display(", "Name = 1)] public int X \x7b get; set; \x7d"].map fun l => ⟨l.toList, none⟩

def lateDisplay : Group where
  gap := []
  body := "Display( Name = 1)".toList
  isBlank_gap := isBlank_of_mem_nil
  balanced_body := by decide +kernel

theorem areBrokenInside_latePieces : AreBrokenInside latePieces where
  several := by decide
  few := by decide
  inside := by
    intro k hpos hk
    obtain rfl : k = 1 := by
      have hlength : latePieces.length = 2 := rfl
      omega
    exact ⟨[], [], "Display(".toList, "Name = 1)".toList,
      " public int X \x7b get; set; \x7d".toList, by decide +kernel, by decide +kernel,
      lateDisplay.isBlank_gap, lateDisplay.balanced_body⟩
  closed := ⟨[lateDisplay], " public int X \x7b get; set; \x7d".toList, by decide +kernel,
    by decide +kernel⟩
  braceless := by decide +kernel
  isRead := by decide +kernel

theorem pairLines_lateBroken :
    pairLines lateBroken none = lateFront ++ (latePieces ++ lateBehind) := by decide +kernel

theorem pairLines_lateWhole :
    pairLines lateWhole none = lateFront ++ joinLines latePieces :: lateBehind := by decide +kernel

theorem recognize_spread_code :
    (∀ region ∈ [none, some ⟨0, 3, true⟩],
      (recognize (brokenCode "") (some (brokenCode "Full name")) (prolonged region 5)).map
          Candidate.finding =
        (recognize (wholeCode "") (some (wholeCode "Full name")) region).map Candidate.finding) ∧
      (recognize lateBroken none none).map Candidate.finding ≠
        (recognize lateWhole none none).map Candidate.finding := by
  have hlines : pairLines (brokenCode "") (some (brokenCode "Full name")) =
      codeFront ++ (codeBlock ++ codeBehind) := by decide +kernel
  have hlines' : pairLines (wholeCode "") (some (wholeCode "Full name")) =
      codeFront ++ joinLines codePieces :: codeBehind := by decide +kernel
  have hnone : ∀ line, Surrounds none line := fun line r hr => absurd hr (by simp)
  have hregion : ∀ region ∈ [none, some ⟨0, 3, true⟩], Surrounds region codeFront.length ∧
      scanBehind region codeFront = ⟨true, true, 1, 0, [], []⟩ := by
    intro region hmem
    rcases List.mem_pair.1 hmem with rfl | rfl
    · exact ⟨hnone _, past_codeFront false⟩
    · refine ⟨?_, past_codeFront true⟩
      intro r hr
      obtain rfl := Option.some.inj hr
      decide
  constructor
  · intro region hmem
    obtain ⟨hsurrounds, hscan⟩ := hregion region hmem
    have hspread := (recognize_spread areBrokenInside_codePieces spreadOver_codeBlock hlines
      hlines' hsurrounds).1
    rw [hscan] at hspread
    exact hspread ⟨rfl, rfl, Int.zero_lt_one, rfl⟩
  · have hlost := (recognize_spread areBrokenInside_latePieces (.piece _ (.last _))
      pairLines_lateBroken pairLines_lateWhole (hnone _)).2.1
    have hscan : scanBehind none lateFront = ⟨true, true, 1, 1, [], []⟩ := past_lateFront
    rw [hscan] at hlost
    have hiff := hlost ⟨rfl, rfl, rfl, Int.le_refl 1, by decide +kernel⟩ (by decide +kernel)
    intro heq
    exact absurd (hiff.1 heq) (by decide +kernel)

/-- There the line is found as long as it is not broken. -/
theorem not_recognize_spread_late :
    AreBrokenInside latePieces ∧ SpreadOver latePieces latePieces ∧
      pairLines lateBroken none = lateFront ++ (latePieces ++ lateBehind) ∧
      pairLines lateWhole none = lateFront ++ joinLines latePieces :: lateBehind ∧
      ((Scan.start.past false lateFront).inClass = true ∧
        (Scan.start.past false lateFront).inBody = true ∧
        (Scan.start.past false lateFront).held = []) ∧
      (recognize lateWhole none none).map Candidate.finding =
        [⟨"X".toList, "int".toList, ["Display( Name = 1)".toList]⟩] ∧
      recognize lateBroken none none = [] := by
  refine ⟨areBrokenInside_latePieces, .piece _ (.last _), pairLines_lateBroken,
    pairLines_lateWhole, ?_, ?_, ?_⟩
  · rw [past_lateFront]
    exact ⟨rfl, rfl, rfl⟩
  · rw [recognize, pairLines_lateWhole]
    decide +kernel
  · rw [recognize, pairLines_lateBroken]
    decide +kernel

end Member

end RazorViews
