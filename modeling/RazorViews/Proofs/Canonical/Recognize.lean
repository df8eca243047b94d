import RazorViews.Proofs.Canonical.Region
import RazorViews.Proofs.Member.Depth
import RazorViews.Proofs.Member.Lines

/-!
# Recognizing a class in canonical form

## What is proved

A class in canonical form (`ClassText`) has its header and its opening brace on lines of their own,
members with a type of the grammar, a name, and annotations in brackets in front of them, blank
lines and comments anywhere between, and a closing brace, perhaps with source behind it.
`recognize_written` says for every such class that what is recognized of it is what it says: one
candidate for each property, in order, with its name, its type as written, the bodies of its
annotations as written, quoted text included, and the number of its line.

Nothing is assumed about the class but that it is of this form, and the three functions are taken
as they are used together: the text is erased, the class is located in the erased text, and the
recognizer runs on that region with the text itself beside the erased one.

## What it is not

It is the plain case, in which everything is found.  Layouts that are not canonical are dealt with
elsewhere: lines that are joined or parted (`recognize_spread`), braces of any number and on any
line (`foundBehind_recognize`), comments and literals inside annotations (`judgedAlike_recognize`).

## The proof

Between two lines of the body a scan is inside the class with nothing held, and only the
annotations set aside change: a filler leaves them, an annotation joins them, and a property takes
them along.  One step for each kind of line, and the run over a member and over all members follow
(`run_member`, `run_members`).  The first two lines lead there from the start, and the last one
finds nothing.
-/

namespace RazorViews.Canonical

open Member Source ClassRegion

/-! ## The lines that are scanned -/

/-- A line of a body as the scan gets it. -/
def BodyLine.paired (l : BodyLine) : Line := Line.trimmed l.erased l.written

theorem lines_unlines {ls : List Text} (h : ∀ l ∈ ls, '\n' ∉ l) (more : Text) :
    Text.lines (unlines ls ++ more) = ls ++ Text.lines more := by
  induction ls with
  | nil => rfl
  | cons l ls ih =>
    have hsplit : unlines (l :: ls) ++ more = l ++ '\n' :: (unlines ls ++ more) := by
      simp [unlines]
    rw [hsplit, Text.lines_cons (h l List.mem_cons_self),
      ih fun k hk => h k (List.mem_cons_of_mem l hk), List.cons_append]

theorem lines_closing (behind : Option Text) :
    ∃ more, Text.lines ('}' :: behindText behind) = ['}'] :: more := by
  cases behind with
  | none => exact ⟨[], rfl⟩
  | some t => exact ⟨Text.lines t, Text.lines_cons (l := ['}']) (by decide) t⟩

theorem lines_erased_closing (behind : Option Text) :
    ∃ more, Text.lines ('}' :: erase (behindText behind)) = ['}'] :: more := by
  cases behind with
  | none =>
    have hnil : erase (behindText none) = [] := by
      rw [erase, behindText, Option.elim, lexemes]
      rfl
    exact ⟨[], by rw [hnil]; rfl⟩
  | some t =>
    have hfeed : erase (behindText (some t)) = '\n' :: erase t :=
      erase_code (t := ['\n']) (forall_mem_of_all (by decide)) t
    rw [hfeed]
    exact ⟨Text.lines (erase t), Text.lines_cons (l := ['}']) (by decide) _⟩

/-- The lines of a class, up to its closing brace. -/
def ClassText.paired (c : ClassText) : List Line :=
  Line.trimmed (headerLine c.name) (headerLine c.name) :: Line.trimmed ['{'] ['{'] ::
    (c.body.map BodyLine.paired ++ [Line.trimmed ['}'] ['}']])

theorem paired_eq (c : ClassText) :
    c.paired = List.zipWith Line.trimmed
      (headerLine c.name :: ['{'] :: (c.body.map BodyLine.erased ++ [['}']]))
      (headerLine c.name :: ['{'] :: (c.body.map BodyLine.written ++ [['}']])) := by
  have hbody : c.body.map BodyLine.paired =
      List.zipWith Line.trimmed (c.body.map BodyLine.erased) (c.body.map BodyLine.written) := by
    rw [List.zipWith_map, List.zipWith_self]
    rfl
  rw [ClassText.paired, hbody, List.zipWith_cons_cons, List.zipWith_cons_cons,
    List.zipWith_append (by rw [List.length_map, List.length_map])]
  rfl

theorem take_pairLines (c : ClassText) :
    (pairLines (erase c.written) (some c.written)).take (2 + c.body.length + 1) = c.paired := by
  obtain ⟨more, hmore⟩ := lines_closing c.behind
  obtain ⟨more', hmore'⟩ := lines_erased_closing c.behind
  have hheader : ∀ rest, Text.lines (headerText c.name ++ '\n' :: rest) =
      headerLine c.name :: ['{'] :: Text.lines rest := by
    intro rest
    have hsplit : headerText c.name ++ '\n' :: rest =
        headerLine c.name ++ '\n' :: (['{'] ++ '\n' :: rest) := by
      rw [headerText]
      simp only [List.append_assoc, List.cons_append, List.nil_append]
    rw [hsplit, Text.lines_cons (notMem_headerLine (by decide) c.name),
      Text.lines_cons (by decide)]
  have hwritten : ∀ l ∈ c.body.map BodyLine.written, '\n' ∉ l := by
    intro l hl
    obtain ⟨k, _, rfl⟩ := List.mem_map.1 hl
    exact k.feed_notMem_written
  have herased : ∀ l ∈ c.body.map BodyLine.erased, '\n' ∉ l := by
    intro l hl
    obtain ⟨k, _, rfl⟩ := List.mem_map.1 hl
    exact k.feed_notMem_erased
  have hlines : Text.lines c.written =
      (headerLine c.name :: ['{'] :: (c.body.map BodyLine.written ++ [['}']])) ++ more := by
    rw [c.written_eq, hheader, lines_unlines hwritten, hmore]
    simp only [List.append_assoc, List.cons_append, List.nil_append]
  have hlines' : Text.lines (erase c.written) =
      (headerLine c.name :: ['{'] :: (c.body.map BodyLine.erased ++ [['}']])) ++ more' := by
    rw [erase_written, hheader, lines_unlines herased, hmore']
    simp only [List.append_assoc, List.cons_append, List.nil_append]
  rw [pairLines_erase, hlines, hlines', List.zipWith_append (by simp), ← paired_eq]
  apply List.take_left'
  simp [ClassText.paired]
  omega

/-! ## One step for each kind of line -/

/-- Between two lines of a class body. -/
def between (pending : List Text) : Scan := ⟨true, true, 1, 0, pending, []⟩

/-- The annotations that a line sets aside. -/
def BodyLine.bodies : BodyLine → List Text
  | bracketed a => [a.body]
  | filler _ | property .. => []

theorem braceBalance_silent {t : Text} (h : ∀ c ∈ t, isSilent c = true) : braceBalance t = 0 := by
  have hopen : '{' ∉ t := fun hm => absurd (h _ hm) (by decide)
  have hclose : '}' ∉ t := fun hm => absurd (h _ hm) (by decide)
  exact braceBalance_eq_zero hopen hclose

theorem step_filler (pending : List Text) (f : Filler) :
    (between pending).step false (BodyLine.filler f).paired = (between pending, none) := by
  have htrim : Text.trim f.indent = [] := Text.trim_eq_nil fun c hc => (f.isBlank c hc).1
  have hline : (BodyLine.filler f).paired.erased = [] := htrim
  simp only [Scan.step, Scan.stepClass, Scan.stepBody, between, hline]
  rfl

theorem leave_between (pending : List Text) : (between pending).leave = between pending := by
  simp [Scan.leave, between]

/-- A line with balanced braces and closed annotations is read as it stands. -/
theorem step_between {pending : List Text} {l : Line} (hbalance : braceBalance l.erased = 0)
    (hpassed : isPassedOver l.erased = false)
    (hclosed : (Annotations.split l.erased).unfinished = false) :
    (between pending).step false l =
      (((between pending).readMember l).1.leave, ((between pending).readMember l).2) := by
  have hcounted : { between pending with
      depth := (between pending).depth + braceBalance l.erased } = between pending := by
    rw [hbalance]
    rfl
  have hread : (between pending).readBodyLine l = (between pending).readMember l := by
    rw [Scan.readBodyLine, hclosed]
    rfl
  show (between pending).stepBody l = _
  rw [Scan.stepBody, hcounted, hpassed, hread]
  rfl

theorem trim_brackets (t : Text) : Text.trim ('[' :: t ++ [']']) = '[' :: t ++ [']'] := by
  apply Text.trim_eq_self
  · intro c hc
    obtain rfl := Option.some.inj hc
    decide
  · intro c hc
    rw [List.getLast?_concat] at hc
    obtain rfl := Option.some.inj hc
    decide

theorem step_bracketed (pending : List Text) (a : AnnotationText) :
    (between pending).step false (BodyLine.bracketed a).paired =
      (between (pending ++ [a.body]), none) := by
  obtain ⟨group, hgroup⟩ := split_emptied a
  have hline : (BodyLine.bracketed a).paired =
      ⟨(BodyLine.bracketed a).erased, some (BodyLine.bracketed a).written⟩ := by
    rw [BodyLine.paired, Line.trimmed, BodyLine.erased, BodyLine.written, trim_brackets,
      trim_brackets]
  have hsplit : Annotations.split (BodyLine.bracketed a).erased = ⟨[group], [], false⟩ := hgroup
  have hannotations : Line.annotations
      ⟨(BodyLine.bracketed a).erased, some (BodyLine.bracketed a).written⟩ = [a.body] := by
    simp only [Line.annotations, hsplit, BodyLine.written, split_body]
    rfl
  have hread : (between pending).readMember
      ⟨(BodyLine.bracketed a).erased, some (BodyLine.bracketed a).written⟩ =
        (between (pending ++ [a.body]), none) := by
    rw [Scan.readMember, hannotations, hsplit]
    rfl
  rw [hline, step_between (braceBalance_silent (BodyLine.isSilent_bracketed a)) rfl
    (by rw [hsplit]), hread, leave_between]

theorem blank_ends_property (type : TypeText) (name : Identifier) :
    (∀ c ∈ (BodyLine.property type name).written.head?, Text.isBlank c = false) ∧
      ∀ c ∈ (BodyLine.property type name).written.getLast?, Text.isBlank c = false := by
  have hset : getAndSet.getLast? = some '}' := by decide
  constructor
  · intro c hc
    obtain rfl := Option.some.inj hc
    decide
  · intro c hc
    rw [property_written, List.getLast?_append, hset] at hc
    obtain rfl := Option.some.inj hc
    decide

theorem braceBalance_property (type : TypeText) (name : Identifier) :
    braceBalance (BodyLine.property type name).written = 0 := by
  rw [property_written, braceBalance_append,
    braceBalance_silent (BodyLine.isSilent_propertyFront type name)]
  decide

theorem step_property (pending : List Text) (type : TypeText) (name : Identifier) :
    (between pending).step false (BodyLine.property type name).paired =
      (between [], some ⟨name.text, type.written, pending⟩) := by
  obtain ⟨hfirst, hlast⟩ := blank_ends_property type name
  have htrim := Text.trim_eq_self hfirst hlast
  have hleft := Text.trimLeft_eq_self hfirst
  have hsplit : Annotations.split (BodyLine.property type name).written =
      ⟨[], (BodyLine.property type name).written, false⟩ := by
    have hnone : (BodyLine.property type name).written.head? ≠ some '[' := by
      intro h
      exact absurd (Option.some.inj h) (by decide)
    rw [Annotations.split_noGroup (by rwa [hleft]), hleft, htrim]
  have hline : (BodyLine.property type name).paired =
      ⟨(BodyLine.property type name).written, some (BodyLine.property type name).written⟩ := by
    rw [BodyLine.paired, Line.trimmed, BodyLine.erased, htrim]
  have hread : (between pending).readMember
      ⟨(BodyLine.property type name).written, some (BodyLine.property type name).written⟩ =
        (between [], some ⟨name.text, type.written, pending⟩) := by
    rw [Scan.readMember]
    simp only [hsplit, readSignature?_property]
    show (between [], some (⟨name.text, type.written, pending ++ []⟩ : Finding)) = _
    rw [List.append_nil]
  rw [hline, step_between (braceBalance_property type name) rfl (by rw [hsplit]), hread,
    leave_between]

/-! ## The run over a class -/

theorem run_cons {s s' : Scan} {entering : Bool} {l : Line} {finding : Option Finding}
    (h : s.step entering l = (s', finding)) (index : Nat) (rest : List Line) :
    s.run entering index (l :: rest) =
      (finding.map fun f => ⟨f.name, f.rawType, f.attributes, index⟩).toList ++
        s'.run false (index + 1) rest := by
  rw [Scan.run, h]

def BodyLine.isProperty : BodyLine → Bool
  | property .. => true
  | filler _ | bracketed _ => false

/-- Lines in front of a property set their annotations aside, in order. -/
theorem run_before {ls : List BodyLine} (h : ∀ l ∈ ls, l.isProperty = false)
    (pending : List Text) (index : Nat) (rest : List Line) :
    (between pending).run false index (ls.map BodyLine.paired ++ rest) =
      (between (pending ++ ls.flatMap BodyLine.bodies)).run false (index + ls.length) rest := by
  induction ls generalizing pending index with
  | nil => rw [List.flatMap_nil, List.append_nil]; rfl
  | cons l ls ih =>
    have hstep : (between pending).step false l.paired = (between (pending ++ l.bodies), none) := by
      cases l with
      | filler f =>
        rw [step_filler, BodyLine.bodies, List.append_nil]
      | bracketed a => exact step_bracketed pending a
      | property type name => exact absurd (h _ List.mem_cons_self) (by simp [BodyLine.isProperty])
    rw [List.map_cons, List.cons_append, run_cons hstep,
      ih fun k hk => h k (List.mem_cons_of_mem l hk)]
    rw [List.flatMap_cons, List.append_assoc, List.length_cons, Nat.add_assoc, Nat.add_comm 1]
    rfl

theorem isProperty_fillers {fs : List Filler} :
    ∀ l ∈ fs.map BodyLine.filler, l.isProperty = false := by
  intro l hl
  obtain ⟨f, _, rfl⟩ := List.mem_map.1 hl
  rfl

theorem bodies_fillers (fs : List Filler) : (fs.map BodyLine.filler).flatMap BodyLine.bodies = [] :=
  List.flatMap_eq_nil_iff.2 fun l hl => by
    obtain ⟨f, _, rfl⟩ := List.mem_map.1 hl
    rfl

theorem isProperty_linesBefore (m : MemberText) : ∀ l ∈ m.linesBefore, l.isProperty = false := by
  intro l hl
  rcases List.mem_append.1 hl with hl | hl
  · obtain ⟨⟨fs, a⟩, _, hl⟩ := List.mem_flatMap.1 hl
    rcases List.mem_append.1 hl with hl | hl
    · exact isProperty_fillers l hl
    · obtain rfl := List.mem_singleton.1 hl
      rfl
  · exact isProperty_fillers l hl

theorem bodies_linesBefore (m : MemberText) :
    m.linesBefore.flatMap BodyLine.bodies = m.annotations.map fun (_, a) => a.body := by
  rw [MemberText.linesBefore, List.flatMap_append, bodies_fillers, List.append_nil,
    List.flatMap_assoc]
  induction m.annotations with
  | nil => rfl
  | cons first rest ih =>
    obtain ⟨fs, a⟩ := first
    rw [List.flatMap_cons, ih, List.flatMap_append, bodies_fillers]
    rfl

/-- The lines of a member yield its candidate and leave nothing behind. -/
theorem run_member (m : MemberText) (index : Nat) (rest : List Line) :
    (between []).run false index (m.lines.map BodyLine.paired ++ rest) =
      m.candidate index :: (between []).run false (index + m.lines.length) rest := by
  rw [MemberText.lines, List.map_append, List.append_assoc, run_before (isProperty_linesBefore m),
    List.nil_append, bodies_linesBefore, List.map_singleton, List.singleton_append,
    run_cons (step_property _ m.type m.name), List.length_append]
  rfl

theorem run_members (ms : List MemberText) (index : Nat) (rest : List Line) :
    (between []).run false index ((ms.flatMap MemberText.lines).map BodyLine.paired ++ rest) =
      MemberText.candidates index ms ++
        (between []).run false (index + (ms.flatMap MemberText.lines).length) rest := by
  induction ms generalizing index with
  | nil => rfl
  | cons m ms ih =>
    rw [List.flatMap_cons, List.map_append, List.append_assoc, run_member, ih, List.length_append,
      Nat.add_assoc]
    rfl

theorem trim_headerLine (name : Identifier) : Text.trim (headerLine name) = headerLine name := by
  apply Text.trim_eq_self
  · intro c hc
    obtain rfl := Option.some.inj hc
    decide
  · intro c hc
    obtain ⟨last, hlast, hword⟩ := name.exists_getLast?
    have hend : (headerLine name).getLast? = some last := by
      rw [headerLine, List.getLast?_append, List.getLast?_cons, hlast]
      rfl
    obtain rfl := Option.some.inj (hc.symm.trans hend)
    exact Text.not_isBlank_of_isWord hword

/-- The first two lines lead into the body. -/
theorem run_header (name : Identifier) (rest : List Line) :
    Scan.start.run true 0 (Line.trimmed (headerLine name) (headerLine name) ::
      Line.trimmed ['{'] ['{'] :: rest) = (between []).run false 2 rest := by
  have hopen : '{' ∉ headerLine name := notMem_headerLine (by decide) name
  have hclose : '}' ∉ headerLine name := notMem_headerLine (by decide) name
  have hbalance : braceBalance (headerLine name) = 0 := braceBalance_eq_zero hopen hclose
  have hfirst : Scan.start.step true (Line.trimmed (headerLine name) (headerLine name)) =
      (⟨true, false, 0, 0, [], []⟩, none) := by
    rw [Line.trimmed, trim_headerLine]
    show Scan.start.enter.stepClass _ = _
    rw [Scan.stepClass, Line.afterBrace?, cutAtBrace?_eq_none_iff.2 hopen, hbalance]
    rfl
  have hsecond : (⟨true, false, 0, 0, [], []⟩ : Scan).step false (Line.trimmed ['{'] ['{']) =
      (between [], none) := by
    decide +kernel
  rw [run_cons hfirst, run_cons hsecond]
  rfl

theorem run_closing (index : Nat) :
    (between []).run false index [Line.trimmed ['}'] ['}']] = [] := by
  have hstep : (between []).step false (Line.trimmed ['}'] ['}']) =
      (⟨false, true, 0, 0, [], []⟩, none) := by
    decide +kernel
  rw [run_cons hstep]
  rfl

/-- **What a class in canonical form says is what is recognized of it.** -/
theorem recognize_written (c : ClassText) :
    recognize (erase c.written) (some c.written) (locate? (erase c.written) c.name.text) =
      c.candidates := by
  rw [locate?_written]
  show Scan.start.run true 0 ((List.take (2 + c.body.length + 1) _).drop 0) = _
  rw [List.drop_zero, take_pairLines, ClassText.paired, run_header, ClassText.body, List.map_append,
    List.append_assoc, run_members, run_before isProperty_fillers, bodies_fillers, List.append_nil,
    run_closing, List.append_nil]
  rfl

end RazorViews.Canonical
