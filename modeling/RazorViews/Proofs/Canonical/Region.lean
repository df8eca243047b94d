import RazorViews.Proofs.Canonical.Lines
import RazorViews.Proofs.ClassRegion.Between

/-!
# The region of a class in canonical form

The header of a class in canonical form begins the text and ends with the first brace, so it is the
leftmost header, and no other reading of it ends elsewhere (`find?_header`).  The braces of the
lines between are balanced on each line, those of a property, or there are none.  Hence the first
line behind which no brace is open is that of the closing brace, and the region runs from the first
line to that one (`locate?_written`).

What stands on the lines behind the class plays no part, be it erased or not: counting ends at the
closing brace, and the header is found in front of it.
-/

namespace RazorViews.Canonical

open Pattern Source ClassRegion

/-! ## The text behind erasing -/

/-- The first line of a class. -/
def headerLine (name : Identifier) : Text := publicWord ++ ' ' :: classWord ++ ' ' :: name.text

/-- The header of a class, its brace on the second line. -/
def headerText (name : Identifier) : Text := headerLine name ++ ['\n'] ++ ['{']

/-- What stands on the lines behind a class, with its line feed in front. -/
def behindText (behind : Option Text) : Text := behind.elim [] ('\n' :: ·)

theorem ClassText.written_eq (c : ClassText) :
    c.written = headerText c.name ++ '\n' ::
      (unlines (c.body.map BodyLine.written) ++ '}' :: behindText c.behind) := by
  rw [ClassText.written, headerText, headerLine, behindText]
  simp only [List.append_assoc, List.cons_append, List.nil_append]

theorem headerLine_typeChars (name : Identifier) :
    ∀ c ∈ headerLine name, isTypeChar c = true := by
  have hname : ∀ c ∈ ' ' :: name.text, isTypeChar c = true :=
    List.forall_mem_cons.2 ⟨by decide, name.typeChars⟩
  have hwords : ∀ c ∈ publicWord ++ ' ' :: classWord, isTypeChar c = true :=
    forall_mem_of_all (by decide)
  exact List.forall_mem_append.2 ⟨hwords, hname⟩

theorem notMem_headerLine {c : Char} (hc : isTypeChar c = false) (name : Identifier) :
    c ∉ headerLine name := by
  intro h
  rw [headerLine_typeChars name c h] at hc
  exact absurd hc (by simp)

theorem isCode_headerText (name : Identifier) : ∀ c ∈ headerText name, isCode c = true := by
  have hline : ∀ c ∈ headerLine name, isCode c = true := fun c hc =>
    isCode_of (by decide) (headerLine_typeChars name c hc)
  exact List.forall_mem_append.2 ⟨List.forall_mem_append.2
    ⟨hline, forall_mem_of_all (by decide)⟩, forall_mem_of_all (by decide)⟩

theorem erase_code {t : Text} (h : ∀ c ∈ t, isCode c = true) (more : Text) :
    erase (t ++ more) = t ++ erase more := by
  have herase := erase_segments (allFit_code h more)
  rwa [flatMap_code_written, flatMap_code_left] at herase

theorem erase_written (c : ClassText) :
    erase c.written = headerText c.name ++ '\n' ::
      (unlines (c.body.map BodyLine.erased) ++ '}' :: erase (behindText c.behind)) := by
  have hfeed : ∀ more, erase ('\n' :: more) = '\n' :: erase more :=
    fun more => erase_code (t := ['\n']) (forall_mem_of_all (by decide)) more
  have hbrace : ∀ more, erase ('}' :: more) = '}' :: erase more :=
    fun more => erase_code (t := ['}']) (forall_mem_of_all (by decide)) more
  rw [c.written_eq, erase_code (isCode_headerText c.name), hfeed, erase_unlines, hbrace]

/-! ## The header -/

theorem Identifier.exists_getLast? (i : Identifier) :
    ∃ c, i.text.getLast? = some c ∧ Text.isWord c = true := by
  have hne : i.text ≠ [] := List.cons_ne_nil _ _
  refine ⟨i.text.getLast hne, List.getLast?_eq_some_getLast hne, ?_⟩
  exact isWord_of_isAsciiWord (i.isAsciiWord _ (List.getLast_mem hne))

/-- A header is read from the start of a text. -/
theorem exists_header (name : Identifier) (rest : Text) :
    ∃ q, (header name.text).Leads (Place.start (headerText name ++ rest)) q := by
  have hpublic : (firstOf (ClassRegion.modifiers.map litAnyCase) ++ blanks1).Takes
      (publicWord ++ [' ']) := by
    refine ⟨publicWord, [' '], (takes_firstOf (by decide)).2 ⟨litAnyCase "public", ?_,
      takes_anyCase _⟩, takes_run1.2 ⟨by simp, forall_mem_of_all (by decide)⟩, rfl⟩
    simp [ClassRegion.modifiers]
  have hclass : (litAnyCase "class" ++ blanks1).Takes (classWord ++ [' ']) :=
    ⟨classWord, [' '], takes_anyCase _, takes_run1.2 ⟨by simp, forall_mem_of_all (by decide)⟩, rfl⟩
  have hblank : blanks.Takes ['\n'] := List.forall_mem_singleton.2 (by decide)
  have hend : (blanks ++ one (· == '{')).Takes (['\n'] ++ ['{']) :=
    ⟨['\n'], ['{'], hblank, ⟨'{', by decide, rfl⟩, rfl⟩
  -- the words are read one by one, with an edge in front of each and behind the name
  have h0 : (Place.start (headerText name ++ rest)).rest = (publicWord ++ [' ']) ++
      ((classWord ++ [' ']) ++ (name.text ++ ((['\n'] ++ ['{']) ++ rest))) := by
    show headerText name ++ rest = _
    simp only [headerText, headerLine, List.append_assoc, List.cons_append, List.nil_append]
  obtain ⟨p1, ⟨p1', hfirst, hgap1⟩, hread1⟩ := hpublic.leads (by decide) h0
  have h1 := List.append_cancel_left (hread1.1.symm.trans h0)
  obtain ⟨p2, ⟨p2', hword, hgap2⟩, hread2⟩ := hclass.leads (by decide) h1
  have h2 := List.append_cancel_left (hread2.1.symm.trans h1)
  obtain ⟨p3, hname, hread3⟩ := (takes_anyCase name.text).leads (isFree_anyCase _) h2
  have h3 := List.append_cancel_left (hread3.1.symm.trans h2)
  obtain ⟨q, ⟨p4, hgap3, hbrace⟩, _⟩ := hend.leads (by decide) h3
  have hedge1 : onWordEdge p1 = true := by
    rw [onWordEdge, hread1.2.2, h1]
    show (isWordSide (some ' ') != isWordSide (some 'c')) = true
    decide
  have hedge3 : onWordEdge p3 = true := by
    obtain ⟨c, hlast, hc⟩ := name.exists_getLast?
    rw [onWordEdge, hread3.2.2, h3, hlast]
    show (Text.isWord c != Text.isWord '\n') = true
    rw [hc]
    decide
  have hmods : (many (wordEdge ++ firstOf (ClassRegion.modifiers.map litAnyCase) ++
      blanks1)).Leads (Place.start (headerText name ++ rest)) p1 := by
    refine ⟨1, ?_, p1, ⟨p1', ⟨_, ⟨?_, rfl⟩, hfirst⟩, hgap1⟩, rfl⟩
    · rw [h0, List.length_append]
      exact Nat.le_trans (by decide) (Nat.le_add_right _ _)
    · rw [onWordEdge, h0]
      show (isWordSide none != isWordSide (some 'p')) = true
      decide
  exact ⟨q, p4, ⟨p3, ⟨p3, ⟨p3, ⟨p3, ⟨p3, ⟨p2, ⟨p2', ⟨p1, ⟨p1, hmods, hedge1, rfl⟩, hword⟩, hgap2⟩,
    hname⟩, hedge3, rfl⟩, .inr rfl⟩, .inr rfl⟩, .inr rfl⟩, hgap3⟩, hbrace⟩

/-- The header is found at the start of a text, and nothing else is. -/
theorem find?_header (name : Identifier) (rest : Text) :
    ∃ f ∈ (header name.text).find? (headerText name ++ rest),
      f.start = 0 ∧ f.text = headerText name ∧ f.finish.rest = rest := by
  obtain ⟨q, hq⟩ := exists_header name rest
  obtain ⟨f, hf, hle⟩ := exists_find? (a := []) hq
  refine ⟨f, hf, Nat.le_zero.1 hle, ?_⟩
  obtain ⟨a, htext, hstart⟩ := find?_stretch hf
  obtain rfl : a = [] := List.length_eq_zero_iff.1 (hstart.symm.trans (Nat.le_zero.1 hle))
  obtain ⟨_, _, _, hfound, _⟩ := find?_eq_some_iff.1 hf
  obtain ⟨v, hv, hcount⟩ := (counts_headerFront name.text).found hfound
  -- the name holds no brace, so the text that is found ends with the first one
  have hname : name.text.count '{' = 0 :=
    List.count_eq_zero.2 fun h => absurd (name.typeChars '{' h) (by decide)
  rw [hname, List.count_append, List.count_singleton_self, Nat.zero_add,
    Nat.add_eq_right] at hcount
  have hline : '{' ∉ headerLine name ++ ['\n'] := by
    rw [List.mem_append, not_or]
    exact ⟨notMem_headerLine (by decide) name, by decide⟩
  have hsplit : (headerLine name ++ ['\n']) ++ '{' :: rest = v ++ '{' :: f.finish.rest := by
    rw [hv, headerText] at htext
    simpa using htext
  obtain rfl := front_unique hsplit hline (List.count_eq_zero.1 hcount)
  exact ⟨hv, (List.cons.inj (List.append_cancel_left hsplit)).2.symm⟩

/-! ## The closing brace -/

theorem closingLine?_silent {u : Text} (h : ∀ c ∈ u, isSilent c = true) (inner line : Nat)
    (more : Text) : closingLine? inner line (u ++ more) = closingLine? inner line more := by
  induction u with
  | nil => rfl
  | cons c u ih =>
    obtain ⟨hopen, hclose, hfeed⟩ := ne_of_isSilent (h c List.mem_cons_self)
    have hmore := ih fun d hd => h d (List.mem_cons_of_mem c hd)
    simpa [closingLine?, hopen, hclose, hfeed] using hmore

/-- The braces of a line are balanced. -/
theorem closingLine?_erased (l : BodyLine) (inner line : Nat) (more : Text) :
    closingLine? inner line (l.erased ++ more) = closingLine? inner line more := by
  cases l with
  | filler f => exact closingLine?_silent (BodyLine.isSilent_filler f) inner line more
  | bracketed a => exact closingLine?_silent (BodyLine.isSilent_bracketed a) inner line more
  | property type name =>
    have hset : getAndSet = '{' :: (" get; set; ".toList ++ ['}']) := by decide
    have hopen : ∀ rest, closingLine? inner line ('{' :: rest) =
        closingLine? (inner + 1) line rest := fun rest => by simp [closingLine?]
    have hclose : ∀ rest, closingLine? (inner + 1) line ('}' :: rest) =
        closingLine? inner line rest := fun rest => by simp [closingLine?]
    rw [BodyLine.erased, property_written, List.append_assoc,
      closingLine?_silent (BodyLine.isSilent_propertyFront type name), hset, List.cons_append,
      hopen, List.append_assoc, closingLine?_silent (forall_mem_of_all (by decide)),
      List.singleton_append, hclose]

theorem closingLine?_unlines (ls : List BodyLine) (inner line : Nat) (more : Text) :
    closingLine? inner line (unlines (ls.map BodyLine.erased) ++ more) =
      closingLine? inner (line + ls.length) more := by
  induction ls generalizing line with
  | nil => rfl
  | cons l ls ih =>
    have hline : unlines ((l :: ls).map BodyLine.erased) ++ more =
        l.erased ++ '\n' :: (unlines (ls.map BodyLine.erased) ++ more) := by
      simp [unlines]
    have hfeed : ∀ rest, closingLine? inner line ('\n' :: rest) =
        closingLine? inner (line + 1) rest := fun rest => by simp [closingLine?]
    rw [hline, closingLine?_erased, hfeed, ih, List.length_cons, Nat.add_assoc, Nat.add_comm 1]

/-- The region of a class in canonical form runs from its first line to its closing brace. -/
theorem locate?_written (c : ClassText) :
    locate? (erase c.written) c.name.text = some ⟨0, 2 + c.body.length, true⟩ := by
  rw [erase_written]
  obtain ⟨f, hf, hstart, htext, hrest⟩ := find?_header c.name ('\n' ::
    (unlines (c.body.map BodyLine.erased) ++ '}' :: erase (behindText c.behind)))
  refine (locate?_balanced_iff.2 ⟨f, hf, 2 + c.body.length, ?_, ?_⟩).1
  · have hfeed : ∀ rest, closingLine? 0 1 ('\n' :: rest) = closingLine? 0 2 rest :=
      fun rest => by simp [closingLine?]
    have hfeeds : Text.lineFeeds (headerText c.name) = 1 := by
      have hline : (headerLine c.name).count '\n' = 0 :=
        List.count_eq_zero.2 (notMem_headerLine (by decide) c.name)
      rw [Text.lineFeeds, headerText, List.count_append, List.count_append, hline]
      rfl
    rw [hstart, htext, hrest, hfeeds]
    show closingLine? 0 1 _ = _
    rw [hfeed, closingLine?_unlines]
    simp [closingLine?]
  · rw [hstart]
    rfl

end RazorViews.Canonical
