import RazorViews.Proofs.Source.Brackets
import RazorViews.Proofs.Source.Origins
import RazorViews.Source.Member

/-!
# Comments that keep off brackets

Comments and longer literals may stand anywhere in source, but in ordinary source none stands
between brackets, and no bracket opens behind one on its line.  Longer literals are those between
fences and those that are not closed on their line; with them go the few verbatim ones that a
scanner of brackets takes for something else.  This is a condition on the lexemes: `KeepsOff`, which
can be decided.

What it means is said line by line (`KeepsOff.legibleLines`).  A line of source beside its erased
line is of one of three kinds:

* it is without comments and longer literals, and then any number of brackets may be open on it;
* one begins on it where no bracket is open, and what follows opens none;
* one reaches into it from a line before, and it opens none altogether.

Two more things are asked.  No string literal stands directly behind another, since what is left of
two such literals is read as something else; and no line that a scan would pass over stands where a
bracket is open.

A condition on lines would have been nearer to the scanner, but it could not be told of source
without erasing it first.
-/

namespace RazorViews

open Annotations

/-! ## The condition -/

/-- The segment that is read as the lexeme, if this is a character of code or a literal on one line
that is closed. -/
def Lexeme.segment? : Lexeme → Option Source.Segment
  | code c => some (.code c)
  | quoted mark body =>
    if body.getLast? = some mark ∧ Source.QuotedBody mark body.dropLast then
      some (.quoted mark body.dropLast)
    else none
  | verbatim sigil body =>
    if body.getLast? = some '"' ∧ Source.isScanned body.dropLast = true ∧
        body.dropLast.head? ≠ some '"' then
      some (.verbatim sigil body.dropLast)
    else none
  | _ => none

/-- The lexeme begins with a double quote. -/
def Lexeme.isString : Lexeme → Bool
  | quoted mark _ => mark == '"'
  | fenced _ _ => true
  | _ => false

namespace Source

/-- Where a bracket is open the scan does not pass over a line that is not blank. -/
def isRead (inner : Nat) (line : Text) : Bool :=
  inner == 0 || (Text.trim line).isEmpty || !Member.isPassedOver (Text.trim line)

/-- Comments and longer literals keep off brackets.  No string literal stands directly behind
another, and the scan passes over no line where a bracket is open.  In front of the lexemes `inner`
brackets are open, and `behind` says that a comment or a longer literal stands in front of them on
their line. -/
def keepsOff : (inner : Nat) → (behind : Bool) → List Lexeme → Bool
  | _, _, [] => true
  | inner, behind, l :: rest =>
    match l.segment? with
    | some s =>
      !(behind && s == .code '[') && !(l.isString && rest.head?.any Lexeme.isString) &&
        (s != .code '\n' || isRead inner ((rest.flatMap Lexeme.erased).takeWhile (· != '\n'))) &&
        keepsOff (s.opens inner) (behind && s != .code '\n') rest
    | none => inner == 0 && keepsOff 0 true rest

/-- In the source comments and longer literals keep off brackets. -/
def KeepsOff (source : Text) : Prop := keepsOff 0 false (lexemes source) = true

instance (source : Text) : Decidable (KeepsOff source) :=
  inferInstanceAs (Decidable (keepsOff 0 false (lexemes source) = true))

/-! ## Lexemes that are segments -/

variable {c : Char} {rest : Text} {s : Segment}

/-- A literal on one line that is closed. -/
theorem segment?_quoted {mark : Char} {body : Text}
    (h : (Lexeme.quoted mark body).segment? = some s) :
    ∃ inside, s = .quoted mark inside ∧ body = inside ++ [mark] ∧ QuotedBody mark inside := by
  rw [Lexeme.segment?] at h
  split at h
  · rename_i hclosed
    obtain ⟨hlast, hbody⟩ := hclosed
    obtain ⟨inside, rfl⟩ := List.getLast?_eq_some_iff.1 hlast
    rw [List.dropLast_concat] at h hbody
    exact ⟨inside, (Option.some.inj h).symm, rfl, hbody⟩
  · exact absurd h (by simp)

theorem segment?_verbatim {sigil body : Text}
    (h : (Lexeme.verbatim sigil body).segment? = some s) :
    ∃ inside, s = .verbatim sigil inside ∧ body = inside ++ ['"'] ∧ isScanned inside = true ∧
      inside.head? ≠ some '"' := by
  rw [Lexeme.segment?] at h
  split at h
  · rename_i hclosed
    obtain ⟨hlast, hbody⟩ := hclosed
    obtain ⟨inside, rfl⟩ := List.getLast?_eq_some_iff.1 hlast
    rw [List.dropLast_concat] at h hbody
    exact ⟨inside, (Option.some.inj h).symm, rfl, hbody⟩
  · exact absurd h (by simp)

theorem Segment.IsShort.written_lexeme (hs : s.IsShort) : s.lexeme.written = s.written := by
  cases s with
  | code c => rfl
  | quoted mark body => rfl
  | verbatim sigil body => simp [Segment.lexeme, Lexeme.written, Segment.written]
  | _ => exact hs.elim

/-- Behind a verbatim literal stands no quote: a closed one would not be closed there, and behind an
open one stands nothing. -/
theorem not_isPrefix_cutVerbatim (t : Text) : ¬ ['"'] <+: (cutVerbatim t).2 := by
  fun_induction cutVerbatim t with
  | case1 => simp
  | case2 rest ih => exact ih
  | case3 rest hlone =>
    rintro ⟨r, rfl⟩
    exact hlone r rfl
  | case4 c rest hpair hc ih => exact ih

theorem segment_of_cutVerbatim {sigil t : Text} (hsigil : sigil ∈ sigils)
    (h : (Lexeme.verbatim sigil (cutVerbatim t).1).segment? = some s) :
    s.IsShort ∧ s.Fits (cutVerbatim t).2 ∧ s.lexeme = .verbatim sigil (cutVerbatim t).1 := by
  obtain ⟨inside, rfl, hcut, hscanned, hhead⟩ := segment?_verbatim h
  have hbody := verbatimBody_of_isScanned hscanned
  exact ⟨⟨hsigil, hscanned, hhead⟩, ⟨hsigil, hbody, not_isPrefix_cutVerbatim t⟩,
    congrArg (Lexeme.verbatim sigil) hcut.symm⟩

/-- A lexeme that is a segment is one that fits there. -/
theorem segment_of_next :
    (nextLexeme c rest).1.segment? = some s →
      s.IsShort ∧ s.Fits (nextLexeme c rest).2 ∧ s.lexeme = (nextLexeme c rest).1 := by
  fun_cases nextLexeme c rest with
  | case4 => exact segment_of_cutVerbatim (by decide)
  | case5 => exact segment_of_cutVerbatim (by decide)
  | case6 => exact segment_of_cutVerbatim (by decide)
  | case7 =>
    rename_i hfence
    intro h
    obtain ⟨inside, rfl, hcut, hbody⟩ := segment?_quoted h
    refine ⟨⟨.inl rfl, hbody⟩, ⟨.inl rfl, hbody, ?_⟩, congrArg (Lexeme.quoted '"') hcut.symm⟩
    rintro - rfl ⟨r, hr⟩
    have happend := cutQuoted_append '"' rest
    rw [hcut, ← hr] at happend
    exact hfence r happend.symm
  | case8 =>
    intro h
    obtain ⟨inside, rfl, hcut, hbody⟩ := segment?_quoted h
    exact ⟨⟨.inr rfl, hbody⟩, ⟨.inr rfl, hbody, fun hmark => absurd hmark (by decide)⟩,
      congrArg (Lexeme.quoted '\'') hcut.symm⟩
  | case9 =>
    rename_i hquote hmark hline hblock hfence hat hdollar hboth
    intro h
    obtain rfl := Option.some.inj h
    refine ⟨⟨hquote, hmark⟩, ⟨hquote, hmark, ?_, ?_, ?_⟩, rfl⟩
    · rintro rfl
      constructor
      · rintro ⟨r, hr⟩
        exact hline r rfl hr.symm
      · rintro ⟨r, hr⟩
        exact hblock r rfl hr.symm
    · rintro rfl
      constructor
      · rintro ⟨r, hr⟩
        exact hat r rfl hr.symm
      · rintro ⟨r, hr⟩
        exact hboth r rfl hr.symm
    · rintro rfl ⟨r, hr⟩
      exact hdollar r rfl hr.symm
  | _ =>
    intro h
    exact absurd h (by simp [Lexeme.segment?])

/-- A comment or longer literal begins with a character that is neither white space nor a
bracket. -/
theorem ne_bracket_of_next :
    (nextLexeme c rest).1.segment? = none → Text.isBlank c = false ∧ c ≠ '[' := by
  fun_cases nextLexeme c rest with
  | case9 =>
    intro h
    exact absurd h (by simp [Lexeme.segment?])
  | _ =>
    intro h
    exact ⟨by decide, by decide⟩

theorem notMem_erased_of_next (h : (nextLexeme c rest).1.segment? = none) :
    '[' ∉ (nextLexeme c rest).1.erased := by
  intro hmem
  rw [eq_code_of_mem_erased (by decide) hmem] at h
  exact absurd h (by simp [Lexeme.segment?])

theorem isString_of_isPrefix {t : Text} (h : ['"'] <+: t) :
    (lexemes t).head?.any Lexeme.isString = true := by
  obtain ⟨r, rfl⟩ := h
  rw [List.singleton_append, lexemes, List.head?_cons, Option.any_some]
  by_cases hfence : ∃ r', r = '"' :: '"' :: r'
  · obtain ⟨r', rfl⟩ := hfence
    rfl
  · rw [nextLexeme.eq_7 _ fun r' hr => hfence ⟨r', hr⟩]
    rfl

/-! ## Lines -/

/-- A text in front of which nothing has been read divides into no groups. -/
structure NoGroup (t : Text) : Prop where
  groups : (split t).groups = []
  finished : (split t).unfinished = false

theorem noGroup_of_head {t : Text} (h : (Text.trimLeft t).head? ≠ some '[') : NoGroup t := by
  constructor
  · rw [split_noGroup h]
  · rw [split_noGroup h]

theorem noGroup_of_notMem {t : Text} (h : '[' ∉ t) : NoGroup t := by
  refine noGroup_of_head fun hhead => h ?_
  exact (List.dropWhile_suffix Text.isBlank).subset (List.mem_of_head? hhead)

theorem NoGroup.trimRight {t : Text} (h : NoGroup t) : NoGroup (Text.trimRight t) := by
  constructor
  · rw [split_trimRight, h.groups]
  · rw [split_trimRight, h.finished]

theorem NoGroup.blank_append {front t : Text} (h : NoGroup t)
    (hfront : ∀ c ∈ front, Text.isBlank c = true) : NoGroup (front ++ t) := by
  constructor
  · rw [split_blanks_append hfront, h.groups]
  · rw [split_blanks_append hfront, h.finished]

theorem NoGroup.trim {t : Text} (h : NoGroup t) : NoGroup (Text.trim t) := by
  have hleft : split (Text.trimLeft t) = split t := split_congr (List.dropWhile_idempotent _ t)
  refine NoGroup.trimRight ⟨?_, ?_⟩
  · rw [hleft, h.groups]
  · rw [hleft, h.finished]

/-- A line of source beside the erased line: it is without comments and longer literals (`whole`),
or one begins on it where no bracket is open (`front`), or one reaches into it from a line before
(`behind`).  The numbers say how many brackets are open in front of the line and behind it. -/
inductive Legible : (behind : Bool) → (inner outer : Nat) → (raw erased : Text) → Prop
  | whole {inner : Nat} {xs : List Segment} :
      Short xs → Legible false inner (opens inner xs) (written xs) (left xs)
  | front {inner : Nat} {xs : List Segment} {back back' : Text} :
      Short xs → opens inner xs = 0 → NoGroup back → '[' ∉ back' →
      Legible false inner 0 (written xs ++ back) (left xs ++ back')
  | behind {raw erased : Text} : '[' ∉ erased → Legible true 0 0 raw erased

/-- Lines of source beside the erased lines. -/
inductive LegibleLines : (inner : Nat) → (raws eraseds : List Text) → Prop
  | nil {inner : Nat} : LegibleLines inner [] []
  | cons {behind : Bool} {inner outer : Nat} {raw erased : Text} {raws eraseds : List Text} :
      isRead inner erased = true → Legible behind inner outer raw erased →
      LegibleLines outer raws eraseds → LegibleLines inner (raw :: raws) (erased :: eraseds)

/-- Text beside what is left of it, whose first line goes on behind a comment or longer literal, or
does not. -/
def LegibleText (behind : Bool) (inner : Nat) (t left : Text) : Prop :=
  ∃ outer raw raws erased eraseds,
    Text.lines t = raw :: raws ∧ Text.lines left = erased :: eraseds ∧
    Legible behind inner outer raw erased ∧ LegibleLines outer raws eraseds

variable {behind : Bool} {inner : Nat} {t t' : Text}

theorem legible_nil (h : behind = true → inner = 0) : Legible behind inner inner [] [] := by
  cases behind with
  | false => exact @Legible.whole inner [] trivial
  | true =>
    obtain rfl := h rfl
    exact .behind List.not_mem_nil

theorem legibleText_nil (h : behind = true → inner = 0) : LegibleText behind inner [] [] :=
  ⟨inner, [], [], [], [], rfl, rfl, legible_nil h, .nil⟩

theorem LegibleText.legibleLines (h : LegibleText behind inner t t')
    (hread : isRead inner (t'.takeWhile (· != '\n')) = true) :
    LegibleLines inner (Text.lines t) (Text.lines t') := by
  obtain ⟨outer, raw, raws, erased, eraseds, hraw, herased, hfirst, hmore⟩ := h
  rw [hraw, herased]
  exact .cons (Text.eq_takeWhile_of_lines herased ▸ hread) hfirst hmore

/-- A line feed ends the line. -/
theorem LegibleText.lineFeed (h : LegibleText false inner t t')
    (hread : isRead inner (t'.takeWhile (· != '\n')) = true)
    (hbehind : behind = true → inner = 0) :
    LegibleText behind inner ('\n' :: t) ('\n' :: t') :=
  ⟨inner, [], Text.lines t, [], Text.lines t', Text.lines_cons List.not_mem_nil t,
    Text.lines_cons List.not_mem_nil t', legible_nil hbehind, h.legibleLines hread⟩

/-! ### Segments in front -/

theorem notMem_of_quotedBody {mark : Char} {body : Text} (h : QuotedBody mark body) :
    '\n' ∉ body := by
  induction h with
  | nil => exact List.not_mem_nil
  | plain _ _ hfeed _ ih => simp [Ne.symm hfeed, ih]
  | escape hfeed _ ih => simp [Ne.symm hfeed, ih]

theorem notMem_written (hs : s.IsShort) (hfeed : s ≠ .code '\n') :
    '\n' ∉ s.written ∧ '\n' ∉ s.left := by
  cases s with
  | code c =>
    have hc : '\n' ≠ c := by
      rintro rfl
      exact hfeed rfl
    simp [Segment.written, Segment.left, hc]
  | quoted mark body =>
    have hmark : '\n' ≠ mark := by
      rcases hs.1 with rfl | rfl
      · decide
      · decide
    simp [Segment.written, Segment.left, hmark, notMem_of_quotedBody hs.2]
  | verbatim sigil body =>
    have hsigil : ∀ sigil ∈ sigils, '\n' ∉ sigil := by decide
    rw [hs.left_verbatim]
    simp [Segment.written, hsigil _ hs.1, notMem_of_isScanned hs.2.1]
  | _ => exact hs.elim

variable {xs : List Segment}

theorem isPrefix_written_singleton {d : Char} (h : ∀ x ∈ xs, x.IsShort) (hpre : [d] <+: left xs) :
    [d] <+: written xs := by
  cases xs with
  | nil => exact hpre
  | cons x xs =>
    have hx := h x List.mem_cons_self
    cases x with
    | code c => simpa [Segment.written, Segment.left] using hpre
    | quoted mark body => simpa [Segment.written, Segment.left] using hpre
    | verbatim sigil body =>
      obtain ⟨c, t, rfl, -⟩ := exists_sigil hx.1
      simpa [Segment.written, Segment.left] using hpre
    | _ => exact hx.elim

theorem isPrefix_written_pair {a d : Char} (ha : a ≠ '"' ∧ a ≠ '\'') (h : ∀ x ∈ xs, x.IsShort)
    (hpre : [a, d] <+: left xs) : [a, d] <+: written xs := by
  cases xs with
  | nil => exact hpre
  | cons x xs =>
    obtain ⟨hx, hxs⟩ := List.forall_mem_cons.1 h
    cases x with
    | code c =>
      have hpre : [a, d] <+: c :: left xs := hpre
      rw [List.cons_prefix_cons] at hpre
      exact List.cons_prefix_cons.2 ⟨hpre.1, isPrefix_written_singleton hxs hpre.2⟩
    | quoted mark body =>
      have hmark : a = mark := (List.cons_prefix_cons.1 hpre).1
      rcases hx.1 with rfl | rfl
      · exact absurd hmark ha.1
      · exact absurd hmark ha.2
    | verbatim sigil body =>
      have hsigil := hx.1
      simp only [sigils, List.mem_cons, List.not_mem_nil, or_false] at hsigil
      rcases hsigil with rfl | rfl | rfl
      · simpa [Segment.written, Segment.left] using hpre
      · simpa [Segment.written, Segment.left] using hpre
      · simpa [Segment.written, Segment.left] using hpre
    | _ => exact hx.elim

/-- What a segment is told by stands behind erasing where it stood before, but for the mark of a
string literal. -/
theorem fits_emptied (hs : s.IsShort) (hxs : ∀ x ∈ xs, x.IsShort) (h : s.Fits (written xs))
    (hstring : s.lexeme.isString = true → ¬ ['"'] <+: written xs) : s.emptied.Fits (left xs) := by
  have hone : ∀ d, ¬ [d] <+: written xs → ¬ [d] <+: left xs :=
    fun d hno hpre => hno (isPrefix_written_singleton hxs hpre)
  have htwo : ∀ a d, a ≠ '"' ∧ a ≠ '\'' → ¬ [a, d] <+: written xs → ¬ [a, d] <+: left xs :=
    fun a d ha hno hpre => hno (isPrefix_written_pair ha hxs hpre)
  cases s with
  | code c =>
    obtain ⟨hquote, hmark, hslash, hat, hdollar⟩ := h
    exact ⟨hquote, hmark, fun hc => (hslash hc).imp (hone _) (hone _),
      fun hc => (hat hc).imp (hone _) (htwo _ _ (by decide)),
      fun hc => htwo _ _ (by decide) (hdollar hc)⟩
  | quoted mark body =>
    refine ⟨hs.1, .nil, ?_⟩
    rintro rfl -
    exact hone _ (hstring rfl)
  | verbatim sigil body => exact ⟨hs.1, .nil, hone _ h.2.2⟩
  | _ => exact hs.elim

/-- A segment goes in front of a line that does not go on behind a comment. -/
theorem Legible.cons {outer : Nat} {raw erased : Text}
    (h : Legible false (s.opens inner) outer raw erased) (hs : s.IsShort) (hfits : s.Fits raw)
    (hstring : s.lexeme.isString = true → ¬ ['"'] <+: raw) :
    Legible false inner outer (s.written ++ raw) (s.left ++ erased) := by
  cases h with
  | @whole _ xs hxs =>
    have hemptied := fits_emptied hs hxs.isShort hfits hstring
    have hcons : Short (s :: xs) := ⟨hs, hfits, hemptied, hxs⟩
    exact .whole hcons
  | @front _ xs back back' hxs hopen hback hback' =>
    have hfits := hfits.of_append hs
    have hemptied := fits_emptied hs hxs.isShort hfits
      fun hs hpre => hstring hs (hpre.trans (List.prefix_append _ back))
    rw [← List.append_assoc, ← List.append_assoc]
    have hcons : Short (s :: xs) := ⟨hs, hfits, hemptied, hxs⟩
    exact .front hcons hopen hback hback'

theorem LegibleText.segment (h : LegibleText false (s.opens inner) t t') (hs : s.IsShort)
    (hfeed : s ≠ .code '\n') (hfits : s.Fits t)
    (hstring : s.lexeme.isString = true → ¬ ['"'] <+: t) :
    LegibleText false inner (s.written ++ t) (s.left ++ t') := by
  obtain ⟨outer, raw, raws, erased, eraseds, hraw, herased, hfirst, hmore⟩ := h
  obtain ⟨hwritten, hleft⟩ := notMem_written hs hfeed
  have hpre : raw <+: t := by
    rw [Text.eq_takeWhile_of_lines hraw]
    exact List.takeWhile_prefix _
  obtain ⟨more, rfl⟩ := hpre
  refine ⟨outer, _, raws, _, eraseds, Text.lines_append_of_notMem hwritten hraw,
    Text.lines_append_of_notMem hleft herased, hfirst.cons hs (hfits.of_append hs) ?_, hmore⟩
  exact fun hs hpre => hstring hs (hpre.trans (List.prefix_append raw more))

/-! ### Comments and longer literals in front -/

theorem legibleLines_append {front front' raws eraseds : List Text}
    (hlength : front.length = front'.length) (hfront : ∀ e ∈ front', '[' ∉ e)
    (h : LegibleLines 0 raws eraseds) : LegibleLines 0 (front ++ raws) (front' ++ eraseds) := by
  induction front generalizing front' with
  | nil =>
    obtain rfl := List.eq_nil_of_length_eq_zero hlength.symm
    exact h
  | cons raw front ih =>
    cases front' with
    | nil => exact absurd hlength (by simp)
    | cons erased front' =>
      obtain ⟨herased, hfront⟩ := List.forall_mem_cons.1 hfront
      exact .cons rfl (.behind herased) (ih (Nat.succ.inj hlength) hfront)

/-- Text that opens no bracket goes in front of a line that goes on behind a comment. -/
theorem LegibleText.append {u u' : Text} (h : LegibleText true 0 t t')
    (hfeeds : Text.lineFeeds u' = Text.lineFeeds u) (hbracket : '[' ∉ u') :
    LegibleText true 0 (u ++ t) (u' ++ t') := by
  obtain ⟨outer, raw, raws, erased, eraseds, hraw, herased, hfirst, hmore⟩ := h
  cases hfirst with
  | behind hnone =>
    obtain ⟨front, last, next, behind, hu, ht, hut⟩ := Text.splitAt_append '\n' u t
    obtain ⟨front', last', next', behind', hu', ht', hut'⟩ := Text.splitAt_append '\n' u' t'
    obtain ⟨rfl, rfl⟩ : next = raw ∧ behind = raws := List.cons.inj (ht.symm.trans hraw)
    obtain ⟨rfl, rfl⟩ : next' = erased ∧ behind' = eraseds :=
      List.cons.inj (ht'.symm.trans herased)
    have hlength : front.length = front'.length := by
      have hlines := Text.length_lines (t := u)
      have hlines' := Text.length_lines (t := u')
      rw [Text.lines, hu, List.length_append] at hlines
      rw [Text.lines, hu', List.length_append, hfeeds] at hlines'
      exact Nat.add_right_cancel (hlines.trans hlines'.symm)
    have hopen : ∀ e ∈ front' ++ [last'], '[' ∉ e := by
      intro e he hmem
      rw [← hu'] at he
      exact hbracket ((Text.isInfix_of_mem_lines he).subset hmem)
    obtain ⟨hfront, hlast⟩ := List.forall_mem_append.1 hopen
    have hjoint : '[' ∉ last' ++ next' := List.not_mem_append (hlast _ List.mem_cons_self) hnone
    cases front with
    | nil =>
      obtain rfl := List.eq_nil_of_length_eq_zero hlength.symm
      exact ⟨0, _, _, _, _, hut, hut', .behind hjoint, hmore⟩
    | cons first front =>
      obtain ⟨first', front', rfl⟩ := List.exists_cons_of_length_eq_add_one hlength.symm
      obtain ⟨hfirst, hfront⟩ := List.forall_mem_cons.1 hfront
      exact ⟨0, _, _, _, _, hut, hut', .behind hfirst,
        legibleLines_append (Nat.succ.inj hlength) hfront (.cons rfl (.behind hjoint) hmore)⟩

/-- Where a comment or longer literal begins no line goes on behind another. -/
theorem LegibleText.begin (h : LegibleText true 0 (c :: rest) t') (hblank : Text.isBlank c = false)
    (hc : c ≠ '[') : LegibleText false 0 (c :: rest) t' := by
  obtain ⟨outer, raw, raws, erased, eraseds, hraw, herased, hfirst, hmore⟩ := h
  have hfeed : c ≠ '\n' := by
    rintro rfl
    exact absurd hblank (by decide)
  have hfirstRaw : raw = c :: rest.takeWhile (· != '\n') := by
    rw [Text.eq_takeWhile_of_lines hraw, List.takeWhile_cons_of_pos (by simpa using hfeed)]
  have hhead : (Text.trimLeft raw).head? ≠ some '[' := by
    rw [hfirstRaw, Text.trimLeft, List.dropWhile_cons_of_neg (by simp [hblank])]
    simpa using hc
  cases hfirst with
  | behind hnone =>
    exact ⟨0, raw, raws, erased, eraseds, hraw, herased,
      @Legible.front 0 [] _ _ trivial rfl (noGroup_of_head hhead) hnone, hmore⟩

/-! ## Source -/

/-- Where comments and longer literals keep off brackets, every line is legible. -/
theorem legibleText_erase (t : Text) {behind : Bool} {inner : Nat}
    (h : keepsOff inner behind (lexemes t) = true) (hbehind : behind = true → inner = 0) :
    LegibleText behind inner t (erase t) := by
  fun_induction lexemes t generalizing behind inner with
  | case1 =>
    rw [erase, lexemes]
    exact legibleText_nil hbehind
  | case2 c rest ih =>
    have herase : erase (c :: rest) =
        (nextLexeme c rest).1.erased ++ erase (nextLexeme c rest).2 := by
      rw [erase, lexemes]
      rfl
    have hgoesOn : '[' ∉ (nextLexeme c rest).1.erased →
        keepsOff 0 true (lexemes (nextLexeme c rest).2) = true →
        LegibleText true 0 (c :: rest) (erase (c :: rest)) := by
      intro hbracket hrest
      have happend := (ih hrest fun _ => rfl).append (lineFeeds_erased c rest) hbracket
      rwa [nextLexeme_append, ← herase] at happend
    rw [keepsOff] at h
    cases hsegment : (nextLexeme c rest).1.segment? with
    | none =>
      simp only [hsegment, Bool.and_eq_true, beq_iff_eq] at h
      obtain ⟨rfl, hrest⟩ := h
      obtain ⟨hblank, hc⟩ := ne_bracket_of_next hsegment
      have htext := hgoesOn (notMem_erased_of_next hsegment) hrest
      cases behind with
      | true => exact htext
      | false => exact htext.begin hblank hc
    | some s =>
      simp only [hsegment, Bool.and_eq_true] at h
      obtain ⟨⟨⟨hbracket, hstring⟩, hread⟩, hrest⟩ := h
      obtain ⟨hs, hfits, hlexeme⟩ := segment_of_next hsegment
      have hwritten : s.written ++ (nextLexeme c rest).2 = c :: rest := by
        rw [← nextLexeme_append c rest, ← hlexeme, hs.written_lexeme]
      have hleft : s.left ++ erase (nextLexeme c rest).2 = erase (c :: rest) := by
        rw [herase, ← hlexeme, erased_lexeme hfits]
      by_cases hfeed : s = .code '\n'
      · subst hfeed
        have hopens : (Segment.code '\n').opens inner = inner := rfl
        rw [hopens, bne_self_eq_false, Bool.and_false] at hrest
        rw [bne_self_eq_false, Bool.false_or] at hread
        rw [← hleft, ← hwritten]
        exact (ih hrest (by simp)).lineFeed hread hbehind
      · cases behind with
        | false =>
          rw [Bool.false_and] at hrest
          rw [← hleft, ← hwritten]
          refine (ih hrest (by simp)).segment hs hfeed hfits ?_
          intro hmark hpre
          rw [hlexeme] at hmark
          simp [hmark, isString_of_isPrefix hpre] at hstring
        | true =>
          obtain rfl := hbehind rfl
          have hopen : s ≠ .code '[' := by simpa using hbracket
          rw [Segment.opens_zero hopen, bne_iff_ne.2 hfeed, Bool.and_true] at hrest
          refine hgoesOn ?_ hrest
          intro hmem
          rw [eq_code_of_mem_erased (by decide) hmem] at hsegment
          exact hopen (Option.some.inj hsegment).symm

/-- Where comments and longer literals keep off brackets, every line of the source is legible. -/
theorem KeepsOff.legibleLines {source : Text} (h : KeepsOff source) :
    LegibleLines 0 (Text.lines source) (Text.lines (erase source)) :=
  (legibleText_erase source h (by simp)).legibleLines rfl

end Source

end RazorViews
