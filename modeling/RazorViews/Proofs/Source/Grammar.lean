import RazorViews.Source.Lexeme

/-!
# The lexical grammar of source, and reading what it writes

Source is a sequence of segments: characters of code, comments, and literals of several kinds, the
last of which may be left open.  The grammar says what a segment is written as and what may stand
between its marks; it knows nothing of the reader.  Which segments may follow one another is a
condition on the text behind a segment, since a slash, a quote or an at sign means something else in
front of some characters.

## What is proved

* `lexemes_segment`: a segment that fits in front of a text is read as one lexeme, and reading goes
  on with that text.
* `erase_document`: erasing what the grammar writes leaves, segment by segment, what the grammar
  says is left of each.  A character of code stays as it is; a comment to the end of the line goes
  without its line feed; a comment between marks leaves a space and its line feeds; a literal leaves
  its marks with nothing between them, and its line feeds in front of the closing one.

The condition `AllFit` is on neighbours only and can be decided.  It asks of each kind what its
marks need: that a verbatim literal is not followed by a quote, that the body of a fenced one
neither holds its fence nor runs into it, that a character of code does not begin a comment or a
literal together with what follows.  `Ending` covers texts that stop within a comment or a literal.

## What it is not

Not every text is written by the grammar in one way only, and nothing is claimed of that.  The
grammar is used to say what a text means to a reader who knows the language; that no line feed is
lost, of any text whatever, is proved without it (`keepsLines`), and so is what happens when a text
is erased twice (`erase_erase_iff`).
-/

namespace RazorViews.Source

/-! ## Bodies -/

/-- What stands between the marks of a literal on one line: neither a mark nor a line feed, but a
backslash takes any character of the line along. -/
inductive QuotedBody (mark : Char) : Text → Prop
  | nil : QuotedBody mark []
  | plain {c : Char} {rest : Text} : c ≠ mark → c ≠ '\\' → c ≠ '\n' → QuotedBody mark rest →
      QuotedBody mark (c :: rest)
  | escape {c : Char} {rest : Text} : c ≠ '\n' → QuotedBody mark rest →
      QuotedBody mark ('\\' :: c :: rest)

/-- What stands between the marks of a verbatim literal: every quote is doubled. -/
inductive VerbatimBody : Text → Prop
  | nil : VerbatimBody []
  | plain {c : Char} {rest : Text} : c ≠ '"' → VerbatimBody rest → VerbatimBody (c :: rest)
  | doubled {rest : Text} : VerbatimBody rest → VerbatimBody ('"' :: '"' :: rest)

/-! ### Both are decidable, by looking at one more character than is taken -/

theorem quotedBody_singleton_iff {mark c : Char} :
    QuotedBody mark [c] ↔ c ≠ mark ∧ c ≠ '\\' ∧ c ≠ '\n' := by
  constructor
  · intro h
    cases h with
    | plain hne hback hfeed _ => exact ⟨hne, hback, hfeed⟩
  · rintro ⟨hne, hback, hfeed⟩
    exact .plain hne hback hfeed .nil

theorem quotedBody_cons_cons_iff {mark c d : Char} {rest : Text} :
    QuotedBody mark (c :: d :: rest) ↔
      if c = '\\' then d ≠ '\n' ∧ QuotedBody mark rest
      else c ≠ mark ∧ c ≠ '\n' ∧ QuotedBody mark (d :: rest) := by
  split
  · rename_i hc
    subst hc
    constructor
    · intro h
      cases h with
      | plain _ hback => exact absurd rfl hback
      | escape hfeed hrest => exact ⟨hfeed, hrest⟩
    · rintro ⟨hfeed, hrest⟩
      exact .escape hfeed hrest
  · rename_i hc
    constructor
    · intro h
      cases h with
      | plain hne _ hfeed hrest => exact ⟨hne, hfeed, hrest⟩
      | escape => exact absurd rfl hc
    · rintro ⟨hne, hfeed, hrest⟩
      exact .plain hne hc hfeed hrest

instance decQuotedBody (mark : Char) : (t : Text) → Decidable (QuotedBody mark t)
  | [] => isTrue .nil
  | [_] => decidable_of_iff _ quotedBody_singleton_iff.symm
  | _ :: d :: rest =>
    have := decQuotedBody mark rest
    have := decQuotedBody mark (d :: rest)
    decidable_of_iff _ quotedBody_cons_cons_iff.symm

theorem verbatimBody_singleton_iff {c : Char} : VerbatimBody [c] ↔ c ≠ '"' := by
  constructor
  · intro h
    cases h with
    | plain hne _ => exact hne
  · exact fun hne => .plain hne .nil

theorem verbatimBody_cons_cons_iff {c d : Char} {rest : Text} :
    VerbatimBody (c :: d :: rest) ↔
      if c = '"' then d = '"' ∧ VerbatimBody rest else VerbatimBody (d :: rest) := by
  split
  · rename_i hc
    subst hc
    constructor
    · intro h
      cases h with
      | plain hne => exact absurd rfl hne
      | doubled hrest => exact ⟨rfl, hrest⟩
    · rintro ⟨rfl, hrest⟩
      exact .doubled hrest
  · rename_i hc
    constructor
    · intro h
      cases h with
      | plain _ hrest => exact hrest
      | doubled => exact absurd rfl hc
    · exact fun hrest => .plain hc hrest

instance decVerbatimBody : (t : Text) → Decidable (VerbatimBody t)
  | [] => isTrue .nil
  | [_] => decidable_of_iff _ verbatimBody_singleton_iff.symm
  | _ :: d :: rest =>
    have := decVerbatimBody rest
    have := decVerbatimBody (d :: rest)
    decidable_of_iff _ verbatimBody_cons_cons_iff.symm

/-! ## Each cut ends where the body ends -/

/-- A line comment ends in front of the line feed, or with the text. -/
theorem cutLine_body {body after : Text} (hbody : '\n' ∉ body)
    (hafter : after = [] ∨ ['\n'] <+: after) : cutLine (body ++ after) = (body, after) := by
  have hall : ∀ c ∈ body, (c != '\n') = true := by
    intro c hc
    exact bne_iff_ne.2 fun h => hbody (h ▸ hc)
  have hstop : after.takeWhile (· != '\n') = [] ∧ after.dropWhile (· != '\n') = after := by
    rcases hafter with rfl | ⟨rest, rfl⟩
    · exact ⟨rfl, rfl⟩
    · simp
  simp only [cutLine, List.takeWhile_append_of_pos hall, List.dropWhile_append_of_pos hall,
    hstop.1, hstop.2, List.append_nil]

theorem cutBlock_body {body : Text} (after : Text) (h : ¬ ['*', '/'] <:+: body) :
    cutBlock (body ++ '*' :: '/' :: after) = (body ++ ['*', '/'], after) := by
  induction body with
  | nil => rfl
  | cons c body ih =>
    have htail : ¬ ['*', '/'] <:+: body := fun hi => h (List.infix_cons hi)
    have hhead : ∀ rest, c = '*' → body ++ '*' :: '/' :: after = '/' :: rest → False := by
      rintro rest rfl heq
      cases body with
      | nil => simp at heq
      | cons d body =>
        rw [List.cons_append, List.cons.injEq] at heq
        exact h (heq.1 ▸ (List.prefix_append ['*', '/'] body).isInfix)
    rw [List.cons_append, cutBlock.eq_3 _ _ hhead, ih htail]
    rfl

theorem cutBlock_open {body : Text} (h : ¬ ['*', '/'] <:+: body) : cutBlock body = (body, []) := by
  induction body with
  | nil => rfl
  | cons c body ih =>
    have htail : ¬ ['*', '/'] <:+: body := fun hi => h (List.infix_cons hi)
    have hhead : ∀ rest, c = '*' → body = '/' :: rest → False := by
      rintro rest rfl rfl
      exact h (List.prefix_append ['*', '/'] rest).isInfix
    rw [cutBlock.eq_3 _ _ hhead, ih htail]

/-- A literal on one line ends behind its second mark. -/
theorem cutQuoted_body {mark : Char} {body : Text} (after : Text) (hmark : mark ≠ '\\')
    (h : QuotedBody mark body) :
    cutQuoted mark (body ++ mark :: after) = (body ++ [mark], after) := by
  induction h with
  | nil => simp [cutQuoted, hmark]
  | plain hne hback hfeed _ ih => simp [cutQuoted, hne, hback, hfeed, ih]
  | escape hfeed _ ih => simp [cutQuoted, ih]

/-- A verbatim literal ends behind a quote that no other follows. -/
theorem cutVerbatim_body {body after : Text} (hafter : ¬ ['"'] <+: after) (h : VerbatimBody body) :
    cutVerbatim (body ++ '"' :: after) = (body ++ ['"'], after) := by
  induction h with
  | nil =>
    cases after with
    | nil => rfl
    | cons c after =>
      have hc : c ≠ '"' := fun hc => hafter (hc ▸ List.prefix_append ['"'] after)
      simp [cutVerbatim, hc]
  | plain hne _ ih => simp [cutVerbatim, hne, ih]
  | doubled _ ih => simp [cutVerbatim, ih]

theorem cutVerbatim_open {body : Text} (h : VerbatimBody body) :
    cutVerbatim body = (body, []) := by
  induction h with
  | nil => rfl
  | plain hne _ ih => simp [cutVerbatim, hne, ih]
  | doubled _ ih => simp [cutVerbatim, ih]

/-- A run of quotes as long as the fence begins inside the body only if the body holds one, or ends
with a quote. -/
theorem not_fence_isPrefix {fence : Nat} {body after : Text} (hne : body ≠ [])
    (hlast : body.getLast? ≠ some '"') (h : ¬ List.replicate fence '"' <:+: body) :
    ¬ List.replicate fence '"' <+: body ++ after := by
  intro hp
  rcases Nat.le_total fence body.length with hle | hle
  · have hin : List.replicate fence '"' <+: body :=
      List.prefix_of_prefix_length_le hp (List.prefix_append body after) (by simpa using hle)
    exact h hin.isInfix
  · have hq : body <+: List.replicate fence '"' :=
      List.prefix_of_prefix_length_le (List.prefix_append body after) hp (by simpa using hle)
    have hmem : body.getLast hne ∈ List.replicate fence '"' := hq.subset (List.getLast_mem hne)
    exact hlast (by rw [List.getLast?_eq_some_getLast hne, List.eq_of_mem_replicate hmem])

/-- A fenced literal ends behind the first fence, which its body neither holds nor runs into. -/
theorem cutFenced_body {fence : Nat} {body : Text} (after : Text) (hfence : 0 < fence)
    (hlast : body.getLast? ≠ some '"') (h : ¬ List.replicate fence '"' <:+: body) :
    cutFenced fence (body ++ (List.replicate fence '"' ++ after)) =
      (body ++ List.replicate fence '"', after) := by
  induction body with
  | nil =>
    obtain ⟨n, rfl⟩ : ∃ n, fence = n + 1 := ⟨fence - 1, by omega⟩
    have hp : (List.replicate (n + 1) '"').isPrefixOf
        ('"' :: (List.replicate n '"' ++ after)) = true :=
      List.isPrefixOf_iff_prefix.2 (List.prefix_append (List.replicate (n + 1) '"') after)
    simp only [List.nil_append, List.replicate_succ, List.cons_append, cutFenced] at hp ⊢
    rw [if_pos hp]
    simp
  | cons c body ih =>
    have hp : (List.replicate fence '"').isPrefixOf
        (c :: (body ++ (List.replicate fence '"' ++ after))) = false := by
      rw [Bool.eq_false_iff, ne_eq, List.isPrefixOf_iff_prefix]
      exact not_fence_isPrefix (List.cons_ne_nil c body) hlast h
    have htail : ¬ List.replicate fence '"' <:+: body := fun hi => h (List.infix_cons hi)
    have hlast' : body.getLast? ≠ some '"' := by
      cases body with
      | nil => simp
      | cons d body => simpa using hlast
    rw [List.cons_append, cutFenced, hp, ih hlast' htail]
    rfl

theorem cutFenced_open {fence : Nat} {body : Text} (h : ¬ List.replicate fence '"' <:+: body) :
    cutFenced fence body = (body, []) := by
  induction body with
  | nil => rfl
  | cons c body ih =>
    have hp : (List.replicate fence '"').isPrefixOf (c :: body) = false := by
      rw [Bool.eq_false_iff, ne_eq, List.isPrefixOf_iff_prefix]
      exact fun hp => h hp.isInfix
    have htail : ¬ List.replicate fence '"' <:+: body := fun hi => h (List.infix_cons hi)
    rw [cutFenced, hp, ih htail]
    rfl

/-! ## Segments -/

/-- What a verbatim literal may be introduced by. -/
def sigils : List Text := [['@'], ['$', '@'], ['@', '$']]

/-- A piece of source, by what stands between its marks. -/
inductive Segment where
  /-- A character of code. -/
  | code (c : Char)
  | lineComment (body : Text)
  | blockComment (body : Text)
  /-- A string or character literal on one line. -/
  | quoted (mark : Char) (body : Text)
  | verbatim (sigil body : Text)
  /-- A literal between fences of quotes. -/
  | fenced (fence : Nat) (body : Text)
deriving DecidableEq, Repr

namespace Segment

/-- The line feeds of a body, one after another. -/
def feeds (body : Text) : Text := List.replicate (Text.lineFeeds body) '\n'

/-- How a segment is written. -/
def written : Segment → Text
  | code c => [c]
  | lineComment body => ['/', '/'] ++ body
  | blockComment body => ['/', '*'] ++ body ++ ['*', '/']
  | quoted mark body => [mark] ++ body ++ [mark]
  | verbatim sigil body => sigil ++ ['"'] ++ body ++ ['"']
  | fenced fence body => List.replicate fence '"' ++ body ++ List.replicate fence '"'

/-- What erasing leaves of a segment. -/
def left : Segment → Text
  | code c => [c]
  | lineComment _ => []
  | blockComment body => [' '] ++ feeds body
  | quoted mark _ => [mark, mark]
  | verbatim sigil body => sigil ++ ['"', '"'] ++ feeds body
  | fenced fence body => List.replicate fence '"' ++ List.replicate fence '"' ++ feeds body

/-- A segment is well formed, and the text behind it does not make something else of it. -/
def Fits (after : Text) : Segment → Prop
  | code c =>
    c ≠ '"' ∧ c ≠ '\'' ∧
    (c = '/' → ¬ ['/'] <+: after ∧ ¬ ['*'] <+: after) ∧
    (c = '@' → ¬ ['"'] <+: after ∧ ¬ ['$', '"'] <+: after) ∧
    (c = '$' → ¬ ['@', '"'] <+: after)
  | lineComment body => '\n' ∉ body ∧ (after = [] ∨ ['\n'] <+: after)
  | blockComment body => ¬ ['*', '/'] <:+: body
  | quoted mark body =>
    (mark = '"' ∨ mark = '\'') ∧ QuotedBody mark body ∧
    (mark = '"' → body = [] → ¬ ['"'] <+: after)
  | verbatim sigil body => sigil ∈ sigils ∧ VerbatimBody body ∧ ¬ ['"'] <+: after
  | fenced fence body =>
    3 ≤ fence ∧ body ≠ [] ∧ body.head? ≠ some '"' ∧ body.getLast? ≠ some '"' ∧
    ¬ List.replicate fence '"' <:+: body

instance decFits (after : Text) : (s : Segment) → Decidable (s.Fits after)
  | code c => inferInstanceAs (Decidable (c ≠ '"' ∧ c ≠ '\'' ∧
      (c = '/' → ¬ ['/'] <+: after ∧ ¬ ['*'] <+: after) ∧
      (c = '@' → ¬ ['"'] <+: after ∧ ¬ ['$', '"'] <+: after) ∧
      (c = '$' → ¬ ['@', '"'] <+: after)))
  | lineComment body =>
    inferInstanceAs (Decidable ('\n' ∉ body ∧ (after = [] ∨ ['\n'] <+: after)))
  | blockComment body => inferInstanceAs (Decidable (¬ ['*', '/'] <:+: body))
  | quoted mark body => inferInstanceAs (Decidable ((mark = '"' ∨ mark = '\'') ∧
      QuotedBody mark body ∧ (mark = '"' → body = [] → ¬ ['"'] <+: after)))
  | verbatim sigil body =>
    inferInstanceAs (Decidable (sigil ∈ sigils ∧ VerbatimBody body ∧ ¬ ['"'] <+: after))
  | fenced fence body => inferInstanceAs (Decidable (3 ≤ fence ∧ body ≠ [] ∧
      body.head? ≠ some '"' ∧ body.getLast? ≠ some '"' ∧ ¬ List.replicate fence '"' <:+: body))

/-- The lexeme that a segment is read as. -/
def lexeme : Segment → Lexeme
  | code c => .code c
  | lineComment body => .lineComment body
  | blockComment body => .blockComment (body ++ ['*', '/'])
  | quoted mark body => .quoted mark (body ++ [mark])
  | verbatim sigil body => .verbatim sigil (body ++ ['"'])
  | fenced fence body => .fenced (fence - 3) (body ++ List.replicate fence '"')

end Segment

/-- How a text ends behind its last segment: with nothing, or with something left open. -/
inductive Ending where
  | nothing
  | blockComment (body : Text)
  | verbatim (sigil body : Text)
  | fenced (fence : Nat) (body : Text)
deriving DecidableEq, Repr

namespace Ending

/-- How an ending is written. -/
def written : Ending → Text
  | nothing => []
  | blockComment body => ['/', '*'] ++ body
  | verbatim sigil body => sigil ++ ['"'] ++ body
  | fenced fence body => List.replicate fence '"' ++ body

/-- What erasing leaves of an ending. -/
def left : Ending → Text
  | nothing => []
  | blockComment body => [' '] ++ Segment.feeds body
  | verbatim sigil body => sigil ++ ['"', '"'] ++ Segment.feeds body
  | fenced fence body =>
    List.replicate fence '"' ++ List.replicate fence '"' ++ Segment.feeds body

/-- An ending is well formed and really open. -/
def Fits : Ending → Prop
  | nothing => True
  | blockComment body => ¬ ['*', '/'] <:+: body
  | verbatim sigil body => sigil ∈ sigils ∧ VerbatimBody body
  | fenced fence body =>
    3 ≤ fence ∧ body.head? ≠ some '"' ∧ ¬ List.replicate fence '"' <:+: body

instance decFits : (e : Ending) → Decidable e.Fits
  | nothing => isTrue trivial
  | blockComment body => inferInstanceAs (Decidable (¬ ['*', '/'] <:+: body))
  | verbatim sigil body => inferInstanceAs (Decidable (sigil ∈ sigils ∧ VerbatimBody body))
  | fenced fence body => inferInstanceAs (Decidable (3 ≤ fence ∧ body.head? ≠ some '"' ∧
      ¬ List.replicate fence '"' <:+: body))

/-- The lexemes that an ending is read as. -/
def lexemes : Ending → List Lexeme
  | nothing => []
  | blockComment body => [.blockComment body]
  | verbatim sigil body => [.verbatim sigil body]
  | fenced fence body => [.fenced (fence - 3) body]

end Ending

/-- Each of several segments fits in front of the ones behind it and of the text behind them. -/
def AllFit (after : Text) : List Segment → Prop
  | [] => True
  | s :: rest => s.Fits (rest.flatMap Segment.written ++ after) ∧ AllFit after rest

instance decAllFit (after : Text) : (segments : List Segment) → Decidable (AllFit after segments)
  | [] => isTrue trivial
  | s :: rest =>
    have := decAllFit after rest
    inferInstanceAs (Decidable (s.Fits (rest.flatMap Segment.written ++ after) ∧
      AllFit after rest))

/-! ## Segments are read back -/

/-- Reading takes one lexeme and goes on behind it. -/
theorem lexemes_of_next {c : Char} {rest after : Text} {l : Lexeme}
    (h : nextLexeme c rest = (l, after)) : lexemes (c :: rest) = l :: lexemes after := by
  rw [lexemes, h]

theorem nextLexeme_code {c : Char} {after : Text} (h : (Segment.code c).Fits after) :
    nextLexeme c after = (.code c, after) := by
  obtain ⟨hquote, hmark, hslash, hat, hdollar⟩ := h
  fun_cases nextLexeme c after <;> simp_all

/-- A literal on one line is read up to its second mark, unless it is the beginning of a fence. -/
theorem nextLexeme_quoted {mark : Char} {body after : Text}
    (h : (Segment.quoted mark body).Fits after) :
    nextLexeme mark (body ++ mark :: after) = (.quoted mark (body ++ [mark]), after) := by
  obtain ⟨hmark, hbody, hempty⟩ := h
  have hback : mark ≠ '\\' := by rcases hmark with rfl | rfl <;> decide
  have hcut := cutQuoted_body after hback hbody
  rcases hmark with rfl | rfl
  · -- two quotes in a row stand at the front only if the body is empty, and then no third follows
    have hfence : ∀ r, body ++ '"' :: after ≠ '"' :: '"' :: r := by
      intro r heq
      cases hbody with
      | nil => exact hempty rfl rfl ⟨r, (List.cons.inj heq).2.symm⟩
      | plain hne => exact hne (List.cons.inj heq).1
      | escape => exact absurd (List.cons.inj heq).1 (by decide)
    rw [nextLexeme.eq_7 _ hfence, hcut]
  · rw [nextLexeme, hcut]

/-- An introduced quote begins a verbatim literal. -/
theorem lexemes_sigil {sigil : Text} (hsigil : sigil ∈ sigils) (r : Text) :
    lexemes (sigil ++ '"' :: r) =
      .verbatim sigil (cutVerbatim r).1 :: lexemes (cutVerbatim r).2 := by
  simp only [sigils, List.mem_cons, List.not_mem_nil, or_false] at hsigil
  rcases hsigil with rfl | rfl | rfl
  · exact lexemes_of_next (nextLexeme.eq_4 r)
  · exact lexemes_of_next (nextLexeme.eq_5 r)
  · exact lexemes_of_next (nextLexeme.eq_6 r)

/-- A run of at least three quotes in front of something else is read as a fence. -/
theorem nextLexeme_fence {extra : Nat} {r : Text} (hr : r.head? ≠ some '"') :
    nextLexeme '"' ('"' :: '"' :: (List.replicate extra '"' ++ r)) =
      (.fenced extra (cutFenced (extra + 3) r).1, (cutFenced (extra + 3) r).2) := by
  have hall : ∀ c ∈ List.replicate extra '"', (c == '"') = true := by
    intro c hc
    exact beq_iff_eq.2 (List.eq_of_mem_replicate hc)
  have hstop : r.takeWhile (· == '"') = [] ∧ r.dropWhile (· == '"') = r := by
    cases r with
    | nil => exact ⟨rfl, rfl⟩
    | cons c r =>
      have hc : c ≠ '"' := fun hc => hr (hc ▸ rfl)
      simp [hc]
  rw [nextLexeme.eq_3, List.takeWhile_append_of_pos hall, List.dropWhile_append_of_pos hall,
    hstop.1, hstop.2, List.append_nil, List.length_replicate]

theorem lexemes_fence {fence : Nat} {r : Text} (hfence : 3 ≤ fence) (hr : r.head? ≠ some '"') :
    lexemes (List.replicate fence '"' ++ r) =
      .fenced (fence - 3) (cutFenced fence r).1 :: lexemes (cutFenced fence r).2 := by
  obtain ⟨extra, rfl⟩ : ∃ extra, fence = extra + 3 := ⟨fence - 3, by omega⟩
  simpa only [List.replicate_succ, List.cons_append, Nat.add_sub_cancel] using
    lexemes_of_next (nextLexeme_fence hr)

/-- A segment that fits is read as one lexeme, and reading goes on behind it. -/
theorem lexemes_segment {s : Segment} {after : Text} (h : s.Fits after) :
    lexemes (s.written ++ after) = s.lexeme :: lexemes after := by
  cases s with
  | code c => exact lexemes_of_next (nextLexeme_code h)
  | lineComment body =>
    have hnext := nextLexeme.eq_1 (body ++ after)
    rw [cutLine_body h.1 h.2] at hnext
    exact lexemes_of_next hnext
  | blockComment body =>
    have hnext := nextLexeme.eq_2 (body ++ '*' :: '/' :: after)
    rw [cutBlock_body after h] at hnext
    simpa [Segment.written, Segment.lexeme] using lexemes_of_next hnext
  | quoted mark body =>
    simpa [Segment.written, Segment.lexeme] using lexemes_of_next (nextLexeme_quoted h)
  | verbatim sigil body =>
    obtain ⟨hsigil, hbody, hafter⟩ := h
    have hread := lexemes_sigil hsigil (body ++ '"' :: after)
    rw [cutVerbatim_body hafter hbody] at hread
    simpa [Segment.written, Segment.lexeme] using hread
  | fenced fence body =>
    obtain ⟨hfence, hne, hhead, hlast, hbody⟩ := h
    have hhead' : (body ++ (List.replicate fence '"' ++ after)).head? ≠ some '"' := by
      cases body with
      | nil => exact absurd rfl hne
      | cons c body => exact hhead
    have hread := lexemes_fence hfence hhead'
    rw [cutFenced_body after (by omega) hlast hbody] at hread
    simpa [Segment.written, Segment.lexeme] using hread

theorem lexemes_ending {e : Ending} (h : e.Fits) : lexemes e.written = e.lexemes := by
  cases e with
  | nothing => rw [Ending.written, lexemes, Ending.lexemes]
  | blockComment body =>
    have hnext := nextLexeme.eq_2 body
    rw [cutBlock_open h] at hnext
    simpa [Ending.written, Ending.lexemes, lexemes] using lexemes_of_next hnext
  | verbatim sigil body =>
    have hread := lexemes_sigil h.1 body
    rw [cutVerbatim_open h.2] at hread
    simpa [Ending.written, Ending.lexemes, lexemes] using hread
  | fenced fence body =>
    have hread := lexemes_fence h.1 h.2.1
    rw [cutFenced_open h.2.2] at hread
    simpa [Ending.written, Ending.lexemes, lexemes] using hread

/-! ## What erasing leaves -/

theorem onlyLineFeeds_eq (t : Text) : Text.onlyLineFeeds t = Segment.feeds t := by
  rw [Text.onlyLineFeeds, Segment.feeds, Text.lineFeeds, List.filter_beq]

theorem feeds_append_of_notMem {body marks : Text} (h : '\n' ∉ marks) :
    Segment.feeds (body ++ marks) = Segment.feeds body := by
  rw [Segment.feeds, Segment.feeds, Text.lineFeeds, Text.lineFeeds, List.count_append,
    List.count_eq_zero_of_not_mem h, Nat.add_zero]

/-- Erasing leaves of the lexeme what the grammar says is left of the segment. -/
theorem erased_lexeme {s : Segment} {after : Text} (h : s.Fits after) :
    s.lexeme.erased = s.left := by
  cases s with
  | code | lineComment | quoted => rfl
  | blockComment body =>
    simp [Segment.lexeme, Lexeme.erased, Segment.left, onlyLineFeeds_eq, feeds_append_of_notMem]
  | verbatim sigil body =>
    simp [Segment.lexeme, Lexeme.erased, Segment.left, onlyLineFeeds_eq, feeds_append_of_notMem]
  | fenced fence body =>
    have htwice : 2 * (fence - 3 + 3) = fence + fence := by have := h.1; omega
    have hmarks : '\n' ∉ List.replicate fence '"' := fun hm =>
      absurd (List.eq_of_mem_replicate hm) (by decide)
    simp [Segment.lexeme, Lexeme.erased, Segment.left, onlyLineFeeds_eq,
      feeds_append_of_notMem hmarks, htwice]

theorem erased_ending {e : Ending} (h : e.Fits) :
    e.lexemes.flatMap Lexeme.erased = e.left := by
  cases e with
  | nothing => rfl
  | blockComment | verbatim =>
    simp [Ending.lexemes, Lexeme.erased, Ending.left, onlyLineFeeds_eq]
  | fenced fence body =>
    have htwice : 2 * (fence - 3 + 3) = fence + fence := by have := h.1; omega
    simp [Ending.lexemes, Lexeme.erased, Ending.left, onlyLineFeeds_eq, htwice]

/-- Erasing what segments are written as leaves what is left of each, and goes on behind them. -/
theorem erase_segments {segments : List Segment} {after : Text} (h : AllFit after segments) :
    erase (segments.flatMap Segment.written ++ after) =
      segments.flatMap Segment.left ++ erase after := by
  induction segments with
  | nil => rfl
  | cons s rest ih =>
    have hrest := ih h.2
    rw [erase] at hrest ⊢
    rw [List.flatMap_cons, List.append_assoc, lexemes_segment h.1, List.flatMap_cons, hrest,
      erased_lexeme h.1, List.flatMap_cons, List.append_assoc]

/-- **Erasing follows the lexical grammar.**  A text made of segments that fit one another and of
an ending is erased segment by segment: a character of code stays, a line comment goes, a block
comment leaves a space and its line feeds, a literal its empty delimiters and its line feeds. -/
theorem erase_document (segments : List Segment) (e : Ending) (h : AllFit e.written segments)
    (he : e.Fits) :
    erase (segments.flatMap Segment.written ++ e.written) =
      segments.flatMap Segment.left ++ e.left := by
  rw [erase_segments h, erase, lexemes_ending he, erased_ending he]

/-- A text with a segment of every kind: escapes and doubled quotes, a star in front of the end of
a comment, a fence beside other quotes, and a verbatim literal left open. -/
theorem erase_document_everyKind :
    let segments : List Segment :=
      [.code 'a', .code '/', .code ' ', .lineComment ['x'], .code '\n', .blockComment ['\n', '*'],
       .quoted '"' ['\\', '"'], .fenced 3 ['r', '"', 's'], .quoted '\'' [],
       .verbatim ['$', '@'] ['"', '"', '\n'], .code ';']
    let ending : Ending := .verbatim ['@'] ['o', '"', '"']
    AllFit ending.written segments ∧ ending.Fits ∧
      erase "a/ //x\n/*\n**/\"\\\"\"\"\"\"r\"s\"\"\"''$@\"\"\"\n\";@\"o\"\"".toList =
        "a/ \n \n\"\"\"\"\"\"\"\"''$@\"\"\n;@\"\"".toList := by
  intro segments ending
  have hfits : AllFit ending.written segments := by decide
  have hending : ending.Fits := by decide
  exact ⟨hfits, hending, erase_document segments ending hfits hending⟩

end RazorViews.Source
