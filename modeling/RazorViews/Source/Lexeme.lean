import RazorViews.Text.Basic

/-!
The lexemes of C# source, and source with everything erased that is not code.

A lexeme is a character of code, a comment, or a string or character literal.  Comments and
literals may hold braces, brackets and keywords that mean nothing, so the scanners of this library
look at the erased source instead: a literal leaves its empty delimiters behind, a block comment a
space, a line comment nothing, and every line feed stays where it was.

Nothing is ever lost or refused: a lexeme left open runs to the end of its line (quoted literals
and line comments) or of the text, and the lexemes of a text, written one after another, are the
text again.
-/

namespace RazorViews

/-- A lexeme of the source, with the text it was read from. -/
inductive Lexeme where
  /-- A character outside comments and literals. -/
  | code (c : Char)
  /-- A comment from two slashes to the end of the line; `body` follows the slashes. -/
  | lineComment (body : Text)
  /-- A comment between slash-star and star-slash; `body` ends with the latter if it is closed. -/
  | blockComment (body : Text)
  /-- A string or character literal with backslash escapes, on one line; `body` ends with the
  second mark if it is closed. -/
  | quoted (mark : Char) (body : Text)
  /-- A string literal that an at sign introduces, in which only a doubled quote is special. -/
  | verbatim (sigil body : Text)
  /-- A string literal between fences of three quotes and `extra` more. -/
  | fenced (extra : Nat) (body : Text)
deriving DecidableEq, Repr

namespace Lexeme

/-- The text that the lexeme was read from. -/
def written : Lexeme → Text
  | code c => [c]
  | lineComment body => '/' :: '/' :: body
  | blockComment body => '/' :: '*' :: body
  | quoted mark body => mark :: body
  | verbatim sigil body => sigil ++ '"' :: body
  | fenced extra body => '"' :: '"' :: '"' :: (List.replicate extra '"' ++ body)

/-- What is left of the lexeme when comments and literals are erased. -/
def erased : Lexeme → Text
  | code c => [c]
  | lineComment _ => []
  | blockComment body => ' ' :: Text.onlyLineFeeds body
  | quoted mark _ => [mark, mark]
  | verbatim sigil body => sigil ++ '"' :: '"' :: Text.onlyLineFeeds body
  | fenced extra body => List.replicate (2 * (extra + 3)) '"' ++ Text.onlyLineFeeds body

end Lexeme

namespace Source

/-! ## Where a comment or literal ends

Each function divides a text into the body it begins with, closing mark included, and the rest. -/

/-- Ends a line comment in front of the line feed. -/
def cutLine (t : Text) : Text × Text := (t.takeWhile (· != '\n'), t.dropWhile (· != '\n'))

/-- Ends a block comment behind the first star-slash. -/
def cutBlock : Text → Text × Text
  | [] => ([], [])
  | '*' :: '/' :: rest => (['*', '/'], rest)
  | c :: rest => (c :: (cutBlock rest).1, (cutBlock rest).2)

/-- Ends a quoted literal behind its second mark, or else in front of the line feed.  A backslash
hides the character behind it, but no line feed. -/
def cutQuoted (mark : Char) : Text → Text × Text
  | [] => ([], [])
  | ['\\'] => (['\\'], [])
  | '\\' :: '\n' :: rest => (['\\'], '\n' :: rest)
  | '\\' :: c :: rest => ('\\' :: c :: (cutQuoted mark rest).1, (cutQuoted mark rest).2)
  | c :: rest =>
    if c == mark then ([c], rest)
    else if c == '\n' then ([], c :: rest)
    else (c :: (cutQuoted mark rest).1, (cutQuoted mark rest).2)

/-- Ends a verbatim literal behind the first quote that is not doubled. -/
def cutVerbatim : Text → Text × Text
  | [] => ([], [])
  | '"' :: '"' :: rest => ('"' :: '"' :: (cutVerbatim rest).1, (cutVerbatim rest).2)
  | '"' :: rest => (['"'], rest)
  | c :: rest => (c :: (cutVerbatim rest).1, (cutVerbatim rest).2)

/-- Ends a fenced literal behind the first run of as many quotes as opened it. -/
def cutFenced (fence : Nat) : Text → Text × Text
  | [] => ([], [])
  | c :: rest =>
    if (List.replicate fence '"').isPrefixOf (c :: rest) then
      ((c :: rest).take fence, (c :: rest).drop fence)
    else
      (c :: (cutFenced fence rest).1, (cutFenced fence rest).2)

/-! ## Reading -/

/-- The lexeme that begins with a character and what follows it, and the text behind it. -/
def nextLexeme (c : Char) (rest : Text) : Lexeme × Text :=
  match c, rest with
  | '/', '/' :: r => (.lineComment (cutLine r).1, (cutLine r).2)
  | '/', '*' :: r => (.blockComment (cutBlock r).1, (cutBlock r).2)
  | '"', '"' :: '"' :: r =>
    let extra := (r.takeWhile (· == '"')).length
    let cut := cutFenced (extra + 3) (r.dropWhile (· == '"'))
    (.fenced extra cut.1, cut.2)
  | '@', '"' :: r => (.verbatim ['@'] (cutVerbatim r).1, (cutVerbatim r).2)
  | '$', '@' :: '"' :: r => (.verbatim ['$', '@'] (cutVerbatim r).1, (cutVerbatim r).2)
  | '@', '$' :: '"' :: r => (.verbatim ['@', '$'] (cutVerbatim r).1, (cutVerbatim r).2)
  | '"', r => (.quoted '"' (cutQuoted '"' r).1, (cutQuoted '"' r).2)
  | '\'', r => (.quoted '\'' (cutQuoted '\'' r).1, (cutQuoted '\'' r).2)
  | c, r => (.code c, r)

/-! ## No character is lost -/

theorem cutLine_append (t : Text) : (cutLine t).1 ++ (cutLine t).2 = t := by
  simp [cutLine]

theorem cutBlock_append (t : Text) : (cutBlock t).1 ++ (cutBlock t).2 = t := by
  fun_induction cutBlock t <;> simp_all

theorem cutQuoted_append (mark : Char) (t : Text) :
    (cutQuoted mark t).1 ++ (cutQuoted mark t).2 = t := by
  fun_induction cutQuoted mark t <;> simp_all

theorem cutVerbatim_append (t : Text) : (cutVerbatim t).1 ++ (cutVerbatim t).2 = t := by
  fun_induction cutVerbatim t <;> simp_all

theorem cutFenced_append (fence : Nat) (t : Text) :
    (cutFenced fence t).1 ++ (cutFenced fence t).2 = t := by
  fun_induction cutFenced fence t <;> simp_all

/-- A run of quotes, taken off a text and written again. -/
theorem replicate_takeWhile_quotes (t : Text) :
    List.replicate (t.takeWhile (· == '"')).length '"' = t.takeWhile (· == '"') := by
  induction t with
  | nil => rfl
  | cons c t ih =>
    by_cases h : c = '"'
    · subst h
      simp [List.replicate_succ, ih]
    · simp [h]

/-- A lexeme and the text behind it make up the text it was read from. -/
theorem nextLexeme_append (c : Char) (rest : Text) :
    (nextLexeme c rest).1.written ++ (nextLexeme c rest).2 = c :: rest := by
  fun_cases nextLexeme c rest with
  | case3 r extra cut =>
    have h : cut.1 ++ cut.2 = r.dropWhile (· == '"') := cutFenced_append _ _
    simp [Lexeme.written, h, extra, replicate_takeWhile_quotes, List.takeWhile_append_dropWhile]
  | _ => simp [Lexeme.written, cutLine_append, cutBlock_append, cutQuoted_append,
      cutVerbatim_append]

theorem Lexeme.written_ne_nil (c : Char) (rest : Text) : (nextLexeme c rest).1.written ≠ [] := by
  fun_cases nextLexeme c rest <;> simp [Lexeme.written]

theorem length_nextLexeme (c : Char) (rest : Text) :
    (nextLexeme c rest).2.length ≤ rest.length := by
  have h := congrArg List.length (nextLexeme_append c rest)
  have := List.length_pos_iff.2 (Lexeme.written_ne_nil c rest)
  simp only [List.length_append, List.length_cons] at h
  omega

def lexemes : Text → List Lexeme
  | [] => []
  | c :: rest => (nextLexeme c rest).1 :: lexemes (nextLexeme c rest).2
termination_by t => t.length
decreasing_by
  have := length_nextLexeme c rest
  simp only [List.length_cons]
  omega

/-- The source with comments and the insides of literals erased. -/
def erase (t : Text) : Text := (lexemes t).flatMap Lexeme.erased

/-- The lexemes of a text, written one after another, are the text. -/
theorem flatMap_written_lexemes (t : Text) : (lexemes t).flatMap Lexeme.written = t := by
  fun_induction lexemes t with
  | case1 => rfl
  | case2 c rest ih => rw [List.flatMap_cons, ih, nextLexeme_append]

end Source

end RazorViews
