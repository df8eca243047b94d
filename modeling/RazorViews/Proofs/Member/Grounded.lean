import RazorViews.Proofs.Member.Readings
import RazorViews.Proofs.Source.Origins

/-!
# Candidates stand in the source

A candidate is recognized in erased source, and its name is a word there.  What is left of a comment
or a literal are marks, spaces and line feeds, none of which is a word character, and no two
characters of code become neighbours on a line.  So the word is one of the source itself.

## What is proved

`grounded_recognize` says for every source, malformed or not, and for every region, be it that of a
located class, another one or none:

* each candidate has a line of its own, further down than that of the one before, so no line gives
  two of them;
* no candidate stands outside the region;
* a name begins with a letter or an underscore and goes on with word characters;
* the name stands on the line of its candidate in the *source*, as characters of code that follow
  one another, outside every comment and literal (`StandsOn`).

## What it is not

That a candidate is a property of the class is more than is claimed here: the lines of a class whose
closing brace was overlooked go on behind it, as `foundBehind_recognize` says.  Of the type of a
candidate, which may be written with gaps, nothing is said.
-/

namespace RazorViews.Member

open Pattern Canonical Source

/-! ## Words -/

/-- No character of a word is left of a comment or a literal. -/
theorem not_isLeft_of_isWord {c : Char} (h : Text.isWord c = true) : isLeft c = false := by
  have hnone : [' ', '"', '\'', '@', '$', '\n'].all (fun d => !Text.isWord d) = true := by decide
  rw [isLeft, List.contains_eq_mem, decide_eq_false_iff_not]
  intro hmem
  have hc := List.all_eq_true.1 hnone c hmem
  rw [h] at hc
  exact Bool.false_ne_true hc

/-- The word stands in the source as code, on the line with this number. -/
def StandsOn (source word : Text) (line : Nat) : Prop :=
  ∃ front back, lexemes source = front ++ (word.map Lexeme.code ++ back) ∧
    Text.lineFeeds (front.flatMap Lexeme.written) = line ∧
    (Text.lines source)[line]? =
      some (Text.afterLast '\n' (front.flatMap Lexeme.written) ++ word ++
        (back.flatMap Lexeme.written).takeWhile (· != '\n'))

/-- A word on a line of erased source is one of the source, on the same line. -/
theorem standsOn_of_erased {source word line : Text} {k : Nat}
    (hline : (Text.lines (erase source))[k]? = some line) (hword : identifier.Takes word)
    (hin : word <:+: line) : StandsOn source word k := by
  obtain ⟨hne, hall⟩ := takes_identifier hword
  obtain ⟨c, w, rfl⟩ := List.exists_cons_of_ne_nil hne
  have hleft : ∀ d ∈ c :: w, isLeft d = false := fun d hd => not_isLeft_of_isWord (hall d hd)
  have hfeed : '\n' ∉ c :: w := by
    intro hmem
    exact absurd (hleft '\n' hmem) (by decide)
  -- where the word stands in the erased source
  obtain ⟨u, v, herase, hu, hline⟩ := Text.exists_of_getElem?_lines hline
  obtain ⟨before, after, rfl⟩ := hin
  have hbefore : '\n' ∉ before := fun hmem => hline (by simp [hmem])
  have hsplit : (lexemes source).flatMap Lexeme.erased =
      (u ++ before) ++ (c :: w ++ (after ++ v)) := by
    rw [← erase, herase]
    simp only [List.append_assoc]
  -- the lexemes there are the characters of the word
  have hread : lexemes source = [] ++ lexemes source := rfl
  obtain ⟨front, back, hls, hfront⟩ := exists_word hread hsplit hleft
  have hfeeds : Text.lineFeeds (front.flatMap Lexeme.written) = k := by
    rw [← lineFeeds_front hls, hfront, ← hu, Text.lineFeeds, Text.lineFeeds, List.count_append,
      List.count_eq_zero.2 hbefore, Nat.add_zero]
  refine ⟨front, back, hls, hfeeds, ?_⟩
  have hsource := Text.getElem?_lines hfeed (front.flatMap Lexeme.written)
    (back.flatMap Lexeme.written)
  rwa [← (append_of_lexemes hls).1, hfeeds] at hsource

/-! ## Candidates -/

/-- Candidates that were found in the source, in the lines of the region if there is one. -/
structure Grounded (source : Text) (region : Option ClassRegion) (candidates : List Candidate) :
    Prop where
  /-- Each candidate stands on a line of its own, further down than the one before. -/
  increasing : candidates.Pairwise fun c d => c.line < d.line
  /-- No candidate stands outside the region. -/
  inside : ∀ c ∈ candidates, ∀ r ∈ region, r.firstLine ≤ c.line ∧ c.line ≤ r.lastLine
  /-- A name begins with an ASCII letter or underscore and goes on with word characters. -/
  named : ∀ c ∈ candidates, ∃ first more, c.name = first :: more ∧
    (first.isAlpha = true ∨ first = '_') ∧ ∀ d ∈ more, Text.isWord d = true
  /-- Each name stands in the source on the line of its candidate, outside comments and literals. -/
  stands : ∀ c ∈ candidates, StandsOn source c.name c.line

/-- **Candidates stand in the source.**  It does not matter what the source is, or whether the scan
is given the region of a class that was located in the erased source, some other one or none. -/
theorem grounded_recognize (source : Text) (region : Option ClassRegion) :
    Grounded source region (recognize (erase source) (some source) region) where
  increasing := pairwise_recognize _ _ _
  inside := fun _ hc => (mem_recognize hc).2
  named := by
    intro c hc
    obtain ⟨⟨_, -, t, -, hread⟩, -⟩ := mem_recognize hc
    obtain ⟨_, _, _, _, -, -, ⟨_, more, ⟨first, hfirst, rfl⟩, hmore, hname⟩, -⟩ :=
      readSignature?_eq_some hread
    refine ⟨first, more, hname, ?_, hmore⟩
    rwa [Text.isIdentifierStart, Bool.or_eq_true, beq_iff_eq] at hfirst
  stands := by
    intro c hc
    obtain ⟨⟨line, hline, t, hin, hread⟩, -⟩ := mem_recognize hc
    obtain ⟨front, type, gap, behind, ht, -, hname, -⟩ := readSignature?_eq_some hread
    have hstretch : c.name <:+: t := ⟨front ++ type ++ gap, behind, ht.symm⟩
    exact standsOn_of_erased hline hname (hstretch.trans hin)

end RazorViews.Member
