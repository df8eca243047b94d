import Mathlib.Logic.Relation
import RazorViews.Proofs.Property.Judged
import RazorViews.Proofs.Source.Exchange

/-!
# Rewording what stands in quotes

The text of a string literal is the author's own, and no word of it asks for anything: a caption may
say `Key`, `Required` or `ForeignKey`, and neither leaves a property out nor makes it one that must
be filled in.

## What is proved

`judgedAlike_reworded`: a candidate and one whose annotations have other texts in their string
literals are left out for the same reason or kept, are classified alike and ask for the same kind of
input.  Any number of literals may be reworded, in any annotations, each of them any number of
times.

## The hypotheses

`Reworded` changes the text of one literal.  It is a literal in the place where it stands
(`HasLiteral`): the reader comes to stand in front of its opening quote, so that it is not inside a
comment or another literal, it is closed on its line, and with what follows it is no other kind of
literal.  The new text is not empty and holds no quote, no backslash and no line feed.  A text that
is empty would make two quotes in a row, which together with a third one behind them open something
else.  What else the annotation holds is not restricted: comments, other literals and keywords may
stand all around.

## The proof

The reader takes the same lexemes in front of the literal and behind it, whatever its text
(`HasLiteral.exists_lexemes`), so erasing leaves the same of the annotation (`Reworded.erase_eq`).
The rules and the words for kinds of input see no more than that.
-/

namespace RazorViews

namespace Source

/-- A body between double quotes, with text in front and behind. -/
def quotedBetween (pre body post : Text) : Text := pre ++ '"' :: (body ++ '"' :: post)

/-- Between `pre` and `post` stands the closed string literal of `body`: the reader comes to stand
in front of its opening quote, so this is not inside a comment or another literal, and what follows
is no other kind of literal. -/
structure HasLiteral (pre body post : Text) : Prop where
  reached : ∃ out, Reaches (quotedBetween pre body post) pre.length out
  fits : (Segment.quoted '"' body).Fits post

/-- The text of one closed string literal is another one, that is not empty and needs no escapes. -/
inductive Reworded : Text → Text → Prop
  | literal {pre body body' post : Text} : HasLiteral pre body post → body' ≠ [] →
      (∀ c ∈ body', c ≠ '"' ∧ c ≠ '\\' ∧ c ≠ '\n') →
      Reworded (quotedBetween pre body post) (quotedBetween pre body' post)

variable {pre body body' post : Text}

theorem quotedBody_of_plain {mark : Char} (h : ∀ c ∈ body, c ≠ mark ∧ c ≠ '\\' ∧ c ≠ '\n') :
    QuotedBody mark body := by
  induction body with
  | nil => exact .nil
  | cons c body ih =>
    obtain ⟨hmark, hback, hfeed⟩ := h c List.mem_cons_self
    exact .plain hmark hback hfeed (ih fun d hd => h d (List.mem_cons_of_mem c hd))

theorem lexemes_literal (h : (Segment.quoted '"' body).Fits post) :
    lexemes ('"' :: (body ++ '"' :: post)) = .quoted '"' (body ++ ['"']) :: lexemes post := by
  simpa [Segment.written, Segment.lexeme] using lexemes_segment h

/-- The lexemes in front of a literal and behind it do not depend on its text. -/
theorem HasLiteral.exists_lexemes (h : HasLiteral pre body post) :
    ∃ front, lexemes (quotedBetween pre body post) =
        front ++ .quoted '"' (body ++ ['"']) :: lexemes post ∧
      ∀ body', (Segment.quoted '"' body').Fits post →
        lexemes (quotedBetween pre body' post) =
          front ++ .quoted '"' (body' ++ ['"']) :: lexemes post := by
  obtain ⟨out, hreach⟩ := h.reached
  obtain ⟨front, hls, hfront, -, -⟩ := hreach.exists_front
  rw [quotedBetween, List.drop_left] at hls
  rw [quotedBetween, List.take_left] at hfront
  subst hfront
  refine ⟨front, by rw [quotedBetween, hls, lexemes_literal h.fits], ?_⟩
  intro body' hfits
  rw [quotedBetween, lexemes_exchange hls (.inl (List.cons_ne_nil _ _)) (lookAlike_quote _ _),
    lexemes_literal hfits]

theorem lexemes_segments {segments : List Segment} {after : Text} (h : AllFit after segments) :
    lexemes (segments.flatMap Segment.written ++ after) =
      segments.map Segment.lexeme ++ lexemes after := by
  induction segments with
  | nil => rfl
  | cons s segments ih =>
    rw [List.flatMap_cons, List.append_assoc, lexemes_segment h.1, ih h.2]
    rfl

/-- A literal stands behind whatever the grammar writes in front of it. -/
theorem hasLiteral_of_allFit {segments : List Segment}
    (h : AllFit ('"' :: (body ++ '"' :: post)) segments)
    (hfits : (Segment.quoted '"' body).Fits post) :
    HasLiteral (segments.flatMap Segment.written) body post := by
  have hls := lexemes_segments h
  have hwritten := flatMap_written_lexemes
    (segments.flatMap Segment.written ++ '"' :: (body ++ '"' :: post))
  rw [hls, List.flatMap_append, flatMap_written_lexemes] at hwritten
  have hreach := (reaches_of_append hls).1
  rw [List.append_cancel_right hwritten] at hreach
  exact ⟨⟨_, hreach⟩, hfits⟩

/-- Erasing leaves the same whatever a literal says. -/
theorem Reworded.erase_eq {t t' : Text} (h : Reworded t t') : erase t = erase t' := by
  obtain ⟨hliteral, hne, hplain⟩ := h
  obtain ⟨front, hls, hmore⟩ := hliteral.exists_lexemes
  have hfits := hmore _ ⟨.inl rfl, quotedBody_of_plain hplain, fun _ hnil => absurd hnil hne⟩
  rw [erase, erase, hls, hfits, List.flatMap_append, List.flatMap_append, List.flatMap_cons,
    List.flatMap_cons]
  rfl

theorem erase_eq_of_reworded {t t' : Text} (h : Relation.ReflTransGen Reworded t t') :
    erase t = erase t' := by
  induction h with
  | refl => rfl
  | tail _ hstep ih => exact ih.trans hstep.erase_eq

end Source

namespace Property

open Source Member

/-- **Quoted text never reads as a keyword.**  However the literals of its annotations are reworded,
one after another, a candidate is left out for the same reason or kept, it is classified alike and
asks for the same kind of input. -/
theorem judgedAlike_reworded (c : Candidate) {attributes : List Text}
    (h : List.Forall₂ (Relation.ReflTransGen Reworded) c.attributes attributes) :
    JudgedAlike c { c with attributes := attributes } := by
  have hrecovered : Recovered c.attributes attributes := by
    generalize c.attributes = before at h
    induction h with
    | nil => rfl
    | cons hbody _ ih =>
      rw [Recovered, List.map_cons, List.map_cons, erase_eq_of_reworded hbody, ih]
  exact judgedAlike_of_recovered ⟨rfl, rfl, rfl, hrecovered⟩

/-- A candidate whose caption comes to hold an excluding word, a keyword, and the beginning of a
comment.  What asks for something is left alone: a keyword in front, a comment and a keyword
behind. -/
theorem judgedAlike_reworded_caption :
    let pre := "Url, Display(Name = ".toList
    let post := ", Prompt = \"Key\") /* \"Key\" */, Required".toList
    let before := quotedBetween pre "Site".toList post
    let after := quotedBetween pre "NotMapped /* Key, Email".toList post
    let c : Candidate := ⟨"Site".toList, "string?".toList, ["Required".toList, before], 4⟩
    List.Forall₂ (Relation.ReflTransGen Reworded) c.attributes ["Required".toList, after] ∧
      JudgedAlike c ⟨"Site".toList, "string?".toList, ["Required".toList, after], 4⟩ := by
  intro pre post before after c
  have hliteral : HasLiteral pre "Site".toList post := by
    have hwritten : pre = (pre.map Segment.code).flatMap Segment.written := by decide
    rw [hwritten]
    exact hasLiteral_of_allFit (by decide) (by decide)
  have hreworded : Reworded before after := .literal hliteral (by decide) (by simp)
  have hall : List.Forall₂ (Relation.ReflTransGen Reworded) c.attributes
      ["Required".toList, after] := .cons .refl (.cons (.single hreworded) .nil)
  exact ⟨hall, judgedAlike_reworded c hall⟩

end Property

end RazorViews
