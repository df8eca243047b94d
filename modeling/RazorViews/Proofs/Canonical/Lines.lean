import RazorViews.Proofs.Canonical.Annotations
import RazorViews.Proofs.Canonical.Signature
import RazorViews.Proofs.Source.Grammar
import RazorViews.Proofs.Text.Lines

/-!
# Erasing a class in canonical form

Each line of a class body is made of segments of the lexical grammar: characters of code, literals
and comments.  Which segments fit in front of a text depends on that text, but a line of a class
body is made so that its segments fit in front of any (`allFit`): what stands last on it looks no
further than the line feed behind it.  So a body is erased line by line (`erase_unlines`), and what
is left of each line is said by `erased`: of a comment nothing, of an annotation its body with the
literals emptied, of a property all of it.

For the balance of braces it matters that a line without a property holds no brace behind erasing
(`isSilent`); the braces in comments and literals are gone by then.
-/

namespace RazorViews.Canonical

open Source

/-! ## Segments that fit anywhere -/

/-- A character that begins nothing but itself. -/
def isCode (c : Char) : Bool := !(['"', '\'', '/', '@', '$'].contains c)

/-- A character that is neither a brace nor a line feed. -/
def isSilent (c : Char) : Bool := !(['{', '}', '\n'].contains c)

/-- What passes a test is not among the characters that fail it. -/
theorem notContains_of {p : Char → Bool} {cs : Text}
    (hcs : (cs.all fun d => p d == false) = true) {c : Char} (h : p c = true) :
    (!cs.contains c) = true := by
  rw [Bool.not_eq_true', Bool.eq_false_iff]
  intro hmem
  rw [forall_mem_of_all hcs c (List.contains_iff_mem.1 hmem)] at h
  exact absurd h (by simp)

theorem isCode_of {p : Char → Bool}
    (htest : (['"', '\'', '/', '@', '$'].all fun d => p d == false) = true) {c : Char}
    (h : p c = true) : isCode c = true := notContains_of htest h

theorem isSilent_of {p : Char → Bool}
    (htest : (['{', '}', '\n'].all fun d => p d == false) = true) {c : Char}
    (h : p c = true) : isSilent c = true := notContains_of htest h

theorem ne_of_isSilent {c : Char} (h : isSilent c = true) : c ≠ '{' ∧ c ≠ '}' ∧ c ≠ '\n' := by
  refine ⟨?_, ?_, ?_⟩ <;> rintro rfl <;> exact absurd h (by decide)

theorem fits_code {c : Char} (h : isCode c = true) (after : Text) :
    (Segment.code c).Fits after := by
  have hne : ∀ d, isCode d = false → c ≠ d := by
    rintro d hd rfl
    rw [h] at hd
    exact absurd hd (by simp)
  exact ⟨hne _ (by decide), hne _ (by decide), fun hc => absurd hc (hne _ (by decide)),
    fun hc => absurd hc (hne _ (by decide)), fun hc => absurd hc (hne _ (by decide))⟩

theorem allFit_append {after : Text} {front back : List Segment}
    (hfront : AllFit (back.flatMap Segment.written ++ after) front) (hback : AllFit after back) :
    AllFit after (front ++ back) := by
  induction front with
  | nil => exact hback
  | cons s front ih =>
    refine ⟨?_, ih hfront.2⟩
    show Segment.Fits ((front ++ back).flatMap Segment.written ++ after) s
    rw [List.flatMap_append, List.append_assoc]
    exact hfront.1

theorem allFit_code {t : Text} (h : ∀ c ∈ t, isCode c = true) (after : Text) :
    AllFit after (t.map Segment.code) := by
  induction t with
  | nil => trivial
  | cons c t ih =>
    exact ⟨fits_code (h c List.mem_cons_self) _, ih fun d hd => h d (List.mem_cons_of_mem c hd)⟩

theorem flatMap_code_written (t : Text) : (t.map Segment.code).flatMap Segment.written = t := by
  induction t with
  | nil => rfl
  | cons c t ih =>
    rw [List.map_cons, List.flatMap_cons, ih]
    rfl

theorem flatMap_code_left (t : Text) : (t.map Segment.code).flatMap Segment.left = t := by
  induction t with
  | nil => rfl
  | cons c t ih =>
    rw [List.map_cons, List.flatMap_cons, ih]
    rfl

/-! ## Pieces -/

namespace Piece

def segment : Piece → Segment
  | plain c => .code c
  | literal inside => .quoted '"' inside

theorem written_segment (p : Piece) : p.segment.written = p.written := by
  cases p <;> rfl

theorem left_segment (p : Piece) : p.segment.left = p.emptied.written := by
  cases p <;> rfl

theorem quotedBody_of_fits {inside : Text} (h : (literal inside).Fits) : QuotedBody '"' inside := by
  obtain ⟨hquote, hback, hfeed⟩ := h
  induction inside with
  | nil => exact .nil
  | cons c inside ih =>
    rw [List.mem_cons, not_or] at hquote hback hfeed
    exact .plain (Ne.symm hquote.1) (Ne.symm hback.1) (Ne.symm hfeed.1)
      (ih hquote.2 hback.2 hfeed.2)

/-- Pieces are segments that fit in front of anything but a quote. -/
theorem allFit {pieces : List Piece} (h : ∀ p ∈ pieces, p.Fits) (hapart : Apart pieces)
    {after : Text} (hafter : ¬ ['"'] <+: after) : AllFit after (pieces.map segment) := by
  induction pieces with
  | nil => trivial
  | cons p pieces ih =>
    refine ⟨?_, ih (fun q hq => h q (List.mem_cons_of_mem p hq)) hapart.2⟩
    have hp := h p List.mem_cons_self
    cases p with
    | plain c => exact fits_code (isCode_of (by decide) hp) _
    | literal inside =>
      refine ⟨.inl rfl, quotedBody_of_fits hp, fun _ _ => ?_⟩
      cases pieces with
      | nil => exact hafter
      | cons q pieces =>
        have hq := hapart.1 rfl
        cases q with
        | literal => exact absurd hq (by simp [isLiteral])
        | plain c =>
          have hc : c ≠ '"' :=
            ne_of_isPlain (h (.plain c) (by simp)) (by decide)
          rintro ⟨r, hr⟩
          exact hc (List.cons.inj hr).1.symm

theorem Fits.feed_notMem {p : Piece} (h : p.Fits) : '\n' ∉ p.written := by
  intro hmem
  cases p with
  | plain c => exact ne_of_isPlain h (by decide) (List.mem_singleton.1 hmem).symm
  | literal inside =>
    rcases List.mem_append.1 hmem with hmem | hmem
    · rcases List.mem_cons.1 hmem with heq | hmem
      · exact absurd heq (by decide)
      · exact h.2.2 hmem
    · exact absurd hmem (by decide)

theorem flatMap_segment_written (pieces : List Piece) :
    (pieces.map segment).flatMap Segment.written = join pieces := by
  rw [List.flatMap_map, join]
  exact congrArg (List.flatMap · pieces) (funext written_segment)

theorem flatMap_segment_left (pieces : List Piece) :
    (pieces.map segment).flatMap Segment.left = join (pieces.map emptied) := by
  rw [List.flatMap_map, join, List.flatMap_map]
  exact congrArg (List.flatMap · pieces) (funext left_segment)

end Piece

/-! ## Lines -/

namespace BodyLine

/-- What erasing leaves of a line. -/
def erased : BodyLine → Text
  | filler f => f.indent
  | bracketed a => '[' :: Piece.join (a.pieces.map Piece.emptied) ++ [']']
  | property type name => (property type name).written

/-- The segments of a line. -/
def segments : BodyLine → List Segment
  | filler f => f.indent.map .code ++ (f.comment.map Segment.lineComment).toList
  | bracketed a => .code '[' :: a.pieces.map Piece.segment ++ [.code ']']
  | property type name => (property type name).written.map .code

theorem written_segments (l : BodyLine) : l.segments.flatMap Segment.written = l.written := by
  cases l with
  | filler f =>
    rw [segments, List.flatMap_append, flatMap_code_written, written]
    cases f.comment with
    | none => rfl
    | some t => simp [Segment.written]
  | bracketed a =>
    rw [segments, List.flatMap_append, List.flatMap_cons, Piece.flatMap_segment_written]
    rfl
  | property type name => exact flatMap_code_written _

theorem left_segments (l : BodyLine) : l.segments.flatMap Segment.left = l.erased := by
  cases l with
  | filler f =>
    rw [segments, List.flatMap_append, flatMap_code_left, erased]
    cases f.comment with
    | none => exact List.append_nil _
    | some t => simp [Segment.left]
  | bracketed a =>
    rw [segments, List.flatMap_append, List.flatMap_cons, Piece.flatMap_segment_left]
    rfl
  | property type name => exact flatMap_code_left _

theorem isCode_property (type : TypeText) (name : Identifier) :
    ∀ c ∈ (property type name).written, isCode c = true := by
  rw [property_written]
  refine List.forall_mem_append.2 ⟨?_, forall_mem_of_all (by decide)⟩
  exact fun c hc => isCode_of (by decide) (propertyFront_typeChars type name c hc)

theorem isSilent_filler (f : Filler) : ∀ c ∈ f.indent, isSilent c = true := by
  intro c hc
  obtain ⟨hblank, hfeed⟩ := f.isBlank c hc
  have htest : (['{', '}', '\n'].all fun d => (Text.isBlank d && d != '\n') == false) = true := by
    decide
  refine isSilent_of (p := fun d => Text.isBlank d && d != '\n') htest ?_
  rw [hblank, bne_iff_ne.2 hfeed]
  rfl

theorem isSilent_bracketed (a : AnnotationText) :
    ∀ c ∈ (bracketed a).erased, isSilent c = true := by
  have hpieces : ∀ c ∈ Piece.join (a.pieces.map Piece.emptied), isSilent c = true := by
    intro c hc
    obtain ⟨q, hq, hc⟩ := List.mem_flatMap.1 hc
    obtain ⟨p, hp, rfl⟩ := List.mem_map.1 hq
    cases p with
    | plain d =>
      obtain rfl := List.mem_singleton.1 hc
      exact isSilent_of (by decide) (a.fits _ hp)
    | literal inside =>
      have hall : ∀ c ∈ ['"', '"'], isSilent c = true := forall_mem_of_all (by decide)
      exact hall c hc
  exact List.forall_mem_append.2 ⟨List.forall_mem_cons.2 ⟨by decide, hpieces⟩,
    forall_mem_of_all (by decide)⟩

theorem isSilent_propertyFront (type : TypeText) (name : Identifier) :
    ∀ c ∈ propertyFront type name, isSilent c = true := fun c hc =>
  isSilent_of (by decide) (propertyFront_typeChars type name c hc)

/-- What erasing leaves of a line is on one line. -/
theorem feed_notMem_erased (l : BodyLine) : '\n' ∉ l.erased := by
  intro hmem
  cases l with
  | filler f => exact absurd (isSilent_filler f _ hmem) (by decide)
  | bracketed a => exact absurd (isSilent_bracketed a _ hmem) (by decide)
  | property type name =>
    rw [erased, property_written] at hmem
    rcases List.mem_append.1 hmem with hmem | hmem
    · exact absurd (isSilent_propertyFront type name _ hmem) (by decide)
    · exact absurd hmem (by decide)

theorem feed_notMem_written (l : BodyLine) : '\n' ∉ l.written := by
  intro hmem
  cases l with
  | filler f =>
    rcases List.mem_append.1 hmem with hmem | hmem
    · exact (f.isBlank _ hmem).2 rfl
    · cases hcomment : f.comment with
      | none =>
        rw [hcomment] at hmem
        exact absurd hmem List.not_mem_nil
      | some t =>
        rw [hcomment] at hmem
        rcases List.mem_append.1 hmem with hmem | hmem
        · exact absurd hmem (by decide)
        · exact f.isLine t hcomment hmem
  | bracketed a =>
    have hbody : '\n' ∉ a.body := by
      intro hmem
      obtain ⟨p, hp, hmem⟩ := List.mem_flatMap.1 hmem
      exact (a.fits p hp).feed_notMem hmem
    rcases List.mem_append.1 hmem with hmem | hmem
    · rcases List.mem_cons.1 hmem with heq | hmem
      · exact absurd heq (by decide)
      · exact hbody hmem
    · exact absurd hmem (by decide)
  | property type name => exact feed_notMem_erased (property type name) hmem

/-- A line fits in front of its line feed. -/
theorem allFit (l : BodyLine) (more : Text) : AllFit ('\n' :: more) l.segments := by
  cases l with
  | filler f =>
    have hindent : ∀ c ∈ f.indent, isCode c = true := fun c hc =>
      isCode_of (by decide) (f.isBlank c hc).1
    refine allFit_append (allFit_code hindent _) ?_
    cases hcomment : f.comment with
    | none => trivial
    | some t => exact ⟨⟨f.isLine t hcomment, .inr ⟨more, rfl⟩⟩, trivial⟩
  | bracketed a =>
    refine allFit_append ⟨fits_code (by decide) _, ?_⟩ ⟨fits_code (by decide) _, trivial⟩
    have hbracket : ¬ ['"'] <+: ']' :: '\n' :: more := by
      rintro ⟨r, hr⟩
      exact absurd (List.cons.inj hr).1 (by decide)
    exact Piece.allFit a.fits a.apart hbracket
  | property type name => exact allFit_code (isCode_property type name) _

end BodyLine

/-- A class body is erased line by line. -/
theorem erase_unlines (ls : List BodyLine) (more : Text) :
    erase (unlines (ls.map BodyLine.written) ++ more) =
      unlines (ls.map BodyLine.erased) ++ erase more := by
  induction ls with
  | nil => rfl
  | cons l ls ih =>
    have hfit : AllFit (unlines (ls.map BodyLine.written) ++ more) (l.segments ++ [.code '\n']) :=
      allFit_append (l.allFit _) ⟨fits_code (by decide) _, trivial⟩
    have herase := erase_segments hfit
    rw [List.flatMap_append, List.flatMap_append, l.written_segments, l.left_segments, ih] at herase
    simpa [unlines, Segment.written, Segment.left] using herase

end RazorViews.Canonical
