import RazorViews.Proofs.Source.Legible

/-!
# Erasing twice

Erased source may be erased once more: annotations are, that were cut out of it.  What is left of a
lexeme is read again as what it is, whatever was left of its neighbours: no slash, sigil or quote
comes to stand in front of something it did not stand in front of before.

## What is proved

There is one exception.  Two string literals that meet leave four quotes in a row, and a literal
between fences leaves six or more; these are read as the fence of a literal, which grows and takes
in what follows.  `erase_erase_iff` says of every text, malformed or not:

* erasing twice is erasing once if and only if no three quotes stand in a row in the erased source;
* three quotes stand there if and only if a literal between fences or two string literals that meet
  are in the source (`MeetsFence`).

The second part gives the first one a meaning for the source.  Literals that meet are no expression
of the language, so in source that compiles it is the literals between fences that matter.

## The proof

What is left of a lexeme settles in front of what is left of the rest if it is read again as it is
there and makes up no fence (`Settles`).  It does so for each kind of lexeme, unless a fence begins
there, and then one of the two kinds of literals does (`settles_next`).  That such literals leave
three quotes in a row is plain (`MeetsFence.isInfix`), and that a fence is not read as it is too,
for it grows.
-/

namespace RazorViews.Source

/-- The quotes that open a literal between fences, wherever they stand in a row. -/
def shortestFence : Text := ['"', '"', '"']

/-- Among the lexemes is a literal between fences, or a string literal directly behind another. -/
def MeetsFence (ls : List Lexeme) : Prop :=
  (∃ extra body, .fenced extra body ∈ ls) ∨
    ∃ body body', [.quoted '"' body, .quoted '"' body'] <:+: ls

variable {t u v x rest : Text} {c : Char}

/-! ## How erased source begins -/

theorem erase_cons (c : Char) (rest : Text) :
    erase (c :: rest) = (nextLexeme c rest).1.erased ++ erase (nextLexeme c rest).2 := by
  rw [erase, lexemes, List.flatMap_cons, erase]

theorem erase_nil : erase [] = [] := by
  rw [erase, lexemes, List.flatMap_nil]

/-- Behind a line comment nothing is left but the line feed that ends its line. -/
theorem erase_cutLine (t : Text) :
    erase (cutLine t).2 = [] ∨ ['\n'] <+: erase (cutLine t).2 := by
  cases hcut : (cutLine t).2 with
  | nil => exact .inl erase_nil
  | cons d behind =>
    have hstop := List.head?_dropWhile_not (· != '\n') t
    rw [show t.dropWhile (· != '\n') = d :: behind from hcut] at hstop
    obtain rfl : d = '\n' := by simpa using hstop
    exact .inr ⟨erase behind, (erase_cons '\n' behind).symm⟩

/-- What erased source begins with, white space apart, the source begins with. -/
theorem isPrefix_of_erase {d : Char} (hspace : d ≠ ' ') (hfeed : d ≠ '\n')
    (h : [d] <+: erase t) : [d] <+: t := by
  cases t with
  | nil => rwa [erase_nil] at h
  | cons c rest =>
    rw [erase_cons] at h
    fun_cases nextLexeme c rest with
    | case1 r =>
      rw [nextLexeme.eq_1, Lexeme.erased, List.nil_append] at h
      rcases erase_cutLine r with hnone | ⟨behind, hbehind⟩
      · rw [hnone] at h
        exact absurd h (by simp)
      · rw [← hbehind] at h
        exact absurd (List.cons_prefix_cons.1 h).1 hfeed
    | case2 r =>
      rw [nextLexeme.eq_2] at h
      exact absurd (List.cons_prefix_cons.1 h).1 hspace
    | case3 r => simpa [Lexeme.erased, nextLexeme, Nat.mul_add, List.replicate_succ] using h
    | _ => simp_all [Lexeme.erased, nextLexeme]

/-- A sigil in front of a quote stood there before erasing. -/
theorem isPrefix_pair_of_erase (hc : c = '$' ∨ c = '@') (h : [c, '"'] <+: erase t) :
    [c, '"'] <+: t := by
  have hfirst : [c] <+: t := by
    refine isPrefix_of_erase ?_ ?_ ((List.prefix_append [c] ['"']).trans h)
    · rcases hc with rfl | rfl <;> decide
    · rcases hc with rfl | rfl <;> decide
  obtain ⟨rest, rfl⟩ := hfirst
  rw [List.singleton_append] at h ⊢
  rw [erase_cons] at h
  fun_cases nextLexeme c rest with
  | case4 r => simp
  | case5 r => simp [nextLexeme, Lexeme.erased] at h
  | case6 r => simp [nextLexeme, Lexeme.erased] at h
  | case9 =>
    rename_i hquote hmark hline hblock hfence hat hdollar hboth
    rw [nextLexeme.eq_9 _ _ hquote hmark hline hblock hfence hat hdollar hboth] at h
    have hnext := isPrefix_of_erase (by decide) (by decide) (List.cons_prefix_cons.1 h).2
    exact List.cons_prefix_cons.2 ⟨rfl, hnext⟩
  | _ => exact absurd hc (by decide)

/-- A character of code fits in front of what is left of the text behind it. -/
theorem fits_erase (h : (Segment.code c).Fits t) : (Segment.code c).Fits (erase t) := by
  have hone : ∀ d, d ≠ ' ' → d ≠ '\n' → ¬ [d] <+: t → ¬ [d] <+: erase t :=
    fun d hspace hfeed hno hpre => hno (isPrefix_of_erase hspace hfeed hpre)
  have htwo : ∀ d, d = '$' ∨ d = '@' → ¬ [d, '"'] <+: t → ¬ [d, '"'] <+: erase t :=
    fun d hd hno hpre => hno (isPrefix_pair_of_erase hd hpre)
  obtain ⟨hquote, hmark, hslash, hat, hdollar⟩ := h
  exact ⟨hquote, hmark,
    fun hc => (hslash hc).imp (hone _ (by decide) (by decide)) (hone _ (by decide) (by decide)),
    fun hc => (hat hc).imp (hone _ (by decide) (by decide)) (htwo _ (by decide)),
    fun hc => htwo _ (by decide) (hdollar hc)⟩

/-! ## What is read again as it is -/

/-- In front of `x`, what is left somewhere is read again as it is, and makes up no fence. -/
structure Settles (u x : Text) : Prop where
  erase_append : erase (u ++ x) = u ++ erase x
  fence_iff : shortestFence <:+: u ++ x ↔ shortestFence <:+: x

theorem Settles.append (hu : Settles u (v ++ x)) (hv : Settles v x) : Settles (u ++ v) x := by
  constructor
  · rw [List.append_assoc, hu.erase_append, hv.erase_append, List.append_assoc]
  · rw [List.append_assoc, hu.fence_iff, hv.fence_iff]

theorem fence_cons_iff (hc : c ≠ '"') : shortestFence <:+: c :: x ↔ shortestFence <:+: x := by
  rw [List.infix_cons_iff]
  refine or_iff_right ?_
  intro hpre
  exact hc (List.cons_prefix_cons.1 hpre).1.symm

theorem fence_pair_iff (hx : ¬ ['"'] <+: x) :
    shortestFence <:+: '"' :: '"' :: x ↔ shortestFence <:+: x := by
  have hone : ¬ shortestFence <+: '"' :: x := by
    intro hpre
    exact hx ((List.prefix_append ['"'] ['"']).trans (List.cons_prefix_cons.1 hpre).2)
  have htwo : ¬ shortestFence <+: '"' :: '"' :: x := by
    intro hpre
    exact hx (List.cons_prefix_cons.1 (List.cons_prefix_cons.1 hpre).2).2
  rw [List.infix_cons_iff, or_iff_right htwo, List.infix_cons_iff, or_iff_right hone]

theorem settles_of_fits {s : Segment} (hfits : s.Fits x) (hleft : s.left = s.written)
    (hfence : shortestFence <:+: s.written ++ x ↔ shortestFence <:+: x) :
    Settles s.written x := by
  have hread := @erase_segments [s] x ⟨by simpa using hfits, trivial⟩
  refine ⟨?_, hfence⟩
  simpa [hleft] using hread

theorem settles_code (hfits : (Segment.code c).Fits x) : Settles [c] x :=
  settles_of_fits hfits rfl (fence_cons_iff hfits.1)

/-- White space fits in front of anything. -/
theorem settles_blank (hc : c = ' ' ∨ c = '\n') : Settles [c] x := by
  apply settles_code
  rcases hc with rfl | rfl
  · simp [Segment.Fits]
  · simp [Segment.Fits]

theorem settles_feeds (body x : Text) : Settles (Text.onlyLineFeeds body) x := by
  rw [onlyLineFeeds_eq, Segment.feeds]
  generalize Text.lineFeeds body = n
  induction n with
  | zero => exact ⟨rfl, Iff.rfl⟩
  | succ n ih =>
    rw [List.replicate_succ]
    exact (settles_blank (.inr rfl)).append ih

theorem settles_quoted {mark : Char} (hmark : mark = '"' ∨ mark = '\'')
    (hx : mark = '"' → ¬ ['"'] <+: x) : Settles [mark, mark] x := by
  refine settles_of_fits (s := .quoted mark []) ⟨hmark, .nil, fun h _ => hx h⟩ rfl ?_
  rcases hmark with rfl | rfl
  · exact fence_pair_iff (hx rfl)
  · exact (fence_cons_iff (by decide)).trans (fence_cons_iff (by decide))

theorem settles_verbatim {sigil : Text} (hsigil : sigil ∈ sigils) (hx : ¬ ['"'] <+: x) :
    Settles (sigil ++ ['"', '"']) x := by
  have hfence : shortestFence <:+: sigil ++ ['"', '"'] ++ x ↔ shortestFence <:+: x := by
    simp only [sigils, List.mem_cons, List.not_mem_nil, or_false] at hsigil
    rcases hsigil with rfl | rfl | rfl
    · exact (fence_cons_iff (by decide)).trans (fence_pair_iff hx)
    · exact (fence_cons_iff (by decide)).trans ((fence_cons_iff (by decide)).trans
        (fence_pair_iff hx))
    · exact (fence_cons_iff (by decide)).trans ((fence_cons_iff (by decide)).trans
        (fence_pair_iff hx))
  have hwritten : (Segment.verbatim sigil []).written = sigil ++ ['"', '"'] := by
    simp [Segment.written]
  have hsettles := settles_of_fits (s := .verbatim sigil []) ⟨hsigil, .nil, hx⟩
    (by simp [Segment.written, Segment.left, Segment.feeds, Text.lineFeeds]) (by rwa [hwritten])
  rwa [hwritten] at hsettles

/-! ## What is not -/

/-- Where a text begins with a fence, the fence grows. -/
theorem erase_ne_of_fence (h : shortestFence <+: t) : erase t ≠ t := by
  obtain ⟨r, rfl⟩ := h
  intro hsame
  have hread : erase (shortestFence ++ r) = (nextLexeme '"' ('"' :: '"' :: r)).1.erased ++
      erase (nextLexeme '"' ('"' :: '"' :: r)).2 := erase_cons '"' ('"' :: '"' :: r)
  rw [nextLexeme.eq_3, hsame] at hread
  -- as many quotes as stand behind the first three are written twice
  generalize hextra : (r.takeWhile (· == '"')).length = extra at hread
  obtain ⟨y, hy⟩ : ∃ y, shortestFence ++ r = List.replicate (2 * (extra + 3)) '"' ++ y := by
    simp only [Lexeme.erased, List.append_assoc] at hread
    exact ⟨_, hread⟩
  have hquotes : r = List.replicate (2 * extra + 3) '"' ++ y := by
    rw [show 2 * (extra + 3) = 3 + (2 * extra + 3) by omega, List.replicate_add,
      List.append_assoc] at hy
    exact List.append_cancel_left hy
  have hall : ∀ c ∈ List.replicate (2 * extra + 3) '"', (c == '"') = true := by
    intro c hc
    exact beq_iff_eq.2 (List.eq_of_mem_replicate hc)
  rw [hquotes, List.takeWhile_append_of_pos hall, List.length_append,
    List.length_replicate] at hextra
  omega

/-- What is left of a verbatim literal and the text behind it. -/
theorem settles_next_verbatim {sigil : Text} (hsigil : sigil ∈ sigils) (t : Text) :
    Settles (Lexeme.verbatim sigil (cutVerbatim t).1).erased (erase (cutVerbatim t).2) := by
  have hnone : ¬ ['"'] <+: Text.onlyLineFeeds (cutVerbatim t).1 ++ erase (cutVerbatim t).2 := by
    intro hpre
    cases hfeeds : Text.onlyLineFeeds (cutVerbatim t).1 with
    | nil =>
      rw [hfeeds, List.nil_append] at hpre
      exact not_isPrefix_cutVerbatim t (isPrefix_of_erase (by decide) (by decide) hpre)
    | cons c feeds =>
      have hc : c = '\n' := by
        have hmem : c ∈ Text.onlyLineFeeds (cutVerbatim t).1 := hfeeds ▸ List.mem_cons_self
        exact beq_iff_eq.1 (List.mem_filter.1 hmem).2
      rw [hfeeds, hc] at hpre
      exact absurd (List.cons_prefix_cons.1 hpre).1 (by decide)
  have hboth := (settles_verbatim hsigil hnone).append (settles_feeds _ _)
  rwa [List.append_assoc] at hboth

theorem fence_isPrefix_fenced (extra : Nat) (body more : Text) :
    shortestFence <+: (Lexeme.fenced extra body).erased ++ more := by
  have hgrown : 2 * (extra + 3) = 3 + (2 * extra + 3) := by omega
  rw [Lexeme.erased, hgrown, List.replicate_add, List.append_assoc, List.append_assoc]
  exact List.prefix_append shortestFence _

/-- A string literal, or one between fences, begins where a quote is left. -/
theorem meetsFence_quoted {body : Text} (h : ['"'] <+: erase t) :
    MeetsFence (.quoted '"' body :: lexemes t) := by
  have hstring := isString_of_isPrefix (isPrefix_of_erase (by decide) (by decide) h)
  cases hls : lexemes t with
  | nil => simp [hls] at hstring
  | cons l more =>
    rw [hls, List.head?_cons, Option.any_some] at hstring
    cases l with
    | quoted mark body' =>
      obtain rfl : mark = '"' := beq_iff_eq.1 hstring
      exact .inr ⟨body, body', [], more, rfl⟩
    | fenced extra body' => exact .inl ⟨extra, body', by simp⟩
    | _ => exact absurd hstring Bool.false_ne_true

/-- What is left of the first lexeme is read again as it is, unless a fence begins there. -/
theorem settles_next (c : Char) (rest : Text) :
    Settles (nextLexeme c rest).1.erased (erase (nextLexeme c rest).2) ∨
      shortestFence <+: erase (c :: rest) ∧ MeetsFence (lexemes (c :: rest)) := by
  rw [erase_cons, lexemes]
  fun_cases nextLexeme c rest with
  | case1 r => exact .inl ⟨rfl, Iff.rfl⟩
  | case2 r => exact .inl ((settles_blank (.inl rfl)).append (settles_feeds _ _))
  | case3 r extra cut =>
    exact .inr ⟨fence_isPrefix_fenced extra cut.1 _, .inl ⟨extra, cut.1, List.mem_cons_self⟩⟩
  | case4 r => exact .inl (settles_next_verbatim (by decide) r)
  | case5 r => exact .inl (settles_next_verbatim (by decide) r)
  | case6 r => exact .inl (settles_next_verbatim (by decide) r)
  | case7 =>
    by_cases hmeets : ['"'] <+: erase (cutQuoted '"' rest).2
    · refine .inr ⟨?_, meetsFence_quoted hmeets⟩
      exact (List.prefix_append_right_inj ['"', '"']).2 hmeets
    · exact .inl (settles_quoted (.inl rfl) fun _ => hmeets)
  | case8 => exact .inl (settles_quoted (.inr rfl) fun hmark => absurd hmark (by decide))
  | case9 =>
    rename_i hquote hmark hline hblock hfence hat hdollar hboth
    have hnext := nextLexeme.eq_9 c rest hquote hmark hline hblock hfence hat hdollar hboth
    have hsegment : (nextLexeme c rest).1.segment? = some (.code c) := by
      rw [hnext]
      rfl
    obtain ⟨-, hfits, -⟩ := segment_of_next hsegment
    rw [hnext] at hfits
    exact .inl (settles_code (fits_erase hfits))

/-! ## Fences -/

theorem MeetsFence.cons {ls : List Lexeme} (h : MeetsFence ls) (l : Lexeme) :
    MeetsFence (l :: ls) := by
  rcases h with ⟨extra, body, hmem⟩ | ⟨body, body', hin⟩
  · exact .inl ⟨extra, body, List.mem_cons_of_mem l hmem⟩
  · exact .inr ⟨body, body', hin.trans (List.suffix_cons l ls).isInfix⟩

/-- Literals of these kinds leave at least three quotes in a row. -/
theorem MeetsFence.isInfix (h : MeetsFence (lexemes t)) : shortestFence <:+: erase t := by
  obtain ⟨piece, hleft, front, back, hls⟩ : ∃ piece : List Lexeme,
      shortestFence <:+: piece.flatMap Lexeme.erased ∧ piece <:+: lexemes t := by
    rcases h with ⟨extra, body, hmem⟩ | ⟨body, body', hin⟩
    · obtain ⟨front, back, hls⟩ := List.append_of_mem hmem
      refine ⟨[.fenced extra body], (fence_isPrefix_fenced extra body []).isInfix, front, back, ?_⟩
      rw [hls, List.append_assoc, List.singleton_append]
    · exact ⟨_, ⟨[], ['"'], rfl⟩, hin⟩
  rw [erase, ← hls, List.flatMap_append, List.flatMap_append]
  exact hleft.trans (List.infix_append _ _ _)

/-- **Erasing twice.**  Erasing erased source changes it just if three quotes stand in a row there,
which is to say that a literal between fences or two string literals that meet are in the source. -/
theorem erase_erase_iff (t : Text) :
    (erase (erase t) = erase t ↔ ¬ shortestFence <:+: erase t) ∧
      (shortestFence <:+: erase t ↔ MeetsFence (lexemes t)) := by
  refine ⟨?_, ?_, MeetsFence.isInfix⟩
  · induction t using lexemes.induct with
    | case1 => simp [erase_nil, shortestFence]
    | case2 c rest ih =>
      rcases settles_next c rest with hsettles | ⟨hfence, -⟩
      · rw [erase_cons, hsettles.erase_append, hsettles.fence_iff, List.append_cancel_left_eq, ih]
      · exact iff_of_false (erase_ne_of_fence hfence) (not_not_intro hfence.isInfix)
  · induction t using lexemes.induct with
    | case1 => simp [erase_nil, shortestFence]
    | case2 c rest ih =>
      intro hfence
      rcases settles_next c rest with hsettles | ⟨-, hmeets⟩
      · rw [erase_cons, hsettles.fence_iff] at hfence
        rw [lexemes]
        exact (ih hfence).cons _
      · exact hmeets

end RazorViews.Source
