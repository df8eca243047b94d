import RazorViews.Proofs.Source.Grammar
import RazorViews.Proofs.Text.Lines

/-!
# Reading source that is cut between two lines

Source can be read in two pieces if the first one ends a line and leaves neither a comment nor a
literal open (`IsClosed`): no lexeme then reaches over the cut, and none at the end of the first
piece depends on what follows (`lexemes_append`).  So such source is erased piece by piece
(`erase_append`).

A line feed is needed at the cut.  Elsewhere a slash at the end of the first piece may begin a
comment with what follows, or a quote go on into a longer fence; and a comment that goes to the end
of its line is open until the line ends.

Erasing also keeps every line feed where it was, so the lines of erased source are the lines of the
source, as many and in order: `lineFeeds_erase`, for every source whether it is closed or not.
-/

namespace RazorViews

/-- The lexeme has an end of its own: it does not merely stop with the text. -/
def Lexeme.IsClosed : Lexeme → Prop
  | code _ => True
  | lineComment _ => False
  | blockComment body => ['*', '/'] <:+ body
  | quoted mark body => ∃ inner, Source.QuotedBody mark inner ∧ body = inner ++ [mark]
  | verbatim _ body => ∃ inner, Source.VerbatimBody inner ∧ body = inner ++ ['"']
  | fenced extra body => List.replicate (extra + 3) '"' <:+ body

namespace Source

/-- At the end of the text no comment and no literal is open. -/
def IsClosed (t : Text) : Prop := ∀ l, (lexemes t).getLast? = some l → l.IsClosed

theorem isClosed_of_getLast? {t : Text} {c : Char} (h : (lexemes t).getLast? = some (.code c)) :
    IsClosed t := by
  intro l hl
  obtain rfl := Option.some.inj (h.symm.trans hl)
  trivial

/-! ## More text behind a cut changes nothing in front of it -/

variable {t more : Text}

theorem cutLine_append_more (h : (cutLine t).2 ≠ []) :
    cutLine (t ++ more) = ((cutLine t).1, (cutLine t).2 ++ more) := by
  induction t with
  | nil => exact absurd rfl h
  | cons c t ih =>
    by_cases hc : c = '\n'
    · simp [cutLine, hc]
    · have hne : (cutLine t).2 ≠ [] := by simpa [cutLine, hc] using h
      simpa [cutLine, hc] using ih hne

theorem cutBlock_append_more (h : (cutBlock t).2 ≠ []) :
    cutBlock (t ++ more) = ((cutBlock t).1, (cutBlock t).2 ++ more) := by
  fun_induction cutBlock t with
  | case1 => exact absurd rfl h
  | case2 rest => rfl
  | case3 c rest hstar ih =>
    have hhead : ∀ r, c = '*' → rest ++ more = '/' :: r → False := by
      intro r hc heq
      cases rest with
      | nil => exact h rfl
      | cons d rest => exact hstar rest hc (by rw [(List.cons.inj heq).1])
    rw [List.cons_append, cutBlock.eq_3 _ _ hhead, ih h]

/-- A character that neither ends a text as a backslash nor hides another one is no backslash. -/
theorem ne_backslash {c : Char} {rest : Text} (hlone : c = '\\' → rest = [] → False)
    (hpair : ∀ d r, c = '\\' → rest = d :: r → False) : c ≠ '\\' := by
  intro hc
  cases rest with
  | nil => exact hlone hc rfl
  | cons d r => exact hpair d r hc rfl

theorem cutQuoted_append_more {mark : Char} (h : (cutQuoted mark t).2 ≠ []) :
    cutQuoted mark (t ++ more) = ((cutQuoted mark t).1, (cutQuoted mark t).2 ++ more) := by
  fun_induction cutQuoted mark t with
  | case1 => exact absurd rfl h
  | case2 => exact absurd rfl h
  | case3 rest => rfl
  | case4 c rest hfeed ih => simp [cutQuoted, ih h]
  | case5 c rest hlone _ hpair hmark =>
    have hback := ne_backslash hlone hpair
    obtain rfl := beq_iff_eq.1 hmark
    simp [cutQuoted, hback]
  | case6 c rest hlone _ hpair hmark hfeed =>
    obtain rfl := beq_iff_eq.1 hfeed
    have hne : '\n' ≠ mark := fun he => hmark (beq_iff_eq.2 he)
    simp [cutQuoted, hne]
  | case7 c rest hlone _ hpair hmark hfeed ih =>
    have hback := ne_backslash hlone hpair
    have hne : c ≠ mark := fun he => hmark (beq_iff_eq.2 he)
    have hc : c ≠ '\n' := fun he => hfeed (beq_iff_eq.2 he)
    simp [cutQuoted, hback, hne, hc, ih h]

theorem cutVerbatim_append_more (h : (cutVerbatim t).2 ≠ []) :
    cutVerbatim (t ++ more) = ((cutVerbatim t).1, (cutVerbatim t).2 ++ more) := by
  fun_induction cutVerbatim t with
  | case1 => exact absurd rfl h
  | case2 rest ih => simp [cutVerbatim, ih h]
  | case3 rest hlone =>
    cases rest with
    | nil => exact absurd rfl h
    | cons d rest =>
      have hd : d ≠ '"' := fun hd => hlone rest (hd ▸ rfl)
      simp [cutVerbatim, hd]
  | case4 c rest hpair hc ih =>
    have hne : c ≠ '"' := fun he => hc he
    simp [cutVerbatim, hne, ih h]

/-- A fence is found only where there is room for it. -/
theorem le_length_of_cutFenced {fence : Nat} (h : (cutFenced fence t).2 ≠ []) :
    fence ≤ t.length := by
  fun_induction cutFenced fence t with
  | case1 => exact absurd rfl h
  | case2 c rest hp => simpa using (List.isPrefixOf_iff_prefix.1 hp).length_le
  | case3 c rest hp ih =>
    have := ih h
    rw [List.length_cons]
    omega

theorem cutFenced_append_more {fence : Nat} (h : (cutFenced fence t).2 ≠ []) :
    cutFenced fence (t ++ more) = ((cutFenced fence t).1, (cutFenced fence t).2 ++ more) := by
  fun_induction cutFenced fence t with
  | case1 => exact absurd rfl h
  | case2 c rest hp =>
    have hpre := List.isPrefixOf_iff_prefix.1 hp
    have hlen : fence ≤ (c :: rest).length := by simpa using hpre.length_le
    have hmore : (List.replicate fence '"').isPrefixOf (c :: (rest ++ more)) = true :=
      List.isPrefixOf_iff_prefix.2 (hpre.trans (List.prefix_append (c :: rest) more))
    rw [List.cons_append, cutFenced, if_pos hmore, ← List.cons_append,
      List.take_append_of_le_length hlen, List.drop_append_of_le_length hlen]
  | case3 c rest hp ih =>
    -- the fence found further on shows that there is room for one here, so this is none
    have hlen : fence ≤ (c :: rest).length := by
      have := le_length_of_cutFenced h
      rw [List.length_cons]
      omega
    have hmore : ¬ (List.replicate fence '"').isPrefixOf (c :: (rest ++ more)) = true := by
      rw [List.isPrefixOf_iff_prefix]
      intro hpre
      have hin : List.replicate fence '"' <+: c :: rest :=
        List.prefix_of_prefix_length_le hpre (List.prefix_append (c :: rest) more)
          (by simpa using hlen)
      exact hp (List.isPrefixOf_iff_prefix.2 hin)
    rw [List.cons_append, cutFenced, if_neg hmore, ih h]

/-- A run of quotes does not reach over the cut if something else stands in front of it. -/
theorem quotes_append_more (more : Text) (h : t.dropWhile (· == '"') ≠ []) :
    (t ++ more).takeWhile (· == '"') = t.takeWhile (· == '"') ∧
      (t ++ more).dropWhile (· == '"') = t.dropWhile (· == '"') ++ more := by
  induction t with
  | nil => exact absurd rfl h
  | cons c t ih =>
    by_cases hc : c = '"'
    · have hne : t.dropWhile (· == '"') ≠ [] := by simpa [hc] using h
      simpa [hc] using ih hne
    · simp [hc]

/-- What stands in front of a text that ends a line, up to its line feed, is not made up of what
follows it. -/
theorem isPrefix_of_append_more {front : Text} (hend : t.getLast? = some '\n')
    (hfeed : '\n' ∉ front) (h : front <+: t ++ more) : front <+: t := by
  rcases Nat.le_total front.length t.length with hle | hle
  · exact List.prefix_of_prefix_length_le h (List.prefix_append t more) hle
  · have hin : t <+: front := List.prefix_of_prefix_length_le (List.prefix_append t more) h hle
    exact absurd (hin.subset (List.mem_of_getLast? hend)) hfeed

/-- A lexeme that more text of the line follows is read in the same way when still more follows. -/
theorem nextLexeme_append_more {c : Char} {rest : Text} (hne : (nextLexeme c rest).2 ≠ [])
    (hend : rest.getLast? = some '\n') :
    nextLexeme c (rest ++ more) = ((nextLexeme c rest).1, (nextLexeme c rest).2 ++ more) := by
  -- what the reader looks ahead for holds no line feed: it stands in front of the cut or nowhere
  have hold : ∀ front : Text, '\n' ∉ front → (∀ r, rest = front ++ r → False) →
      ¬ front <+: rest ++ more := by
    intro front hfeed hno hpre
    obtain ⟨r, hr⟩ := isPrefix_of_append_more hend hfeed hpre
    exact hno r hr.symm
  fun_cases nextLexeme c rest with
  | case1 r =>
    rw [nextLexeme.eq_1] at hne
    rw [List.cons_append, nextLexeme.eq_1, cutLine_append_more hne]
  | case2 r =>
    rw [nextLexeme.eq_2] at hne
    rw [List.cons_append, nextLexeme.eq_2, cutBlock_append_more hne]
  | case3 r extra cut =>
    rw [nextLexeme.eq_3] at hne
    have hdrop : r.dropWhile (· == '"') ≠ [] := fun he => hne (by rw [he]; rfl)
    obtain ⟨htake', hdrop'⟩ := quotes_append_more more hdrop
    rw [List.cons_append, List.cons_append, nextLexeme.eq_3, htake', hdrop',
      cutFenced_append_more hne]
  | case4 r =>
    rw [nextLexeme.eq_4] at hne
    rw [List.cons_append, nextLexeme.eq_4, cutVerbatim_append_more hne]
  | case5 r =>
    rw [nextLexeme.eq_5] at hne
    rw [List.cons_append, List.cons_append, nextLexeme.eq_5, cutVerbatim_append_more hne]
  | case6 r =>
    rw [nextLexeme.eq_6] at hne
    rw [List.cons_append, List.cons_append, nextLexeme.eq_6, cutVerbatim_append_more hne]
  | case7 =>
    rename_i hfence
    rw [nextLexeme.eq_7 _ hfence] at hne
    have hno : ¬ ['"', '"'] <+: rest ++ more :=
      hold ['"', '"'] (by decide) fun r hr => hfence r hr
    rw [nextLexeme.eq_7 _ fun r hr => hno ⟨r, hr.symm⟩, cutQuoted_append_more hne]
  | case8 =>
    rw [nextLexeme.eq_8] at hne
    rw [nextLexeme.eq_8, cutQuoted_append_more hne]
  | case9 _ _ hslash hstar _ hat hdollar hat' =>
    rename_i hquote hmark _
    apply nextLexeme_code
    refine ⟨hquote, hmark, fun hc => ⟨?_, ?_⟩, fun hc => ⟨?_, ?_⟩, fun hc => ?_⟩
    · exact hold ['/'] (by decide) fun r hr => hslash r hc hr
    · exact hold ['*'] (by decide) fun r hr => hstar r hc hr
    · exact hold ['"'] (by decide) fun r hr => hat r hc hr
    · exact hold ['$', '"'] (by decide) fun r hr => hat' r hc hr
    · exact hold ['@', '"'] (by decide) fun r hr => hdollar r hc hr

/-! ## The cut between two lines -/

theorem mark_of_nextLexeme {c : Char} {rest : Text} {mark : Char} {body : Text} :
    (nextLexeme c rest).1 = .quoted mark body → mark = '"' ∨ mark = '\'' := by
  fun_cases nextLexeme c rest <;> intro h <;> cases h <;> simp

theorem getLast?_of_isSuffix {back : Text} (h : back <:+ t) (hne : back ≠ []) :
    t.getLast? = back.getLast? := by
  obtain ⟨front, rfl⟩ := h
  rw [List.getLast?_append, List.getLast?_eq_some_getLast hne, Option.some_or]

/-- A closed lexeme that ends with a line feed is that line feed. -/
theorem Lexeme.eq_code_of_isClosed {l : Lexeme} (hclosed : l.IsClosed)
    (hmark : ∀ mark body, l = .quoted mark body → mark = '"' ∨ mark = '\'')
    (hend : l.written.getLast? = some '\n') : l = .code '\n' := by
  cases l with
  | code c =>
    obtain rfl : c = '\n' := by simpa [Lexeme.written] using hend
    rfl
  | lineComment body => exact hclosed.elim
  | blockComment body =>
    have hs := hclosed.trans (List.suffix_append ['/', '*'] body)
    have hlast := getLast?_of_isSuffix hs (by decide)
    exact absurd (hlast.symm.trans hend) (by decide)
  | quoted mark body =>
    obtain ⟨inner, _, rfl⟩ := hclosed
    have hlast := getLast?_of_isSuffix (List.suffix_append (mark :: inner) [mark]) (by simp)
    have hm : mark = '\n' := Option.some.inj (hlast.symm.trans hend)
    rcases hmark mark _ rfl with rfl | rfl <;> exact absurd hm (by decide)
  | verbatim sigil body =>
    obtain ⟨inner, _, rfl⟩ := hclosed
    have hs : ['"'] <:+ sigil ++ '"' :: (inner ++ ['"']) :=
      (List.suffix_append ('"' :: inner) ['"']).trans (List.suffix_append sigil _)
    exact absurd ((getLast?_of_isSuffix hs (by decide)).symm.trans hend) (by decide)
  | fenced extra body =>
    have hs : ['"'] <:+ body :=
      (show ['"'] <:+ List.replicate (extra + 3) '"' from
        ⟨List.replicate (extra + 2) '"', by rw [← List.replicate_succ']⟩).trans hclosed
    have hs' := hs.trans (List.suffix_append ('"' :: '"' :: '"' :: List.replicate extra '"') body)
    exact absurd ((getLast?_of_isSuffix hs' (by decide)).symm.trans hend) (by decide)

/-- What every lexeme satisfies that the reader takes, all lexemes of a text satisfy. -/
theorem forall_mem_lexemes {p : Lexeme → Prop} (h : ∀ c rest, p (nextLexeme c rest).1)
    (t : Text) :
    ∀ l ∈ lexemes t, p l := by
  fun_induction lexemes t with
  | case1 => simp
  | case2 c rest ih =>
    intro l hl
    rcases List.mem_cons.1 hl with rfl | hl
    · exact h c rest
    · exact ih l hl

/-- Where nothing is left open at the end of a line, its line feed is read as a character of
code. -/
theorem getLast?_lexemes (hclosed : IsClosed t) (hend : t.getLast? = some '\n') :
    (lexemes t).getLast? = some (.code '\n') := by
  have hwritten := flatMap_written_lexemes t
  rcases List.eq_nil_or_concat (lexemes t) with hnil | ⟨ls, l, hls⟩
  · rw [hnil] at hwritten
    exact absurd (hwritten ▸ hend) (by simp)
  · rw [List.concat_eq_append] at hls
    have hl : l ∈ lexemes t := by simp [hls]
    have hlast : (lexemes t).getLast? = some l := by rw [hls, List.getLast?_concat]
    have hback : l.written <:+ t := by
      refine ⟨ls.flatMap Lexeme.written, ?_⟩
      rw [← hwritten, hls, List.flatMap_append]
      simp
    have hne : l.written ≠ [] :=
      forall_mem_lexemes (p := fun l => l.written ≠ []) Lexeme.written_ne_nil t l hl
    have hmark : ∀ mark body, l = .quoted mark body → mark = '"' ∨ mark = '\'' :=
      forall_mem_lexemes
        (p := fun l => ∀ mark body, l = .quoted mark body → mark = '"' ∨ mark = '\'')
        (fun _ _ _ _ => mark_of_nextLexeme) t l hl
    rw [hlast, Lexeme.eq_code_of_isClosed (hclosed l hlast) hmark
      ((getLast?_of_isSuffix hback hne).symm.trans hend)]

/-- Reading goes on behind a line as if nothing were in front of it, if nothing is left open. -/
theorem lexemes_append (hclosed : IsClosed t) (hend : Text.EndsLine t) :
    lexemes (t ++ more) = lexemes t ++ lexemes more := by
  fun_induction lexemes t with
  | case1 => rfl
  | case2 c rest ih =>
    have hlast : (c :: rest).getLast? = some '\n' := hend.resolve_left (List.cons_ne_nil c rest)
    have hread := nextLexeme_append c rest
    by_cases hne : (nextLexeme c rest).2 = []
    · -- the last lexeme is the line feed that ends the text
      have hcode : (nextLexeme c rest).1 = .code '\n' := by
        have := getLast?_lexemes hclosed hlast
        rw [lexemes, hne, lexemes] at this
        exact Option.some.inj this
      rw [hne, hcode, List.append_nil] at hread
      obtain ⟨rfl, rfl⟩ : '\n' = c ∧ [] = rest := List.cons.inj hread
      rw [hcode, hne, lexemes]
      exact lexemes_of_next rfl
    · have hlast' : (nextLexeme c rest).2.getLast? = some '\n' :=
        (getLast?_of_isSuffix ⟨_, hread⟩ hne).symm.trans hlast
      have hne' : rest ≠ [] := by
        rintro rfl
        exact hne (List.eq_nil_of_length_eq_zero (Nat.le_zero.1 (length_nextLexeme c [])))
      have hrest : rest.getLast? = some '\n' := by
        rwa [List.getLast?_cons_of_ne_nil hne'] at hlast
      have hclosed' : IsClosed (nextLexeme c rest).2 := by
        intro l hl
        apply hclosed l
        have hls : lexemes (nextLexeme c rest).2 ≠ [] := by
          intro he
          rw [he] at hl
          exact absurd hl (by simp)
        rw [lexemes, List.getLast?_cons_of_ne_nil hls, hl]
      rw [List.cons_append, List.cons_append,
        lexemes_of_next (nextLexeme_append_more hne hrest), ih hclosed' (.inr hlast')]

/-- Source is erased line by line, where nothing is left open. -/
theorem erase_append (hclosed : IsClosed t) (hend : Text.EndsLine t) :
    erase (t ++ more) = erase t ++ erase more := by
  rw [erase, lexemes_append hclosed hend, List.flatMap_append, erase, erase]

theorem endsLine_erase (hclosed : IsClosed t) (hend : Text.EndsLine t) :
    Text.EndsLine (erase t) := by
  rcases hend with rfl | hend
  · left
    rw [erase, lexemes]
    rfl
  · right
    obtain ⟨ls, hls⟩ := List.getLast?_eq_some_iff.1 (getLast?_lexemes hclosed hend)
    rw [erase, hls, List.flatMap_append]
    simp [Lexeme.erased]

/-! ## Line feeds -/

theorem lineFeeds_onlyLineFeeds (t : Text) :
    Text.lineFeeds (Text.onlyLineFeeds t) = Text.lineFeeds t := by
  rw [onlyLineFeeds_eq, Segment.feeds, Text.lineFeeds, List.count_replicate_self]

theorem notMem_cutLine (t : Text) : '\n' ∉ (cutLine t).1 := by
  intro h
  have hall := List.all_eq_true.1 (List.all_takeWhile (p := (· != '\n')) (l := t)) _ h
  exact absurd hall (by decide)

theorem notMem_cutQuoted {mark : Char} (hmark : mark ≠ '\n') (t : Text) :
    '\n' ∉ (cutQuoted mark t).1 := by
  fun_induction cutQuoted mark t <;> grind

theorem lineFeeds_erased (c : Char) (rest : Text) :
    Text.lineFeeds (nextLexeme c rest).1.erased =
      Text.lineFeeds (nextLexeme c rest).1.written := by
  have hquotes : ∀ n, List.count '\n' (List.replicate n '"') = 0 := fun n =>
    List.count_eq_zero.2 fun h => absurd (List.eq_of_mem_replicate h) (by decide)
  have hfeeds : ∀ body : Text, List.count '\n' (Text.onlyLineFeeds body) = List.count '\n' body :=
    lineFeeds_onlyLineFeeds
  fun_cases nextLexeme c rest <;>
    simp [Lexeme.erased, Lexeme.written, Text.lineFeeds, List.count_cons, hquotes, hfeeds,
      List.count_eq_zero_of_not_mem, notMem_cutLine, notMem_cutQuoted]

/-- The lexemes at the front of a text leave as many line feeds as they are written with. -/
theorem lineFeeds_front {front back : List Lexeme} (h : lexemes t = front ++ back) :
    Text.lineFeeds (front.flatMap Lexeme.erased) =
      Text.lineFeeds (front.flatMap Lexeme.written) := by
  have hcount : front.map (List.count '\n' ∘ Lexeme.erased) =
      front.map (List.count '\n' ∘ Lexeme.written) := by
    apply List.map_congr_left
    intro l hl
    have hmem : l ∈ lexemes t := h ▸ List.mem_append_left back hl
    exact forall_mem_lexemes (p := fun l => Text.lineFeeds l.erased = Text.lineFeeds l.written)
      lineFeeds_erased t l hmem
  rw [Text.lineFeeds, Text.lineFeeds, List.count_flatMap, List.count_flatMap, hcount]

/-- Erasing source keeps its line feeds. -/
theorem lineFeeds_erase (t : Text) : Text.lineFeeds (erase t) = Text.lineFeeds t := by
  have h := lineFeeds_front (List.append_nil (lexemes t)).symm
  rwa [flatMap_written_lexemes] at h

end Source

end RazorViews
