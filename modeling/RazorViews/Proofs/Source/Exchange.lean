import RazorViews.Proofs.Source.Legible

/-!
# Exchanging the text behind a lexeme

What the reader takes as a lexeme depends on the text behind it only by a character or two.  Where
two texts look alike to it, as far as it looks, and nothing is left open in front of them, the same
lexemes are read in front of the one and of the other: `lexemes_exchange`.

The reader looks behind what it has taken for few things (`lookedFor`): the second character of the
marks of comments, a quote, a sigil with a quote behind it, a line feed.  Two texts that begin with
a double quote look alike (`lookAlike_quote`), so the text of a literal may be another one without
anything changing in front of it; and so do no text and one that begins with a comma
(`lookAlike_comma`), so annotations may be put together there (`lexemes_comma`).

An open literal or comment takes whatever follows, so it must be closed, or something must stand
behind it already that has ended it.
-/

namespace RazorViews.Source

variable {t b b' : Text}

/-- What the reader looks for behind what it has taken. -/
def lookedFor : List Text := [['/'], ['*'], ['"'], ['$', '"'], ['@', '"'], ['\n']]

/-- Behind whatever text, the reader finds what it looks for in front of both or of neither. -/
def LookAlike (b b' : Text) : Prop :=
  ∀ v : Text, ∀ w ∈ lookedFor, w <+: v ++ b ↔ w <+: v ++ b'

theorem LookAlike.append (h : LookAlike b b') (v : Text) : LookAlike (v ++ b) (v ++ b') := by
  intro u w hw
  rw [← List.append_assoc, ← List.append_assoc]
  exact h (u ++ v) w hw

theorem LookAlike.isPrefix_iff (h : LookAlike b b') {w : Text} (hw : w ∈ lookedFor) :
    w <+: b ↔ w <+: b' := h [] w hw

/-- The reader looks for a double quote in the last place only, so it does not look behind one. -/
theorem lookAlike_quote (x y : Text) : LookAlike ('"' :: x) ('"' :: y) := by
  intro v w hw
  simp only [lookedFor, List.mem_cons, List.not_mem_nil, or_false] at hw
  rcases v with _ | ⟨c, _ | ⟨d, v⟩⟩ <;> rcases hw with rfl | rfl | rfl | rfl | rfl | rfl <;> simp

/-- The reader does not look for a comma. -/
theorem lookAlike_comma (x : Text) : LookAlike [] (',' :: x) := by
  intro v w hw
  simp only [lookedFor, List.mem_cons, List.not_mem_nil, or_false] at hw
  rcases v with _ | ⟨c, _ | ⟨d, v⟩⟩ <;> rcases hw with rfl | rfl | rfl | rfl | rfl | rfl <;> simp

/-! ## What is cut off is closed, and cut off again -/

theorem isSuffix_cutBlock (h : (cutBlock t).2 ≠ []) : ['*', '/'] <:+ (cutBlock t).1 := by
  fun_induction cutBlock t with
  | case1 => exact absurd rfl h
  | case2 rest => exact List.suffix_rfl
  | case3 c rest hstar ih => exact (ih h).trans (List.suffix_cons c _)

theorem cutBlock_exchange (h : ['*', '/'] <:+ (cutBlock t).1) (b' : Text) :
    cutBlock ((cutBlock t).1 ++ b') = ((cutBlock t).1, b') := by
  fun_induction cutBlock t with
  | case1 => exact absurd h (by simp)
  | case2 rest => rfl
  | case3 c rest hstar ih =>
    have hread := cutBlock_append rest
    -- what is cut off begins as the text does, so no end of a comment comes about in front of it
    have hhead : ∀ r, c = '*' → (cutBlock rest).1 ++ b' = '/' :: r → False := by
      intro r hc heq
      cases hcut : (cutBlock rest).1 with
      | nil =>
        rw [hcut] at h
        exact absurd h (by simp [hc, List.suffix_cons_iff])
      | cons d u =>
        rw [hcut] at hread heq
        obtain rfl := (List.cons.inj heq).1
        exact hstar _ hc hread.symm
    have hclosed : ['*', '/'] <:+ (cutBlock rest).1 := by
      rcases List.suffix_cons_iff.1 h with heq | hsuffix
      · obtain ⟨rfl, htail⟩ := List.cons.inj heq
        exact absurd (hhead b' rfl (by rw [← htail]; rfl)) not_false
      · exact hsuffix
    rw [List.cons_append, cutBlock.eq_3 _ _ hhead, ih hclosed]

theorem verbatimBody_cutVerbatim (h : (cutVerbatim t).2 ≠ []) :
    ∃ inner, VerbatimBody inner ∧ (cutVerbatim t).1 = inner ++ ['"'] := by
  fun_induction cutVerbatim t with
  | case1 => exact absurd rfl h
  | case2 rest ih =>
    obtain ⟨inner, hbody, hcut⟩ := ih h
    exact ⟨'"' :: '"' :: inner, .doubled hbody, by rw [hcut]; rfl⟩
  | case3 rest hlone => exact ⟨[], .nil, rfl⟩
  | case4 c rest hpair hc ih =>
    obtain ⟨inner, hbody, hcut⟩ := ih h
    exact ⟨c :: inner, .plain (fun he => hc he) hbody, by rw [hcut]; rfl⟩

theorem isSuffix_cutFenced {fence : Nat} (h : (cutFenced fence t).2 ≠ []) :
    List.replicate fence '"' <:+ (cutFenced fence t).1 := by
  fun_induction cutFenced fence t with
  | case1 => exact absurd rfl h
  | case2 c rest hp =>
    have htake := List.prefix_iff_eq_take.1 (List.isPrefixOf_iff_prefix.1 hp)
    rw [List.length_replicate] at htake
    exact htake ▸ List.suffix_rfl
  | case3 c rest hp ih => exact (ih h).trans (List.suffix_cons c _)

theorem cutFenced_exchange {fence : Nat} (hfence : 0 < fence)
    (h : List.replicate fence '"' <:+ (cutFenced fence t).1) (b' : Text) :
    cutFenced fence ((cutFenced fence t).1 ++ b') = ((cutFenced fence t).1, b') := by
  fun_induction cutFenced fence t with
  | case1 =>
    have hlen := h.length_le
    simp only [List.length_replicate, List.length_nil] at hlen
    omega
  | case2 c rest hp =>
    have htake := List.prefix_iff_eq_take.1 (List.isPrefixOf_iff_prefix.1 hp)
    rw [List.length_replicate] at htake
    rw [← htake]
    have hnone : ¬ List.replicate fence '"' <:+: [] := by
      rw [List.infix_nil, List.replicate_eq_nil_iff]
      omega
    have hcut := cutFenced_body b' hfence (by simp) hnone
    simpa using hcut
  | case3 c rest hp ih =>
    have hread : c :: (cutFenced fence rest).1 <+: c :: rest :=
      ⟨(cutFenced fence rest).2, by rw [List.cons_append, cutFenced_append]⟩
    have hnot : ¬ List.replicate fence '"' <+: c :: (cutFenced fence rest).1 :=
      fun hpre => hp (List.isPrefixOf_iff_prefix.2 (hpre.trans hread))
    -- the fence at the end is not the whole of what is cut off, which begins with none
    have hclosed : List.replicate fence '"' <:+ (cutFenced fence rest).1 := by
      rcases List.suffix_cons_iff.1 h with heq | hsuffix
      · exact absurd (heq ▸ List.prefix_rfl) hnot
      · exact hsuffix
    have hmore : ¬ (List.replicate fence '"').isPrefixOf
        (c :: ((cutFenced fence rest).1 ++ b')) = true := by
      rw [List.isPrefixOf_iff_prefix]
      intro hpre
      refine hnot (List.prefix_of_prefix_length_le hpre ⟨b', rfl⟩ ?_)
      exact h.length_le
    rw [List.cons_append, cutFenced, if_neg hmore, ih hclosed]

/-- A literal on one line is closed, or ends in front of the line feed, if anything stands behind
it. -/
theorem cutQuoted_cases {mark : Char} (h : (cutQuoted mark t).2 ≠ []) :
    (∃ inner, QuotedBody mark inner ∧ (cutQuoted mark t).1 = inner ++ [mark]) ∨
      ['\n'] <+: (cutQuoted mark t).2 := by
  fun_induction cutQuoted mark t with
  | case1 => exact absurd rfl h
  | case2 => exact absurd rfl h
  | case3 rest => exact .inr ⟨rest, rfl⟩
  | case4 c rest hfeed ih =>
    refine (ih h).imp ?_ id
    rintro ⟨inner, hbody, hcut⟩
    exact ⟨'\\' :: c :: inner, .escape (fun he => hfeed he) hbody, by rw [hcut]; rfl⟩
  | case5 c rest hlone _ hpair hmark =>
    obtain rfl := beq_iff_eq.1 hmark
    exact .inl ⟨[], .nil, rfl⟩
  | case6 c rest hlone _ hpair hmark hfeed =>
    obtain rfl := beq_iff_eq.1 hfeed
    exact .inr ⟨rest, rfl⟩
  | case7 c rest hlone _ hpair hmark hfeed ih =>
    refine (ih h).imp ?_ id
    rintro ⟨inner, hbody, hcut⟩
    refine ⟨c :: inner, .plain ?_ (ne_backslash hlone hpair) ?_ hbody, by rw [hcut]; rfl⟩
    · exact fun he => hmark (beq_iff_eq.2 he)
    · exact fun he => hfeed (beq_iff_eq.2 he)

/-- A literal that ends in front of a line feed ends in front of any other one. -/
theorem cutQuoted_feed {mark : Char} (h : ['\n'] <+: (cutQuoted mark t).2) (r : Text) :
    cutQuoted mark ((cutQuoted mark t).1 ++ '\n' :: r) = ((cutQuoted mark t).1, '\n' :: r) := by
  fun_induction cutQuoted mark t with
  | case1 => exact absurd h (by simp)
  | case2 => exact absurd h (by simp)
  | case3 rest => rfl
  | case4 c rest hfeed ih => simp [cutQuoted, ih h]
  | case5 c rest hlone _ hpair hmark =>
    obtain rfl := beq_iff_eq.1 hmark
    simp [cutQuoted, ne_backslash hlone hpair]
  | case6 c rest hlone _ hpair hmark hfeed =>
    obtain rfl := beq_iff_eq.1 hfeed
    have hne : '\n' ≠ mark := fun he => hmark (beq_iff_eq.2 he)
    simp [cutQuoted, hne]
  | case7 c rest hlone _ hpair hmark hfeed ih =>
    have hne : c ≠ mark := fun he => hmark (beq_iff_eq.2 he)
    have hc : c ≠ '\n' := fun he => hfeed (beq_iff_eq.2 he)
    simp [cutQuoted, ne_backslash hlone hpair, hne, hc, ih h]

/-! ## Lexemes -/

/-- A verbatim literal that is closed, or that something stands behind, ends in front of any text
that does not begin with a quote where the one behind it does not. -/
theorem cutVerbatim_exchange {sigil : Text}
    (hend : (cutVerbatim t).2 ≠ [] ∨ (Lexeme.verbatim sigil (cutVerbatim t).1).IsClosed)
    (halike : LookAlike (cutVerbatim t).2 b') :
    cutVerbatim ((cutVerbatim t).1 ++ b') = ((cutVerbatim t).1, b') := by
  have hclosed : ∃ inner, VerbatimBody inner ∧ (cutVerbatim t).1 = inner ++ ['"'] :=
    hend.elim verbatimBody_cutVerbatim id
  obtain ⟨inner, hbody, hcut⟩ := hclosed
  have hquote : ¬ ['"'] <+: b' := by
    rw [← halike.isPrefix_iff (by decide)]
    exact not_isPrefix_cutVerbatim t
  rw [hcut, List.append_assoc, List.singleton_append, cutVerbatim_body hquote hbody]

/-- A literal on one line that is closed, or that something stands behind. -/
theorem cutQuoted_exchange {mark : Char} (hback : mark ≠ '\\')
    (hend : (cutQuoted mark t).2 ≠ [] ∨ (Lexeme.quoted mark (cutQuoted mark t).1).IsClosed)
    (halike : LookAlike (cutQuoted mark t).2 b') :
    cutQuoted mark ((cutQuoted mark t).1 ++ b') = ((cutQuoted mark t).1, b') := by
  have hcases : (∃ inner, QuotedBody mark inner ∧ (cutQuoted mark t).1 = inner ++ [mark]) ∨
      ['\n'] <+: (cutQuoted mark t).2 := hend.elim cutQuoted_cases .inl
  rcases hcases with ⟨inner, hbody, hcut⟩ | hfeed
  · rw [hcut, List.append_assoc, List.singleton_append, cutQuoted_body b' hback hbody]
  · obtain ⟨r, rfl⟩ := (halike.isPrefix_iff (by decide)).1 hfeed
    exact cutQuoted_feed hfeed r

/-- A comment that something stands behind ends at the end of its line. -/
theorem cutLine_exchange (hend : (cutLine t).2 ≠ []) (halike : LookAlike (cutLine t).2 b') :
    cutLine ((cutLine t).1 ++ b') = ((cutLine t).1, b') := by
  obtain ⟨d, behind, hcut⟩ := List.exists_cons_of_ne_nil hend
  have hstop := List.head?_dropWhile_not (· != '\n') t
  rw [show t.dropWhile (· != '\n') = d :: behind from hcut] at hstop
  obtain rfl : d = '\n' := by simpa using hstop
  have hfeed : ['\n'] <+: b' := (halike.isPrefix_iff (by decide)).1 ⟨behind, hcut.symm⟩
  exact cutLine_body (notMem_cutLine t) (.inr hfeed)

/-- What stands behind the opening quotes of a fenced literal does not go on with a quote. -/
theorem head?_cutFenced_ne_quote {fence : Nat} (hfence : 0 < fence)
    (hclosed : List.replicate fence '"' <:+ (cutFenced fence (t.dropWhile (· == '"'))).1) :
    ((cutFenced fence (t.dropWhile (· == '"'))).1 ++ b').head? ≠ some '"' := by
  have hread := cutFenced_append fence (t.dropWhile (· == '"'))
  have hstop := List.head?_dropWhile_not (· == '"') t
  generalize cutFenced fence (t.dropWhile (· == '"')) = cut at hclosed hread ⊢
  have hne : cut.1 ≠ [] := by
    intro hnil
    have hlen := hclosed.length_le
    rw [hnil, List.length_replicate, List.length_nil] at hlen
    omega
  rw [← hread, List.head?_append_of_ne_nil _ hne] at hstop
  rw [List.head?_append_of_ne_nil _ hne]
  intro hquote
  rw [hquote] at hstop
  exact absurd hstop (by simp)

/-- Behind a quote that begins a literal on one line no other two quotes come to stand. -/
theorem not_fence_exchange (hfence : ∀ r, t ≠ '"' :: '"' :: r)
    (hend : (cutQuoted '"' t).2 ≠ [] ∨ (Lexeme.quoted '"' (cutQuoted '"' t).1).IsClosed)
    (halike : LookAlike (cutQuoted '"' t).2 b') (r : Text) :
    (cutQuoted '"' t).1 ++ b' ≠ '"' :: '"' :: r := by
  intro heq
  have hread := cutQuoted_append '"' t
  cases hcut : (cutQuoted '"' t).1 with
  | nil =>
    -- nothing is cut off in front of a line feed only, which no quote takes the place of
    have hopen : ¬ ∃ inner, QuotedBody '"' inner ∧ (cutQuoted '"' t).1 = inner ++ ['"'] := by
      simp [hcut]
    have hfeed : ['\n'] <+: (cutQuoted '"' t).2 :=
      (cutQuoted_cases (hend.resolve_right hopen)).resolve_left hopen
    rw [halike.isPrefix_iff (by decide), ← List.nil_append b', ← hcut, heq] at hfeed
    exact absurd hfeed (by simp)
  | cons d u =>
    rw [hcut] at hread heq
    obtain ⟨rfl, hbehind⟩ := List.cons.inj heq
    cases u with
    | nil =>
      have hquote : ['"'] <+: (cutQuoted '"' t).2 :=
        (halike.isPrefix_iff (by decide)).2 ⟨r, hbehind.symm⟩
      obtain ⟨behind, hbehind⟩ := hquote
      exact hfence behind (by rw [← hread, ← hbehind]; rfl)
    | cons e u =>
      obtain ⟨rfl, -⟩ := List.cons.inj hbehind
      exact hfence _ hread.symm

/-- A lexeme that is closed, or that something stands behind, is read again in front of a text that
looks alike. -/
theorem nextLexeme_exchange (c : Char) (rest : Text) :
    ((nextLexeme c rest).2 ≠ [] ∨ (nextLexeme c rest).1.IsClosed) →
    LookAlike (nextLexeme c rest).2 b' →
    nextLexeme c ((nextLexeme c rest).1.written.tail ++ b') = ((nextLexeme c rest).1, b') := by
  fun_cases nextLexeme c rest with
  | case1 r =>
    intro hend halike
    show nextLexeme '/' ('/' :: ((cutLine r).1 ++ b')) = _
    rw [nextLexeme.eq_1, cutLine_exchange (hend.resolve_right not_false) halike]
  | case2 r =>
    intro hend halike
    show nextLexeme '/' ('*' :: ((cutBlock r).1 ++ b')) = _
    rw [nextLexeme.eq_2, cutBlock_exchange (hend.elim isSuffix_cutBlock id)]
  | case3 r extra cut =>
    intro hend halike
    have hclosed : List.replicate (extra + 3) '"' <:+ cut.1 := hend.elim isSuffix_cutFenced id
    have hfence : 0 < extra + 3 := Nat.succ_pos (extra + 2)
    show nextLexeme '"' ('"' :: '"' :: ((List.replicate extra '"' ++ cut.1) ++ b')) = _
    rw [List.append_assoc, nextLexeme_fence (head?_cutFenced_ne_quote hfence hclosed),
      cutFenced_exchange hfence hclosed]
  | case4 r =>
    intro hend halike
    show nextLexeme '@' ('"' :: ((cutVerbatim r).1 ++ b')) = _
    rw [nextLexeme.eq_4, cutVerbatim_exchange hend halike]
  | case5 r =>
    intro hend halike
    show nextLexeme '$' ('@' :: '"' :: ((cutVerbatim r).1 ++ b')) = _
    rw [nextLexeme.eq_5, cutVerbatim_exchange hend halike]
  | case6 r =>
    intro hend halike
    show nextLexeme '@' ('$' :: '"' :: ((cutVerbatim r).1 ++ b')) = _
    rw [nextLexeme.eq_6, cutVerbatim_exchange hend halike]
  | case7 =>
    rename_i hfence
    intro hend halike
    show nextLexeme '"' ((cutQuoted '"' rest).1 ++ b') = _
    rw [nextLexeme.eq_7 _ (not_fence_exchange hfence hend halike),
      cutQuoted_exchange (by decide) hend halike]
  | case8 =>
    intro hend halike
    show nextLexeme '\'' ((cutQuoted '\'' rest).1 ++ b') = _
    rw [nextLexeme.eq_8, cutQuoted_exchange (by decide) hend halike]
  | case9 _ _ hslash hstar _ hat hdollar hat' =>
    rename_i hquote hmark _
    intro hend halike
    have hno : ∀ w ∈ lookedFor, (∀ r, rest ≠ w ++ r) → ¬ w <+: b' := by
      rintro w hw hrest hpre
      obtain ⟨r, hr⟩ := (halike.isPrefix_iff hw).2 hpre
      exact hrest r hr.symm
    refine nextLexeme_code ⟨hquote, hmark, fun hc => ⟨?_, ?_⟩, fun hc => ⟨?_, ?_⟩, fun hc => ?_⟩
    · exact hno ['/'] (by decide) fun r => hslash r hc
    · exact hno ['*'] (by decide) fun r => hstar r hc
    · exact hno ['"'] (by decide) fun r => hat r hc
    · exact hno ['$', '"'] (by decide) fun r => hat' r hc
    · exact hno ['@', '"'] (by decide) fun r => hdollar r hc

/-! ## Lexemes one after another -/

/-- The first lexeme of a text that is written as it is, and what is read behind it. -/
theorem next_of_lexemes {l : Lexeme} {ls : List Lexeme} {behind : Text}
    (h : lexemes (l.written ++ behind) = l :: ls) :
    ∃ c rest, nextLexeme c rest = (l, behind) ∧ lexemes behind = ls := by
  cases htext : l.written ++ behind with
  | nil =>
    rw [htext, lexemes] at h
    exact absurd h (by simp)
  | cons c rest =>
    rw [htext, lexemes] at h
    obtain ⟨rfl, hls⟩ := List.cons.inj h
    have hcut : (nextLexeme c rest).2 = behind :=
      List.append_cancel_left ((nextLexeme_append c rest).trans htext.symm)
    rw [hcut] at hls
    exact ⟨c, rest, Prod.ext rfl hcut, hls⟩

theorem lexemes_exchange_cons {c : Char} {rest behind : Text} {l : Lexeme}
    (h : nextLexeme c rest = (l, behind)) (hend : behind ≠ [] ∨ l.IsClosed)
    (halike : LookAlike behind b') : lexemes (l.written ++ b') = l :: lexemes b' := by
  have hread := nextLexeme_append c rest
  have hnext := @nextLexeme_exchange b' c rest
  obtain ⟨d, u, hwritten⟩ := List.exists_cons_of_ne_nil (Lexeme.written_ne_nil c rest)
  rw [h] at hread hnext hwritten
  rw [hwritten] at hread hnext ⊢
  obtain rfl : d = c := (List.cons.inj hread).1
  exact lexemes_of_next (hnext hend halike)

/-- **What stands behind lexemes may be exchanged** for what looks alike to the reader, if something
stands there or nothing is left open. -/
theorem lexemes_exchange {front : List Lexeme}
    (hread : lexemes (front.flatMap Lexeme.written ++ b) = front ++ lexemes b)
    (hend : b ≠ [] ∨ ∀ l ∈ front.getLast?, l.IsClosed) (halike : LookAlike b b') :
    lexemes (front.flatMap Lexeme.written ++ b') = front ++ lexemes b' := by
  induction front with
  | nil => rfl
  | cons l front ih =>
    rw [List.flatMap_cons, List.append_assoc, List.cons_append] at hread
    obtain ⟨c, rest, hnext, hbehind⟩ := next_of_lexemes hread
    have hmore : ∀ l' ∈ front.getLast?, l' ∈ (l :: front).getLast? := by
      intro l' hl'
      rw [List.getLast?_cons, Option.mem_def.1 hl']
      rfl
    have hrest := ih hbehind (hend.imp id fun hclosed l' hl' => hclosed l' (hmore l' hl'))
    -- nothing stands behind the lexeme only if it is the last one
    have hfirst : front.flatMap Lexeme.written ++ b ≠ [] ∨ l.IsClosed := by
      by_cases hnil : front.flatMap Lexeme.written ++ b = []
      · obtain rfl : front = [] := by
          rw [hnil, lexemes] at hbehind
          exact (List.append_eq_nil_iff.1 hbehind.symm).1
        exact .inr (hend.resolve_left (fun hne => hne hnil) l rfl)
      · exact .inl hnil
    rw [List.flatMap_cons, List.append_assoc,
      lexemes_exchange_cons hnext hfirst (halike.append _), hrest, List.cons_append]

/-- Reading goes on behind a comma as if nothing were in front of it, if nothing is left open. -/
theorem lexemes_comma (hclosed : IsClosed t) (more : Text) :
    lexemes (t ++ ',' :: more) = lexemes t ++ .code ',' :: lexemes more := by
  have hnil : lexemes [] = [] := by rw [lexemes]
  have hread : lexemes ((lexemes t).flatMap Lexeme.written ++ []) = lexemes t ++ lexemes [] := by
    rw [flatMap_written_lexemes, List.append_nil, hnil, List.append_nil]
  have hmore := lexemes_exchange hread (.inr hclosed) (lookAlike_comma more)
  rwa [flatMap_written_lexemes, lexemes_of_next rfl] at hmore

end RazorViews.Source
