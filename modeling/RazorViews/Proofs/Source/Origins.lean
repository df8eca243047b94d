import RazorViews.Proofs.Source.Closed

/-!
# Where the characters of erased source come from

Erasing is one pass over the text.  The pass stands in front of some character, reads one lexeme,
writes what is left of it and goes on behind it.  `Reaches` says where the pass comes to stand and
what it has written by then; these are the cuts between the lexemes of the text:
`Reaches.exists_front`, `reaches_of_append`.

## What is proved

`keepsLines` says of every text, however its comments, its literals and its quotes come out:

* the pass ends behind the last character, and what it has written by then is the erased source;
* the erased source has as many line feeds as the text, and so has at every cut what is written by
  then as what is passed over;
* a character that is copied as code is on the same line of both;
* two copied characters that are neighbours on a line of the erased source were neighbours in the
  text, so erasing joins no two words.

## What it is not

Columns are not kept: what is left of a comment or a literal is shorter than it was.  And nothing is
said of what counts as a comment or a literal; that is what the grammar is for (`erase_document`).

## The proof

Whatever lexeme is read, as many line feeds are written as are passed over (`lineFeeds_erased`), so
input and output stand on the same line at every cut.  Between two characters of code nothing may be
written only where a line comment stands, and that is followed by a line feed or by nothing:
`eq_nil_of_code`.
-/

namespace RazorViews.Source

variable {t : Text}

/-! ## The pass -/

/-- The pass over a text comes to stand in front of the character with number `i` (or behind the
last one), with `out` written so far. -/
inductive Reaches (t : Text) : (i : Nat) → (out : Text) → Prop
  | start : Reaches t 0 []
  | next {i : Nat} {out : Text} {c : Char} {rest : Text} :
      Reaches t i out → t.drop i = c :: rest →
      Reaches t (i + (nextLexeme c rest).1.written.length) (out ++ (nextLexeme c rest).1.erased)

/-- The character `c` with number `i` is read as code, and copied to the output, where it gets the
number `j`. -/
def Copied (t : Text) (i j : Nat) (c : Char) : Prop :=
  ∃ out, Reaches t i out ∧ out.length = j ∧ (lexemes (t.drop i)).head? = some (.code c)

theorem drop_nextLexeme {i : Nat} {c : Char} {rest : Text} (h : t.drop i = c :: rest) :
    t.drop (i + (nextLexeme c rest).1.written.length) = (nextLexeme c rest).2 := by
  rw [← List.drop_drop, h, ← nextLexeme_append c rest, List.drop_left]

/-- Where the pass stands, it has read some lexemes in front and written what is left of them. -/
theorem Reaches.exists_front {i : Nat} {out : Text} (h : Reaches t i out) :
    ∃ front, lexemes t = front ++ lexemes (t.drop i) ∧ front.flatMap Lexeme.written = t.take i ∧
      i ≤ t.length ∧ out = front.flatMap Lexeme.erased := by
  induction h with
  | start => exact ⟨[], rfl, rfl, Nat.zero_le _, rfl⟩
  | @next i out c rest _ hdrop ih =>
    obtain ⟨front, hls, hfront, hle, rfl⟩ := ih
    have hread : (nextLexeme c rest).1.written <+: t.drop i :=
      ⟨(nextLexeme c rest).2, by rw [hdrop, nextLexeme_append]⟩
    refine ⟨front ++ [(nextLexeme c rest).1], ?_, ?_, ?_, ?_⟩
    · rw [drop_nextLexeme hdrop, hls, hdrop, lexemes, List.append_assoc, List.singleton_append]
    · rw [List.take_add, List.flatMap_append, hfront, List.flatMap_singleton,
        List.prefix_iff_eq_take.1 hread]
      simp
    · have := hread.length_le
      rw [List.length_drop] at this
      omega
    · rw [List.flatMap_append, List.flatMap_singleton]

/-- The pass comes to stand behind each lexeme that it has in front of it. -/
theorem reaches_of_lexemes {i : Nat} {out : Text} {front back : List Lexeme}
    (h : Reaches t i out) (hls : lexemes (t.drop i) = front ++ back) :
    Reaches t (i + (front.flatMap Lexeme.written).length) (out ++ front.flatMap Lexeme.erased) ∧
      lexemes (t.drop (i + (front.flatMap Lexeme.written).length)) = back := by
  induction front generalizing i out with
  | nil => exact ⟨by simpa using h, hls⟩
  | cons l front ih =>
    cases hdrop : t.drop i with
    | nil =>
      rw [hdrop, lexemes] at hls
      exact absurd hls (by simp)
    | cons c rest =>
      rw [hdrop, lexemes, List.cons_append, List.cons.injEq] at hls
      obtain ⟨rfl, hls⟩ := hls
      have := ih (h.next hdrop) (by rw [drop_nextLexeme hdrop, hls])
      rwa [List.append_assoc, Nat.add_assoc, ← List.length_append] at this

theorem reaches_of_append {front back : List Lexeme} (hls : lexemes t = front ++ back) :
    Reaches t (front.flatMap Lexeme.written).length (front.flatMap Lexeme.erased) ∧
      lexemes (t.drop (front.flatMap Lexeme.written).length) = back := by
  have h := reaches_of_lexemes .start (show lexemes (t.drop 0) = front ++ back from hls)
  rwa [Nat.zero_add, List.nil_append] at h

/-- The pass ends behind the text, with the erased source written. -/
theorem reaches_erase (t : Text) : Reaches t t.length (erase t) := by
  have h := (reaches_of_append (List.append_nil (lexemes t)).symm).1
  rwa [flatMap_written_lexemes] at h

/-- The characters that are copied are the lexemes of code; each gets the number of characters that
is left of the lexemes in front. -/
theorem copied_iff {i j : Nat} {c : Char} :
    Copied t i j c ↔
      ∃ front back, lexemes t = front ++ .code c :: back ∧
        (front.flatMap Lexeme.written).length = i ∧ (front.flatMap Lexeme.erased).length = j := by
  constructor
  · rintro ⟨out, hreach, hj, hhead⟩
    obtain ⟨front, hls, hfront, hle, rfl⟩ := hreach.exists_front
    obtain ⟨back, hback⟩ := List.head?_eq_some_iff.1 hhead
    refine ⟨front, back, by rw [hls, hback], ?_, hj⟩
    rw [hfront, List.length_take, Nat.min_eq_left hle]
  · rintro ⟨front, back, hls, rfl, rfl⟩
    obtain ⟨hreach, hback⟩ := reaches_of_append hls
    exact ⟨_, hreach, rfl, by rw [hback, List.head?_cons]⟩

/-! ## Line feeds -/

theorem Reaches.lineFeeds_eq {i : Nat} {out : Text} (h : Reaches t i out) :
    Text.lineFeeds out = Text.lineFeeds (t.take i) := by
  obtain ⟨front, hls, hfront, -, rfl⟩ := h.exists_front
  rw [lineFeeds_front hls, hfront]

theorem flatMap_written_code (w : Text) : (w.map Lexeme.code).flatMap Lexeme.written = w := by
  rw [List.flatMap_map]
  exact List.flatMap_singleton' w

/-- A stretch of code stands in the text and in the erased text. -/
theorem append_of_lexemes {front back : List Lexeme} {w : Text}
    (h : lexemes t = front ++ (w.map Lexeme.code ++ back)) :
    t = front.flatMap Lexeme.written ++ (w ++ back.flatMap Lexeme.written) ∧
      erase t = front.flatMap Lexeme.erased ++ (w ++ back.flatMap Lexeme.erased) := by
  have herased : (w.map Lexeme.code).flatMap Lexeme.erased = w := by
    rw [List.flatMap_map]
    exact List.flatMap_singleton' w
  constructor
  · rw [← flatMap_written_lexemes t, h, List.flatMap_append, List.flatMap_append,
      flatMap_written_code]
  · rw [erase, h, List.flatMap_append, List.flatMap_append, herased]

/-- A character that is copied stands on the same line of input and output. -/
theorem Copied.lineFeeds_eq {i j : Nat} {c : Char} (h : Copied t i j c) :
    t[i]? = some c ∧ (erase t)[j]? = some c ∧
      Text.lineFeeds ((erase t).take j) = Text.lineFeeds (t.take i) := by
  obtain ⟨front, back, hls, rfl, rfl⟩ := copied_iff.1 h
  obtain ⟨ht, herase⟩ := append_of_lexemes (w := [c]) hls
  have htake := (List.prefix_iff_eq_take.1 ⟨_, ht.symm⟩).symm
  have htake' := (List.prefix_iff_eq_take.1 ⟨_, herase.symm⟩).symm
  refine ⟨?_, ?_, ?_⟩
  · generalize front.flatMap Lexeme.written = u at ht
    rw [ht, List.getElem?_append_right (Nat.le_refl _), Nat.sub_self]
    rfl
  · rw [herase, List.getElem?_append_right (Nat.le_refl _), Nat.sub_self]
    rfl
  · rw [htake, htake', lineFeeds_front hls]

/-! ## Neighbours -/

/-- Only a line comment leaves nothing. -/
theorem Lexeme.eq_lineComment_of_erased {l : Lexeme} (h : l.erased = []) :
    ∃ body, l = .lineComment body := by
  cases l with
  | lineComment body => exact ⟨body, rfl⟩
  | code c => exact absurd h (by simp [Lexeme.erased])
  | blockComment body => exact absurd h (by simp [Lexeme.erased])
  | quoted mark body => exact absurd h (by simp [Lexeme.erased])
  | verbatim sigil body => exact absurd h (by simp [Lexeme.erased])
  | fenced extra body => exact absurd h (by simp [Lexeme.erased])

theorem snd_of_nextLexeme_lineComment {c : Char} {rest body : Text} :
    (nextLexeme c rest).1 = .lineComment body → ∃ r, (nextLexeme c rest).2 = (cutLine r).2 := by
  fun_cases nextLexeme c rest <;> intro h <;> cases h
  exact ⟨_, rfl⟩

/-- A line comment is followed by the line feed that ends its line, or by nothing. -/
theorem lineComment_next {front back : List Lexeme} {body : Text} {l : Lexeme}
    (h : lexemes t = front ++ .lineComment body :: l :: back) : l = .code '\n' := by
  fun_induction lexemes t generalizing front with
  | case1 => exact absurd h (by simp)
  | case2 c rest ih =>
    cases front with
    | cons first front => exact ih (List.cons.inj h).2
    | nil =>
      obtain ⟨hfirst, hnext⟩ := List.cons.inj h
      obtain ⟨r, hr⟩ := snd_of_nextLexeme_lineComment hfirst
      rw [hr] at hnext
      cases hcut : (cutLine r).2 with
      | nil =>
        rw [hcut, lexemes] at hnext
        exact absurd hnext (by simp)
      | cons d behind =>
        have hd : d = '\n' := by
          have hstop := List.head?_dropWhile_not (· != '\n') r
          rw [show r.dropWhile (· != '\n') = d :: behind from hcut] at hstop
          simpa using hstop
        rw [hcut, hd, lexemes_of_next rfl] at hnext
        exact (List.cons.inj hnext).1.symm

/-- Nothing stands in front of a character of code without leaving something, unless the character
is a line feed. -/
theorem eq_nil_of_code {front mid back : List Lexeme} {d : Char}
    (h : lexemes t = front ++ (mid ++ .code d :: back)) (hmid : mid.flatMap Lexeme.erased = [])
    (hd : d ≠ '\n') : mid = [] := by
  have hempty : ∀ l ∈ mid, l.erased = [] := List.flatMap_eq_nil_iff.1 hmid
  cases mid with
  | nil => rfl
  | cons l mid =>
    obtain ⟨body, rfl⟩ := Lexeme.eq_lineComment_of_erased (hempty l List.mem_cons_self)
    cases mid with
    | nil => exact absurd (Lexeme.code.inj (lineComment_next h)) hd
    | cons next mid =>
      have hnext : next.erased = [] := hempty next (by simp)
      rw [lineComment_next h] at hnext
      exact absurd hnext (by decide)

/-- Characters that are neighbours in the output were neighbours in the input, unless one is a line
feed. -/
theorem Copied.succ {i i' j : Nat} {c d : Char} (hc : Copied t i j c) (hd : Copied t i' (j + 1) d)
    (hfeed : d ≠ '\n') : i' = i + 1 := by
  obtain ⟨front, back, hls, rfl, rfl⟩ := copied_iff.1 hc
  obtain ⟨front', back', hls', rfl, hj'⟩ := copied_iff.1 hd
  rcases List.append_eq_append_iff.1 (hls.symm.trans hls') with ⟨mid, hmid, hback⟩ | ⟨mid, hmid, -⟩
  · cases mid with
    | nil =>
      rw [hmid, List.append_nil] at hj'
      omega
    | cons l mid =>
      obtain ⟨rfl, hback⟩ := List.cons.inj hback
      have hnone : mid.flatMap Lexeme.erased = [] := by
        rw [hmid, List.flatMap_append, List.flatMap_cons, List.length_append,
          List.length_append] at hj'
        have : (Lexeme.code c).erased.length = 1 := rfl
        exact List.eq_nil_of_length_eq_zero (by omega)
      have hat : lexemes t = (front ++ [.code c]) ++ (mid ++ .code d :: back') := by
        rw [hls', hmid]
        simp
      obtain rfl := eq_nil_of_code hat hnone hfeed
      rw [hmid, List.flatMap_append, List.length_append]
      rfl
  · -- the second character would have been written no later than the first one
    rw [hmid, List.flatMap_append, List.length_append] at hj'
    omega

/-! ## Lines are kept -/

/-- Erasing keeps every character of code on its line, and next to its neighbours there. -/
structure KeepsLines (t : Text) : Prop where
  /-- The pass ends behind the text, and what it has written then is the erased source. -/
  ends : Reaches t t.length (erase t)
  /-- No line feed is lost and none is added. -/
  feeds : Text.lineFeeds (erase t) = Text.lineFeeds t
  /-- Wherever the pass stands, it has written as many line feeds as it has passed over. -/
  feeds_so_far : ∀ {i : Nat} {out : Text}, Reaches t i out →
    Text.lineFeeds out = Text.lineFeeds (t.take i)
  /-- A character that is copied stands on the same line of input and output. -/
  same_line : ∀ {i j : Nat} {c : Char}, Copied t i j c →
    t[i]? = some c ∧ (erase t)[j]? = some c ∧
      Text.lineFeeds ((erase t).take j) = Text.lineFeeds (t.take i)
  /-- Copied characters that are neighbours in the output, on one line, were neighbours in the
  input. -/
  neighbours : ∀ {i i' j : Nat} {c d : Char}, Copied t i j c → Copied t i' (j + 1) d →
    c ≠ '\n' → d ≠ '\n' → i' = i + 1

/-- Every text keeps its lines when it is erased, however malformed its lexemes are. -/
theorem keepsLines (t : Text) : KeepsLines t where
  ends := reaches_erase t
  feeds := lineFeeds_erase t
  feeds_so_far := Reaches.lineFeeds_eq
  same_line := Copied.lineFeeds_eq
  neighbours := fun hc hd _ hfeed => hc.succ hd hfeed

/-! ## Words of code -/

/-- The characters that are left of comments and literals. -/
def isLeft (c : Char) : Bool := [' ', '"', '\'', '@', '$', '\n'].contains c

/-- What is left of a lexeme is the lexeme itself, a character of code, or no more than marks, a
space and line feeds. -/
theorem eq_code_of_mem_erased {c : Char} {rest : Text} {d : Char} (hd : isLeft d = false) :
    d ∈ (nextLexeme c rest).1.erased → (nextLexeme c rest).1 = .code d := by
  have hfeeds : ∀ body, d ∉ Text.onlyLineFeeds body := by
    intro body hmem
    obtain rfl : d = '\n' := by simpa using (List.mem_filter.1 hmem).2
    exact absurd hd (by decide)
  have hquotes : ∀ n, d ∉ List.replicate n '"' := by
    intro n hmem
    obtain rfl := List.eq_of_mem_replicate hmem
    exact absurd hd (by decide)
  simp only [isLeft, List.contains_eq_mem, decide_eq_false_iff_not, List.mem_cons, not_or] at hd
  fun_cases nextLexeme c rest <;>
    simp_all [Lexeme.erased, eq_comm]

/-- A character of the erased source that is left of no comment and no literal was read as code. -/
theorem exists_code {front ls : List Lexeme} {c : Char} {u v : Text} (h : lexemes t = front ++ ls)
    (hls : ls.flatMap Lexeme.erased = u ++ c :: v) (hc : isLeft c = false) :
    ∃ mid back, ls = mid ++ .code c :: back ∧ mid.flatMap Lexeme.erased = u ∧
      back.flatMap Lexeme.erased = v := by
  induction ls generalizing front u with
  | nil => exact absurd hls (by simp)
  | cons l ls ih =>
    have hnext : lexemes t = (front ++ [l]) ++ ls := by
      rw [h, List.append_assoc, List.singleton_append]
    rw [List.flatMap_cons] at hls
    -- the character is left of this lexeme or of one behind it
    rcases List.append_eq_append_iff.1 hls with ⟨u', rfl, hmore⟩ | ⟨w, hl, hmore⟩
    · obtain ⟨mid, back, rfl, rfl, hback⟩ := ih hnext hmore
      exact ⟨l :: mid, back, rfl, List.flatMap_cons, hback⟩
    · cases w with
      | nil =>
        rw [List.append_nil] at hl
        obtain ⟨mid, back, rfl, hmid, hback⟩ := ih (u := []) hnext hmore.symm
        refine ⟨l :: mid, back, rfl, ?_, hback⟩
        rw [List.flatMap_cons, hmid, hl, List.append_nil]
      | cons d w =>
        obtain ⟨rfl, rfl⟩ := List.cons.inj hmore
        have hmem : l ∈ lexemes t := by
          rw [h]
          exact List.mem_append_right front List.mem_cons_self
        obtain rfl : l = .code c :=
          forall_mem_lexemes (p := fun l => c ∈ l.erased → l = .code c)
            (fun _ _ => eq_code_of_mem_erased hc) t l hmem (by rw [hl]; simp)
        obtain ⟨rfl, rfl⟩ : u = [] ∧ w = [] := by
          cases u with
          | nil => exact ⟨rfl, (List.cons.inj hl).2.symm⟩
          | cons e u => exact absurd (List.cons.inj hl).2 (by simp)
        exact ⟨[], ls, rfl, rfl, rfl⟩

/-- Neighbouring characters of that kind were read one directly after another. -/
theorem exists_word {front ls : List Lexeme} {c : Char} {w u v : Text} (h : lexemes t = front ++ ls)
    (hls : ls.flatMap Lexeme.erased = u ++ (c :: w ++ v))
    (hw : ∀ d ∈ c :: w, isLeft d = false) :
    ∃ mid back, ls = mid ++ ((c :: w).map Lexeme.code ++ back) ∧
      mid.flatMap Lexeme.erased = u := by
  induction w generalizing c front ls u with
  | nil =>
    obtain ⟨mid, back, hmid, hu, -⟩ := exists_code h hls (hw c List.mem_cons_self)
    exact ⟨mid, back, hmid, hu⟩
  | cons d w ih =>
    obtain ⟨mid, back, rfl, hu, hback⟩ := exists_code h hls (hw c List.mem_cons_self)
    have hnext : lexemes t = (front ++ mid ++ [.code c]) ++ back := by
      rw [h]
      simp
    obtain ⟨gap, behind, rfl, hgap⟩ :=
      ih (u := []) hnext hback fun e he => hw e (List.mem_cons_of_mem c he)
    have hd : d ≠ '\n' := by
      rintro rfl
      exact absurd (hw '\n' (by simp)) (by decide)
    obtain rfl := eq_nil_of_code hnext hgap hd
    exact ⟨mid, behind, rfl, hu⟩

end RazorViews.Source
