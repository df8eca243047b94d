import RazorViews.Proofs.Canonical.Lines
import RazorViews.Proofs.Metadata.Lengths
import RazorViews.Proofs.Property.Reworded

/-!
# Bounds that no annotation gives

An annotation gives a bound by an integer literal: as code, behind a word that asks for it, up to a
comma or the closing parenthesis (`GivesGreatest`, `GivesLeast`).  The patterns know neither quoted
text from code nor the end of a literal.

## What is proved

`ofAttributes_lengths` is about every list of annotations that can be read.

* It says which bound is read: the number furthest to the left of those that can be read in the last
  annotation of which one can (`Decides`).  In quotes it counts as well as outside, and it may be
  the beginning of a longer literal: the caption `"MaxLength(5)"` gives the bound 5, and so does
  `MaxLength(5_000)`.
* It says when this is sound: if whatever can be read is read in code and to the end of its literal
  (`IsGenuine`), then each bound is one that an annotation gives.

What a literal says is defined by the language and not by the reader (`literal?`): decimal or
hexadecimal, with underscores between the digits.

## What it is not

The condition `IsGenuine` is not necessary, since what is read wrongly in one annotation may be
given by another.  Nor is it claimed that every bound which is given is read; a hexadecimal one is
not.

## The proof

What the patterns can read, and behind what, is said without them by `Marked` and `Opened`.  Where a
reading stands in code, its characters are lexemes of the annotation, and they are a word, a mark
and a whole literal (`Marked.exists_supplied`, `Opened.exists_within`).
-/

namespace RazorViews

/-! ## Integer literals -/

namespace Number

/-- A hexadecimal digit. -/
def isHexDigit (c : Char) : Bool := c.isDigit || ('a' ≤ c.toLower && c.toLower ≤ 'f')

/-- The value of a hexadecimal digit. -/
def hexValue (c : Char) : Nat :=
  if c.isDigit then c.toNat - '0'.toNat else c.toLower.toNat - 'a'.toNat + 10

/-- The value of digits with underscores among them; the last one is a digit. -/
def separated? (base : Nat) (isDigit : Char → Bool) (t : Text) : Option Nat :=
  if t.getLast?.any isDigit && t.all (fun c => isDigit c || c == '_') then
    some ((t.filter isDigit).foldl (fun v c => base * v + hexValue c) 0)
  else none

/-- The value of an integer literal of C#, hexadecimal or decimal. -/
def literal? : Text → Option Nat
  | '0' :: 'x' :: t => separated? 16 isHexDigit t
  | '0' :: 'X' :: t => separated? 16 isHexDigit t
  | t => if t.head? == some '_' then none else separated? 10 Char.isDigit t

variable {digits : Text}

theorem separated?_digits (hne : digits ≠ []) (h : ∀ c ∈ digits, c.isDigit = true) :
    separated? 10 Char.isDigit digits =
      some (valueOnto 0 (digits.map fun c => c.toNat - '0'.toNat)) := by
  have hlast : digits.getLast?.any Char.isDigit = true := by
    rw [List.getLast?_eq_some_getLast hne]
    exact h _ (List.getLast_mem hne)
  have hall : digits.all (fun c => c.isDigit || c == '_') = true :=
    List.all_eq_true.2 fun c hc => by rw [h c hc, Bool.true_or]
  rw [separated?, if_pos (by rw [hlast, hall]; rfl), List.filter_eq_self.2 h, valueOnto,
    List.foldl_map]
  refine congrArg some (List.foldl_ext _ _ 0 fun v c hc => ?_)
  rw [hexValue, if_pos (h c hc)]

/-- Digits without anything else are a decimal literal. -/
theorem literal?_digits (hne : digits ≠ []) (h : ∀ c ∈ digits, c.isDigit = true) :
    literal? digits = some (valueOnto 0 (digits.map fun c => c.toNat - '0'.toNat)) := by
  fun_cases literal? digits with
  | case1 t => exact absurd (h 'x' (by simp)) (by decide)
  | case2 t => exact absurd (h 'X' (by simp)) (by decide)
  | case3 t _ _ hhead =>
    have hmem := List.mem_of_mem_head? (beq_iff_eq.1 hhead)
    exact absurd (h '_' hmem) (by decide)
  | case4 => exact separated?_digits hne h

example : literal? "1_000".toList = some 1000 ∧ literal? "0x1_F".toList = some 31 ∧
    literal? "1_".toList = none := by decide

theorem digitValue?_isDigit {c : Char} (h : c.isDigit = true) :
    Text.digitValue? c = some (c.toNat - '0'.toNat) := by
  obtain ⟨-, hle⟩ := Char.isDigit_iff_toNat.1 h
  rw [Text.digitValue?, if_pos (Nat.lt_of_le_of_lt hle (by decide)), if_pos h]

theorem isDecimal_of_isDigit {c : Char} (h : c.isDigit = true) : Text.isDecimal c = true := by
  rw [Text.isDecimal, digitValue?_isDigit h]
  rfl

theorem asciiDigit_eq {c : Char} (h : c.isDigit = true) : asciiDigit c = c := by
  obtain ⟨hle, -⟩ := Char.isDigit_iff_toNat.1 h
  rw [asciiDigit, digitValue?_isDigit h, Option.getD_some, Nat.sub_add_cancel hle, Char.ofNat_toNat]

end Number

/-! ## Cuts between lexemes -/

namespace Source

variable {t front w rest : Text}

/-- The part `front` of the text is made of whole lexemes, so what follows it is not inside a
comment or literal. -/
def IsCut (t front : Text) : Prop :=
  ∃ ls back, lexemes t = ls ++ back ∧ ls.flatMap Lexeme.written = front

theorem lexemes_code (h : ∀ c ∈ w, Canonical.isCode c = true) (rest : Text) :
    lexemes (w ++ rest) = w.map Lexeme.code ++ lexemes rest := by
  have hls := lexemes_segments (Canonical.allFit_code h rest)
  rwa [Canonical.flatMap_code_written, List.map_map] at hls

/-- Behind a cut code is read as code. -/
theorem IsCut.exists_lexemes (h : IsCut t front) (ht : t = front ++ (w ++ rest))
    (hw : ∀ c ∈ w, Canonical.isCode c = true) :
    ∃ ls, ls.flatMap Lexeme.written = front ∧
      lexemes t = ls ++ (w.map Lexeme.code ++ lexemes rest) := by
  obtain ⟨ls, back, hls, rfl⟩ := h
  have hback := (reaches_of_append hls).2
  rw [ht, List.drop_left, lexemes_code hw] at hback
  exact ⟨ls, rfl, by rw [hls, hback]⟩

/-- In text without marks of comments and literals every place is a cut. -/
theorem isCut_of_code (h : ∀ c ∈ t, Canonical.isCode c = true) (hfront : front <+: t) :
    IsCut t front := by
  obtain ⟨rest, rfl⟩ := hfront
  exact ⟨front.map Lexeme.code, lexemes rest,
    lexemes_code (fun c hc => h c (List.mem_append_left rest hc)) rest, flatMap_written_code front⟩

/-- In front of a cut stand the lexemes in front of an earlier one. -/
theorem isPrefix_of_written {ls ls' back back' : List Lexeme} (h : lexemes t = ls ++ back)
    (h' : lexemes t = ls' ++ back')
    (hle : ls.flatMap Lexeme.written <+: ls'.flatMap Lexeme.written) : ls <+: ls' := by
  rcases List.append_eq_append_iff.1 (h.symm.trans h') with ⟨more, rfl, -⟩ | ⟨more, rfl, rfl⟩
  · exact List.prefix_append ls more
  · cases more with
    | nil => simp
    | cons l more =>
      have hne : l.written ≠ [] :=
        forall_mem_lexemes (p := fun l => l.written ≠ []) Lexeme.written_ne_nil t l (by simp [h'])
      have hpos := List.length_pos_iff.2 hne
      have := hle.length_le
      simp only [List.flatMap_append, List.flatMap_cons, List.length_append] at this
      omega

end Source

/-! ## What annotations give -/

namespace Metadata

open Pattern Source

/-- One of the words, the mark and an integer literal of value `n`, with white space about them, all
of it code behind `front`.  A comma or a parenthesis ends the literal. -/
structure Supplied (words : List String) (mark : Char) (t : Text) (front : List Lexeme)
    (n : Nat) : Prop where
  edge : isWordSide (front.flatMap Lexeme.written).getLast? = false
  split : ∃ word ∈ words, ∃ (s s' s'' literal : Text) (stop : Char) (back : List Lexeme),
    (∀ c ∈ s ++ s' ++ s'', Text.isBlank c = true) ∧ (stop = ',' ∨ stop = ')') ∧
    Number.literal? literal = some n ∧
    lexemes t = front ++
      ((word.toList ++ s ++ [mark] ++ s' ++ literal ++ s'' ++ [stop]).map Lexeme.code ++ back)

/-- Behind `front` a call begins, and `inner` goes on within its parentheses, as code. -/
structure Within (name : String) (front inner : List Lexeme) : Prop where
  edge : isWordSide (front.flatMap Lexeme.written).getLast? = false
  split : ∃ (s : Text) (mid : List Lexeme), (∀ c ∈ s, Text.isBlank c = true) ∧
    .code ')' ∉ mid ∧ inner = front ++ ((name.toList ++ s ++ ['(']).map Lexeme.code ++ mid)

/-- The annotation gives a greatest length. -/
def GivesGreatest (t : Text) (n : Nat) : Prop := ∃ front, Supplied greatestWords '(' t front n

/-- The annotation gives a least length. -/
def GivesLeast (t : Text) (n : Nat) : Prop :=
  (∃ front, Supplied ["MinLength"] '(' t front n) ∨
    ∃ front inner, Within "StringLength" front inner ∧ Supplied ["MinimumLength"] '=' t inner n

/-! ## Readings of what is given -/

/-- The digits are ASCII digits, and all there is of a literal. -/
structure IsWhole (digits behind : Text) : Prop where
  isDigit : ∀ c ∈ digits, c.isDigit = true
  stop : ∃ (s : Text) (c : Char) (rest : Text), (∀ b ∈ s, Text.isBlank b = true) ∧
    (c = ',' ∨ c = ')') ∧ behind = s ++ c :: rest

/-- Wherever a length bound can be read of the text, it is read in code and to its end. -/
structure IsGenuine (t : Text) : Prop where
  greatest : ∀ {front digits behind : Text}, Marked greatestWords '(' t front digits behind →
    IsCut t front ∧ IsWhole digits behind
  least : ∀ {front digits behind : Text}, Marked ["MinLength"] '(' t front digits behind →
    IsCut t front ∧ IsWhole digits behind
  assigned : ∀ {front inner digits behind : Text}, Opened "StringLength" front inner →
    Marked ["MinimumLength"] '=' t inner digits behind →
    IsCut t front ∧ IsCut t inner ∧ IsWhole digits behind

variable {words : List String} {mark : Char} {t front inner digits behind : Text} {n : Nat}

theorem literal?_of_number? (hne : digits ≠ []) (h : ∀ c ∈ digits, c.isDigit = true)
    (hdecimal : ∀ c ∈ digits, Text.isDecimal c = true) (hn : number? digits = some n) :
    Number.literal? digits = some n := by
  have hascii : digits.map Number.asciiDigit = digits :=
    (List.map_congr_left fun c hc => Number.asciiDigit_eq (h c hc)).trans (List.map_id' digits)
  rw [number?, Number.readInt?_decimals hne hdecimal, hascii] at hn
  split at hn
  · rw [Number.literal?_digits hne h]
    simpa using hn
  · exact absurd hn (by simp)

theorem isCode_of_isBlank {c : Char} (h : Text.isBlank c = true) : Canonical.isCode c = true :=
  Canonical.isCode_of (by decide +kernel) h

theorem isCode_of_isWord {c : Char} (h : Text.isWord c = true) : Canonical.isCode c = true :=
  Canonical.isCode_of (by decide) h

/-- Digits that are read in code and to their end are given. -/
theorem Marked.exists_supplied (h : Marked words mark t front digits behind)
    (hapart : Apart words mark) (hmark : Canonical.isCode mark = true) (hcut : IsCut t front)
    (hwhole : IsWhole digits behind) (hn : number? digits = some n) :
    ∃ ls, ls.flatMap Lexeme.written = front ∧ Supplied words mark t ls n := by
  obtain ⟨word, hword, s, s', hs, hs', ht⟩ := h.split
  obtain ⟨s'', stop, rest, hs'', hstop, rfl⟩ := hwhole.stop
  have hcode : ∀ c ∈ word.toList ++ s ++ [mark] ++ s' ++ digits ++ s'' ++ [stop],
      Canonical.isCode c = true := by
    simp only [List.forall_mem_append, List.forall_mem_singleton]
    refine ⟨⟨⟨⟨⟨⟨?_, ?_⟩, hmark⟩, ?_⟩, ?_⟩, ?_⟩, ?_⟩
    · exact fun c hc => isCode_of_isWord ((hapart.isWord word hword).isWord c hc)
    · exact fun c hc => isCode_of_isBlank (hs c hc)
    · exact fun c hc => isCode_of_isBlank (hs' c hc)
    · exact fun c hc => Canonical.isCode_of (by decide) (hwhole.isDigit c hc)
    · exact fun c hc => isCode_of_isBlank (hs'' c hc)
    · rcases hstop with rfl | rfl <;> decide
  have hsplit : t = front ++
      ((word.toList ++ s ++ [mark] ++ s' ++ digits ++ s'' ++ [stop]) ++ rest) := by simpa using ht
  obtain ⟨ls, hls, hlexemes⟩ := hcut.exists_lexemes hsplit hcode
  refine ⟨ls, hls, by rw [hls]; exact h.edge, word, hword, s, s', s'', digits, stop, lexemes rest,
    ?_, hstop, literal?_of_number? h.ne_nil hwhole.isDigit h.isDecimal hn, hlexemes⟩
  exact List.forall_mem_append.2 ⟨List.forall_mem_append.2 ⟨hs, hs'⟩, hs''⟩

theorem Supplied.isPrefix {ls : List Lexeme} (h : Supplied words mark t ls n) :
    ls <+: lexemes t := by
  obtain ⟨_, -, _, _, _, _, _, _, -, -, -, hsplit⟩ := h.split
  exact ⟨_, hsplit.symm⟩

/-- A character of all the words is read as code. -/
theorem Supplied.code_mem {ls : List Lexeme} {c : Char} (h : Supplied words mark t ls n)
    (hc : ∀ word ∈ words, c ∈ word.toList) : .code c ∈ lexemes t := by
  obtain ⟨word, hword, _, _, _, _, _, _, -, -, -, hsplit⟩ := h.split
  rw [hsplit]
  simp [hc word hword]

/-- A call that begins in code leads to cuts within its parentheses. -/
theorem Opened.exists_within {name : String} {ls : List Lexeme} (h : Opened name front inner)
    (hname : IsWord name.toList) (hcut : IsCut t front) (hfront : ls <+: lexemes t)
    (hinner : ls.flatMap Lexeme.written = inner) : ∃ ls', Within name ls' ls := by
  obtain ⟨back, hls⟩ := hfront
  obtain ⟨s, mid, hs, hmid, hsplit⟩ := h.split
  have ht : t = front ++ ((name.toList ++ s ++ ['(']) ++ (mid ++ back.flatMap Lexeme.written)) := by
    rw [← flatMap_written_lexemes t, ← hls, List.flatMap_append, hinner, hsplit]
    simp
  have hcode : ∀ c ∈ name.toList ++ s ++ ['('], Canonical.isCode c = true := by
    simp only [List.forall_mem_append, List.forall_mem_singleton]
    exact ⟨⟨fun c hc => isCode_of_isWord (hname.isWord c hc),
      fun c hc => isCode_of_isBlank (hs c hc)⟩, by decide⟩
  obtain ⟨ls', hls', hlexemes⟩ := hcut.exists_lexemes ht hcode
  have hwritten : (ls' ++ (name.toList ++ s ++ ['(']).map Lexeme.code).flatMap Lexeme.written =
      front ++ (name.toList ++ s ++ ['(']) := by
    rw [List.flatMap_append, hls', flatMap_written_code]
  obtain ⟨mid', rfl⟩ := isPrefix_of_written (hlexemes.trans (List.append_assoc ..).symm)
    hls.symm (by rw [hwritten, hinner, hsplit]; exact ⟨mid, by simp⟩)
  have hmid' : mid'.flatMap Lexeme.written = mid := by
    rw [List.flatMap_append, hwritten, hsplit] at hinner
    simpa using hinner
  refine ⟨ls', by rw [hls']; exact h.edge, s, mid', hs, ?_, List.append_assoc ..⟩
  intro hmem
  refine hmid (hmid' ▸ List.mem_flatMap.2 ⟨_, hmem, ?_⟩)
  exact List.mem_singleton_self ')'

/-! ## Plain annotations -/

/-- In the call of a word with digits only, the digits are read to their end. -/
theorem Marked.isWhole {word ds : Text}
    (h : Marked words '(' (word ++ '(' :: (ds ++ [')'])) front digits behind) (hword : IsWord word)
    (hds : ∀ c ∈ ds, c.isDigit = true) : IsWhole digits behind := by
  obtain ⟨w, -, s, s', -, hs', hsplit⟩ := h.split
  have hblank : ∀ c ∈ ds ++ [')'], Text.isBlank c = false := by
    refine List.forall_mem_append.2 ⟨fun c hc => ?_, List.forall_mem_singleton.2 (by decide)⟩
    exact Number.not_isBlank_of_isDecimal (Number.isDecimal_of_isDigit (hds c hc))
  have hopen : '(' ∉ ds ++ [')'] := by
    intro hmem
    rcases List.mem_append.1 hmem with hmem | hmem
    · exact absurd (hds '(' hmem) (by decide)
    · exact absurd hmem (by decide)
  -- there is no other parenthesis that the digits could stand behind
  have hplace : (front ++ (w.toList ++ s)) ++ '(' :: (s' ++ (digits ++ behind)) =
      word ++ '(' :: (ds ++ [')']) := by
    rw [hsplit]
    simp
  obtain ⟨-, -, hrest⟩ := (List.append_cons_inj_of_notMem
    (hword.notMem (by decide)) hopen).1 hplace.symm
  obtain rfl : s' = [] := Text.eq_nil_of_blanks hblank
    (hrest ▸ List.subset_append_left s' _) hs'
  rw [List.nil_append] at hrest
  rcases List.append_eq_append_iff.1 hrest with ⟨more, rfl, hmore⟩ | ⟨more, rfl, rfl⟩
  · cases more with
    | nil => exact ⟨by simpa using hds, [], ')', [], by simp, .inr rfl, hmore.symm⟩
    | cons c more =>
      obtain ⟨rfl, -⟩ := List.cons.inj hmore
      exact absurd (h.isDecimal ')' (by simp)) (by decide)
  · cases more with
    | nil => exact ⟨by simpa using hds, [], ')', [], by simp, .inr rfl, rfl⟩
    | cons c more =>
      have hc := h.maximal c rfl
      rw [Number.isDecimal_of_isDigit (hds c (by simp))] at hc
      exact absurd hc (by simp)

/-- The call of a word with digits only is genuine. -/
theorem isGenuine_call {word ds : Text} (hword : IsWord word) (hds : ∀ c ∈ ds, c.isDigit = true) :
    IsGenuine (word ++ '(' :: (ds ++ [')'])) := by
  have hcode : ∀ c ∈ word ++ '(' :: (ds ++ [')']), Canonical.isCode c = true := by
    simp only [List.forall_mem_append, List.forall_mem_cons]
    exact ⟨fun c hc => isCode_of_isWord (hword.isWord c hc), by decide,
      fun c hc => Canonical.isCode_of (by decide) (hds c hc), by decide, by simp⟩
  refine ⟨fun h => ⟨isCut_of_code hcode h.isPrefix, h.isWhole hword hds⟩,
    fun h => ⟨isCut_of_code hcode h.isPrefix, h.isWhole hword hds⟩, fun _ h => ?_⟩
  obtain ⟨_, -, _, _, -, -, hsplit⟩ := h.split
  have hmem : '=' ∈ word ++ '(' :: (ds ++ [')']) := by
    rw [hsplit]
    simp
  simp only [List.mem_append, List.mem_cons] at hmem
  rcases hmem with hmem | hmem | hmem | hmem
  · exact absurd hmem (hword.notMem (by decide))
  · exact absurd hmem (by decide)
  · exact absurd (hds '=' hmem) (by decide)
  · exact absurd hmem (by decide)

/-! ## Bounds that are given -/

theorem FirstRead.exists_read {readings : List Reading} (h : FirstRead readings t digits) :
    ∃ R ∈ readings, ∃ front, R t front digits := by
  induction readings with
  | nil => exact h.elim
  | cons R readings ih =>
    rcases h with ⟨front, hread, -⟩ | ⟨-, hread⟩
    · exact ⟨R, List.mem_cons_self, front, hread⟩
    · obtain ⟨R', hR', hread'⟩ := ih hread
      exact ⟨R', List.mem_cons_of_mem R hR', hread'⟩

/-- The number that decides is read somewhere. -/
theorem Decides.exists_read {readings : List Reading} {bodies : List Text}
    (h : Decides readings bodies n) :
    ∃ t ∈ bodies, ∃ R ∈ readings, ∃ front digits, R t front digits ∧ number? digits = some n := by
  obtain ⟨before, t, after, digits, rfl, hread, hn, -⟩ := h
  obtain ⟨R, hR, front, hfront⟩ := hread.exists_read
  exact ⟨t, by simp, R, hR, front, digits, hfront, hn⟩

theorem IsGenuine.givesGreatest {R : Reading} (h : IsGenuine t) (hR : R ∈ greatestReadings)
    (hread : R t front digits) (hn : number? digits = some n) : GivesGreatest t n := by
  obtain rfl := List.mem_singleton.1 hR
  obtain ⟨behind, hmarked⟩ := hread
  obtain ⟨hcut, hwhole⟩ := h.greatest hmarked
  obtain ⟨ls, -, hgiven⟩ := hmarked.exists_supplied apart_greatestWords (by decide) hcut hwhole hn
  exact ⟨ls, hgiven⟩

theorem IsGenuine.givesLeast {R : Reading} (h : IsGenuine t) (hR : R ∈ leastReadings)
    (hread : R t front digits) (hn : number? digits = some n) : GivesLeast t n := by
  rcases List.mem_pair.1 hR with rfl | rfl
  · obtain ⟨behind, hmarked⟩ := hread
    obtain ⟨hcut, hwhole⟩ := h.least hmarked
    obtain ⟨ls, -, hgiven⟩ := hmarked.exists_supplied apart_minLength (by decide) hcut hwhole hn
    exact .inl ⟨ls, hgiven⟩
  · obtain ⟨inner, behind, hopened, hmarked, -⟩ := hread
    obtain ⟨hcut, hcut', hwhole⟩ := h.assigned hopened hmarked
    obtain ⟨ls, hls, hgiven⟩ :=
      hmarked.exists_supplied apart_minimumLength (by decide) hcut' hwhole hn
    obtain ⟨ls', hwithin⟩ := hopened.exists_within isWord_stringLength hcut hgiven.isPrefix hls
    exact .inr ⟨ls', ls, hwithin, hgiven⟩

/-- **Where bounds come from.**  The length bounds are the numbers that are read furthest to the
left in the last body of which anything is read, be it quoted, and be the literal longer.  If
whatever can be read is read in code and to its end, then only integer literals of annotations for
lengths give a bound. -/
theorem ofAttributes_lengths {bodies : List Text} {m : Metadata}
    (hok : ofAttributes bodies = .ok m) :
    (∀ n, (m.maxLength = some n ↔ Decides greatestReadings bodies n) ∧
      (m.minLength = some n ↔ Decides leastReadings bodies n)) ∧
    ((∀ t ∈ bodies, IsGenuine t) → ∀ n,
      (m.maxLength = some n → ∃ t ∈ bodies, GivesGreatest t n) ∧
      (m.minLength = some n → ∃ t ∈ bodies, GivesLeast t n)) := by
  refine ⟨lengths_iff hok, fun hgenuine n => ⟨fun hmax => ?_, fun hmin => ?_⟩⟩
  · obtain ⟨t, ht, R, hR, front, digits, hread, hn⟩ := ((lengths_iff hok n).1.1 hmax).exists_read
    exact ⟨t, ht, (hgenuine t ht).givesGreatest hR hread hn⟩
  · obtain ⟨t, ht, R, hR, front, digits, hread, hn⟩ := ((lengths_iff hok n).2.1 hmin).exists_read
    exact ⟨t, ht, (hgenuine t ht).givesLeast hR hread hn⟩

/-- Two annotations that read alike: of the call, and of the caption that quotes it. -/
theorem ofAttributes_lengths_quoted :
    let call := "MaxLength(5)".toList
    let caption := "Display(Name = \"MaxLength(5)\")".toList
    ofAttributes [call] = .ok ⟨none, none, some 5, none⟩ ∧ GivesGreatest call 5 ∧
      ofAttributes [caption] = .ok ⟨some call, none, some 5, none⟩ ∧
      (∀ n, ¬ GivesGreatest caption n) ∧ ¬ IsGenuine caption := by
  intro call caption
  have hcall : ofAttributes [call] = .ok ⟨none, none, some 5, none⟩ := by decide +kernel
  have hcaption : ofAttributes [caption] = .ok ⟨some call, none, some 5, none⟩ := by decide +kernel
  have hword : IsWord "MaxLength".toList := isWord_literal (by decide) (by decide)
  have hdigits : ∀ c ∈ "5".toList, c.isDigit = true := Canonical.forall_mem_of_all (by decide)
  have hgenuine : IsGenuine call := isGenuine_call hword hdigits
  have hnone : ∀ n, ¬ GivesGreatest caption n := by
    rintro n ⟨front, hgiven⟩
    have hmem := hgiven.code_mem (c := 'g') (by decide)
    -- the letter stands in the quoted text only
    have hfits : AllFit []
        ("Display(Name = ".toList.map .code ++ [.quoted '"' call, .code ')']) := by decide
    have hmem' : Lexeme.code 'g' ∈ _ := lexemes_segments hfits ▸ hmem
    rw [lexemes, List.append_nil] at hmem'
    exact absurd hmem' (by decide)
  obtain ⟨_, ht, hgiven⟩ := ((ofAttributes_lengths hcall).2
    (List.forall_mem_singleton.2 hgenuine) 5).1 rfl
  obtain rfl := List.mem_singleton.1 ht
  refine ⟨hcall, hgiven, hcaption, hnone, fun hquoted => ?_⟩
  obtain ⟨_, ht, hgiven⟩ := ((ofAttributes_lengths hcaption).2
    (List.forall_mem_singleton.2 hquoted) 5).1 rfl
  obtain rfl := List.mem_singleton.1 ht
  exact hnone 5 hgiven

end Metadata

end RazorViews
