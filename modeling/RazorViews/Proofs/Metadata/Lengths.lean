import RazorViews.Proofs.Metadata.Opening

/-!
# Where a length bound is read

The patterns for length bounds look for a word, a mark behind it and digits, wherever they stand in
the text of an annotation: `Marked`.  Of several such places the leftmost one counts, and the digits
are read as far as there are any.  Nothing is asked of what stands in front but that the word begins
there, nor of what the digits go on with, nor whether any of it is quoted.

A least length may also be given to a named argument of a call, and then the call has to be open: no
closing parenthesis stands between its name and the argument (`Opened`).

`lengths_iff` says without patterns which number is a bound: the one that is read furthest to the
left in the last annotation of which one can be read.  For this each pattern is shown to find what
there is to read and to keep it (`Finds`), which comes down to what it prefers from the leftmost
place (`Marked.prefers`, `exists_prefers_enclosed`).

Whether what is read is what the annotation means is the matter of `ofAttributes_lengths`.
-/

namespace RazorViews.Metadata

open Pattern

/-! ## Words with digits behind them -/

/-- One of the words, the mark behind it and digits, with white space about the mark, as they stand
behind `front`.  The digits go on until something else comes. -/
structure Marked (words : List String) (mark : Char) (t front digits behind : Text) : Prop where
  edge : isWordSide front.getLast? = false
  split : ∃ word ∈ words, ∃ s s' : Text, (∀ c ∈ s, Text.isBlank c = true) ∧
    (∀ c ∈ s', Text.isBlank c = true) ∧
    t = front ++ (word.toList ++ (s ++ ([mark] ++ (s' ++ (digits ++ behind)))))
  ne_nil : digits ≠ []
  isDecimal : ∀ c ∈ digits, Text.isDecimal c = true
  maximal : ∀ c ∈ behind.head?, Text.isDecimal c = false

/-- The pattern for a word, a mark and digits. -/
def marked (words : List String) (mark : Char) : Pattern :=
  wordEdge ++ firstOf (words.map lit) ++ blanks ++ exactly [mark] ++ blanks ++ numeral

/-- Words of which no two begin alike, and a mark. -/
structure Apart (words : List String) (mark : Char) : Prop where
  ne_nil : words ≠ []
  isWord : ∀ word ∈ words, IsWord word.toList
  head : ∀ word ∈ words, ∀ w ∈ words, w ≠ word → w.toList.head? ≠ word.toList.head?
  mark : Text.isBlank mark = false

variable {words : List String} {mark : Char} {t u front digits behind : Text} {p q : Place}

/-- Behind `front` the pattern prefers to read all of the digits. -/
theorem Marked.prefers (h : Marked words mark t front digits behind) (hapart : Apart words mark)
    (hp : StandsBehind t front p) :
    ∃ q, (marked words mark).Prefers p q ∧ q.kept = ("value", digits) :: p.kept := by
  obtain ⟨word, hword, s, s', hs, hs', hsplit⟩ := h.split
  have hrest : p.rest = word.toList ++ (s ++ ([mark] ++ (s' ++ (digits ++ behind)))) :=
    List.append_cancel_left (hp.split.symm.trans hsplit)
  have hedge : onWordEdge p = true := by
    rw [onWordEdge_word (hapart.isWord word hword) hrest, hp.previous, h.edge]
    rfl
  have hmark : ∀ c ∈ ([mark] ++ (s' ++ (digits ++ behind))).head?, Text.isBlank c = false := by
    intro c hc
    obtain rfl : mark = c := Option.some.inj hc
    exact hapart.mark
  have hdigit : ∀ c ∈ (digits ++ behind).head?, Text.isBlank c = false := by
    obtain ⟨d, more, hd⟩ := List.exists_cons_of_ne_nil h.ne_nil
    intro c hc
    rw [hd] at hc
    obtain rfl : d = c := Option.some.inj hc
    exact Number.not_isBlank_of_isDecimal (h.isDecimal d (by simp [hd]))
  have hread : Keeps (firstOf (words.map lit) ++ blanks ++ exactly [mark] ++ blanks ++ numeral)
      (word.toList ++ s ++ [mark] ++ s' ++ digits) behind [("value", digits)] :=
    ((((readsOff_firstOf hword (fun w hw =>
      ⟨(hapart.isWord w hw).notEmpty, hapart.head word hword w hw⟩) _).append
      (readsOff_blanks hs hmark)).append (readsOff_exactly [mark] _)).append
      (readsOff_blanks hs' hdigit)).keeps.append
      ((readsOff_run1 h.ne_nil h.isDecimal h.maximal).keep "value")
  exact ⟨_, (prefers_wordEdge hedge).append (hread (by simpa using hrest)), rfl⟩

/-- Wherever the pattern can be read, digits stand behind a word and a mark. -/
theorem exists_marked (hapart : Apart words mark) (hp : StandsBehind t front p)
    (h : (marked words mark).Leads p q) :
    ∃ digits behind, Marked words mark t front digits behind := by
  obtain ⟨m, hfront, hnumeral⟩ := h
  obtain ⟨m₁, ⟨m₂, ⟨m₃, ⟨_, ⟨hedge, rfl⟩, hword⟩, hs⟩, hmark⟩, hs'⟩ := hfront
  obtain ⟨w, hreadWord, hw⟩ := hword.takes
  obtain ⟨P, hP, hw⟩ := (takes_firstOf (by simp [hapart.ne_nil])).1 hw
  obtain ⟨word, hmem, rfl⟩ := List.mem_map.1 hP
  obtain rfl := takes_lit.1 hw
  obtain ⟨s, hreadS, hs⟩ := hs.takes
  obtain ⟨_, hreadMark, hmark⟩ := hmark.takes
  obtain rfl := takes_exactly.1 hmark
  obtain ⟨s', hreadS', hs'⟩ := hs'.takes
  obtain ⟨ds, hreadDigits, hds⟩ := hnumeral.takes
  obtain ⟨hne, hdecimal⟩ := takes_run1.1 hds
  have hrest := ((((hreadWord.trans hreadS).trans hreadMark).trans hreadS').trans hreadDigits).1
  refine ⟨ds ++ q.rest.takeWhile Text.isDecimal, q.rest.dropWhile Text.isDecimal,
    ?_, ?_, ?_, ?_, ?_⟩
  · rw [onWordEdge_word (hapart.isWord word hmem) hreadWord.1, hp.previous,
      Bool.not_eq_true'] at hedge
    exact hedge
  · refine ⟨word, hmem, s, s', hs, hs', ?_⟩
    rw [hp.split, hrest]
    simp [List.takeWhile_append_dropWhile]
  · exact List.append_ne_nil_of_left_ne_nil hne _
  · exact List.forall_mem_append.2 ⟨hdecimal, List.all_eq_true.1 List.all_takeWhile⟩
  · intro c hc
    have hhead := List.head?_dropWhile_not Text.isDecimal q.rest
    rw [Option.mem_def.1 hc] at hhead
    simpa using hhead

/-! ## Readings -/

/-- What may be read of a text behind a part of it: the text, the part and what is read. -/
abbrev Reading := Text → Text → Text → Prop

/-- The pattern is found wherever there is something to read, and it keeps what is read. -/
structure Finds (P : Pattern) (R : Reading) : Prop where
  isPrefix : ∀ {t front digits : Text}, R t front digits → front <+: t
  complete : ∀ {t front digits : Text} {p : Place}, StandsBehind t front p → p.kept = [] →
    R t front digits → ∃ f, P.foundAt? p = some f ∧ f.kept? "value" = some digits
  sound : ∀ {t front : Text} {p q : Place}, StandsBehind t front p → P.Leads p q →
    ∃ digits, R t front digits

/-- What is read furthest to the left. -/
def Leftmost (R : Reading) (t digits : Text) : Prop :=
  ∃ front, R t front digits ∧
    ∀ front' digits', R t front' digits' → front.length ≤ front'.length

variable {P : Pattern} {R : Reading}

/-- What is kept is what is read furthest to the left. -/
theorem Finds.keptIn?_eq_some_iff (h : Finds P R) :
    keptIn? "value" P t = some digits ↔ Leftmost R t digits := by
  rw [keptIn?, Option.bind_eq_some_iff]
  constructor
  · rintro ⟨f, hf, hkept⟩
    obtain ⟨front, u, ht, hfound, hleft⟩ := find?_eq_some_iff.1 hf
    obtain ⟨digits', hread⟩ := h.sound (standsBehind_after ht) (foundAt?_eq_some hfound).1
    obtain ⟨f', hf', hkept'⟩ := h.complete (standsBehind_after ht) rfl hread
    obtain rfl := Option.some.inj (hfound.symm.trans hf')
    obtain rfl := Option.some.inj (hkept'.symm.trans hkept)
    refine ⟨front, hread, ?_⟩
    intro front' digits'' hread'
    obtain ⟨u', hu'⟩ := h.isPrefix hread'
    refine Nat.le_of_not_lt fun hlt => ?_
    obtain ⟨g, hg, -⟩ := h.complete (standsBehind_after hu'.symm) rfl hread'
    exact absurd (hg.symm.trans (hleft front' u' hu'.symm hlt)) (by simp)
  · rintro ⟨front, hread, hleft⟩
    obtain ⟨u, hu⟩ := h.isPrefix hread
    obtain ⟨f, hf, hkept⟩ := h.complete (standsBehind_after hu.symm) rfl hread
    refine ⟨f, find?_eq_some_iff.2 ⟨front, u, hu.symm, hf, ?_⟩, hkept⟩
    intro front' u' hu' hlt
    refine foundAt?_eq_none_iff.2 fun q hq => ?_
    obtain ⟨digits', hread'⟩ := h.sound (standsBehind_after hu') hq
    exact absurd (hleft front' digits' hread') (Nat.not_le.2 hlt)

theorem Finds.keptIn?_eq_none_iff (h : Finds P R) :
    keptIn? "value" P t = none ↔ ∀ front digits, ¬ R t front digits := by
  rw [keptIn?, Option.bind_eq_none_iff]
  constructor
  · intro hnone front digits hread
    obtain ⟨u, rfl⟩ := h.isPrefix hread
    obtain ⟨f, hf, -⟩ := h.complete (standsBehind_after rfl) rfl hread
    obtain ⟨g, hg, -⟩ := exists_find? (foundAt?_eq_some hf).1
    -- what is found furthest to the left is kept
    obtain ⟨front', u', hu', hfound, -⟩ := find?_eq_some_iff.1 hg
    obtain ⟨digits', hread'⟩ := h.sound (standsBehind_after hu') (foundAt?_eq_some hfound).1
    obtain ⟨g', hg', hkept⟩ := h.complete (standsBehind_after hu') rfl hread'
    obtain rfl := Option.some.inj (hfound.symm.trans hg')
    exact absurd (hkept.symm.trans (hnone g hg)) (by simp)
  · intro hno f hf
    obtain ⟨front, u, ht, hfound, -⟩ := find?_eq_some_iff.1 hf
    obtain ⟨digits, hread⟩ := h.sound (standsBehind_after ht) (foundAt?_eq_some hfound).1
    exact absurd hread (hno front digits)

/-- What is read of a text by the first of several readings that reads anything. -/
def FirstRead : List Reading → Text → Text → Prop
  | [], _, _ => False
  | R :: readings, t, digits =>
    Leftmost R t digits ∨ (∀ front digits', ¬ R t front digits') ∧ FirstRead readings t digits

theorem valueBy?_eq_some_iff {patterns : List Pattern} {readings : List Reading}
    (h : List.Forall₂ Finds patterns readings) :
    valueBy? patterns t = some digits ↔ FirstRead readings t digits := by
  induction h with
  | nil => simp [valueBy?, FirstRead]
  | cons hfinds _ ih =>
    rw [valueBy?_cons, Option.or_eq_some_iff, hfinds.keptIn?_eq_some_iff,
      hfinds.keptIn?_eq_none_iff, ih, FirstRead]

/-! ## The readings of length bounds -/

/-- Digits as the first argument of a call of one of the words. -/
def called (words : List String) : Reading := fun t front digits =>
  ∃ behind, Marked words '(' t front digits behind

/-- Behind `front` a call begins, and `inner` goes on within its parentheses. -/
structure Opened (name : String) (front inner : Text) : Prop where
  edge : isWordSide front.getLast? = false
  split : ∃ s mid : Text, (∀ c ∈ s, Text.isBlank c = true) ∧ ')' ∉ mid ∧
    inner = front ++ (name.toList ++ s ++ ['('] ++ mid)

/-- Digits that are assigned to an argument within the parentheses of a call, at the nearest
place. -/
def assigned (name argument : String) : Reading := fun t front digits =>
  ∃ inner behind, Opened name front inner ∧ Marked [argument] '=' t inner digits behind ∧
    ∀ inner' digits' behind', Opened name front inner' →
      Marked [argument] '=' t inner' digits' behind' → inner.length ≤ inner'.length

theorem Marked.isPrefix (h : Marked words mark t front digits behind) : front <+: t := by
  obtain ⟨_, -, _, _, -, -, rfl⟩ := h.split
  exact List.prefix_append front _

/-- What a pattern prefers to read is found. -/
theorem exists_found {kept : List (String × Text)} (hprefers : P.Prefers p q)
    (hkept : q.kept = ("value", digits) :: kept) :
    ∃ f, P.foundAt? p = some f ∧ f.kept? "value" = some digits := by
  refine ⟨_, hprefers.foundAt?, ?_⟩
  rw [Found.kept?, hkept]
  rfl

theorem finds_called (hapart : Apart words '(') : Finds (marked words '(') (called words) where
  isPrefix := fun ⟨_, hmarked⟩ => hmarked.isPrefix
  complete := by
    rintro t front digits p hp - ⟨behind, hmarked⟩
    obtain ⟨q, hprefers, hkept⟩ := hmarked.prefers hapart hp
    exact exists_found hprefers hkept
  sound := fun hp hleads => exists_marked hapart hp hleads

/-- A call leads into its parentheses. -/
theorem exists_opened {name : String} (hname : IsWord name.toList) (hp : StandsBehind t front p)
    (h : (call (lit name)).Leads p q) : ∃ inner, Opened name front inner ∧ StandsBehind t inner q ∧
      ∃ s, (∀ c ∈ s, Text.isBlank c = true) ∧ inner = front ++ (name.toList ++ s ++ ['(']) := by
  obtain ⟨_, ⟨_, ⟨_, ⟨hedge, rfl⟩, hlit⟩, hblanks⟩, hopen⟩ := h
  obtain ⟨_, hreadName, htake⟩ := hlit.takes
  obtain rfl := takes_lit.1 htake
  obtain ⟨s, hreadS, hs⟩ := hblanks.takes
  obtain ⟨_, hreadOpen, htake⟩ := hopen.takes
  obtain rfl := takes_lit.1 htake
  have hedge' : isWordSide front.getLast? = false := by
    rw [onWordEdge_word hname hreadName.1, hp.previous, Bool.not_eq_true'] at hedge
    exact hedge
  refine ⟨_, ⟨hedge', s, [], hs, List.not_mem_nil, rfl⟩, ?_, s, hs, ?_⟩
  · simpa using hp.reads ((hreadName.trans hreadS).trans hreadOpen)
  · simp

variable {name argument : String}

/-- The pattern for digits that are assigned within a call, its parts in order. -/
def enclosed (name argument : String) : Pattern :=
  call (lit name) ++ (run (· != ')') .least ++ marked [argument] '=')

theorem foundAt?_namedArgument (p : Place) :
    (namedArgument name argument numeral).foundAt? p = (enclosed name argument).foundAt? p := rfl

theorem Finds.congr {Q : Pattern} (h : Finds Q R)
    (hsame : ∀ p, P.foundAt? p = Q.foundAt? p) : Finds P R where
  isPrefix := h.isPrefix
  complete := by
    intro t front digits p hp hkept hread
    rw [hsame]
    exact h.complete hp hkept hread
  sound := by
    intro t front p q hp hleads
    obtain ⟨f, hf⟩ := exists_foundAt? hleads
    rw [hsame] at hf
    exact h.sound hp (foundAt?_eq_some hf).1

/-- If digits are assigned anywhere within a call, they are at a nearest place. -/
theorem exists_assigned {inner digits behind : Text} (hopened : Opened name front inner)
    (hmarked : Marked [argument] '=' t inner digits behind) :
    ∃ digits', assigned name argument t front digits' := by
  by_cases hnearer : ∃ inner' digits' behind', Opened name front inner' ∧
      Marked [argument] '=' t inner' digits' behind' ∧ inner'.length < inner.length
  · obtain ⟨inner', digits', behind', hopened', hmarked', hlt⟩ := hnearer
    exact exists_assigned hopened' hmarked'
  · refine ⟨digits, inner, behind, hopened, hmarked, ?_⟩
    intro inner' digits' behind' hopened' hmarked'
    exact Nat.le_of_not_lt fun hlt => hnearer ⟨inner', digits', behind', hopened', hmarked', hlt⟩
termination_by inner.length

/-- The call and what stands within it up to the argument are read, and then the digits. -/
theorem exists_prefers_enclosed (hname : IsWord name.toList) (hapart : Apart [argument] '=')
    (hp : StandsBehind t front p) (h : assigned name argument t front digits) :
    ∃ q, (enclosed name argument).Prefers p q ∧ q.kept = ("value", digits) :: p.kept := by
  obtain ⟨inner, behind, hopened, hmarked, hnearest⟩ := h
  obtain ⟨s, mid, hs, hmid, hinner⟩ := hopened.split
  obtain ⟨tail, htail⟩ := hmarked.isPrefix
  have hrest : p.rest = name.toList ++ s ++ ['('] ++ (mid ++ tail) := by
    rw [← htail, hinner] at hp
    simpa using List.append_cancel_left (hp.split.symm.trans (List.append_assoc front _ tail))
  have hwithin : ∀ w x : Text, mid = w ++ x →
      StandsBehind t (front ++ (name.toList ++ s ++ ['('] ++ w))
        ((p.after (name.toList ++ s ++ ['(']) (mid ++ tail)).after w (x ++ tail)) := by
    intro w x hsplit
    have hread := (reads_after hrest).trans
      (reads_after (p := p.after (name.toList ++ s ++ ['(']) (mid ++ tail)) (u := w)
        (v := x ++ tail) (by simp [hsplit]))
    exact hp.reads hread
  have hcall : (call (lit name)).Prefers p (p.after (name.toList ++ s ++ ['(']) (mid ++ tail)) := by
    have hedge : onWordEdge p = true := by
      rw [onWordEdge_word hname (by simpa using hrest), hp.previous, hopened.edge]
      rfl
    have hopen : ∀ c ∈ (['('] ++ (mid ++ tail)).head?, Text.isBlank c = false := by
      intro c hc
      obtain rfl : '(' = c := Option.some.inj hc
      decide
    exact (prefers_wordEdge hedge).append
      (((readsOff_exactly name.toList _).append (readsOff_blanks hs hopen)).append
        (readsOff_lit (s := "(") rfl _) hrest)
  have hlast := hwithin mid [] (List.append_nil mid).symm
  rw [List.nil_append, ← hinner] at hlast
  obtain ⟨q, hdigits, hkept⟩ := hmarked.prefers hapart hlast
  refine ⟨q, hcall.append (prefers_run_least rfl ?_ hdigits ?_), hkept⟩
  · intro c hc
    rw [bne_iff_ne]
    rintro rfl
    exact hmid hc
  · -- nothing is assigned at a place before the nearest one
    intro w x hsplit hne q' hleads
    obtain ⟨digits', behind', hmarked'⟩ := exists_marked hapart (hwithin w x hsplit) hleads
    have hopened' : Opened name front (front ++ (name.toList ++ s ++ ['('] ++ w)) :=
      ⟨hopened.edge, s, w, hs, fun hw => hmid (hsplit ▸ List.mem_append_left x hw), rfl⟩
    have hle := hnearest _ _ _ hopened' hmarked'
    have hpos := List.length_pos_iff.2 hne
    rw [hinner, hsplit] at hle
    simp only [List.length_append] at hle
    omega

theorem finds_assigned (hname : IsWord name.toList) (hapart : Apart [argument] '=') :
    Finds (namedArgument name argument numeral) (assigned name argument) := by
  refine Finds.congr (Q := enclosed name argument) ⟨?_, ?_, ?_⟩ foundAt?_namedArgument
  · rintro t front digits ⟨inner, behind, hopened, hmarked, -⟩
    obtain ⟨s, mid, -, -, hinner⟩ := hopened.split
    exact (List.prefix_append front _).trans (hinner ▸ hmarked.isPrefix)
  · intro t front digits p hp _ hread
    obtain ⟨q, hprefers, hkept⟩ := exists_prefers_enclosed hname hapart hp hread
    exact exists_found hprefers hkept
  · rintro t front p q hp ⟨m, hcall, m', hrun, hleads⟩
    obtain ⟨_, hopened, hm, s, hs, rfl⟩ := exists_opened hname hp hcall
    obtain ⟨mid, hread, hmid⟩ := hrun.takes
    obtain ⟨digits, behind, hmarked⟩ := exists_marked hapart (hm.reads hread) hleads
    refine exists_assigned ⟨hopened.edge, s, mid, hs, ?_, by simp⟩ hmarked
    intro hmem
    exact absurd (hmid ')' hmem) (by decide)

/-! ## Length bounds -/

/-- The words that ask for a greatest length. -/
def greatestWords : List String := ["MaxLength", "StringLength"]

/-- The readings of greatest lengths. -/
def greatestReadings : List Reading := [called greatestWords]

/-- The readings of least lengths, the preferred one first. -/
def leastReadings : List Reading := [called ["MinLength"], assigned "StringLength" "MinimumLength"]

theorem isWord_literal {s : String} (hne : s.toList ≠ []) (h : s.toList.all Text.isWord = true) :
    IsWord s.toList := ⟨hne, List.all_eq_true.1 h⟩

theorem isWord_stringLength : IsWord "StringLength".toList :=
  isWord_literal (by decide) (by decide)

theorem apart_greatestWords : Apart greatestWords '(' := by
  refine ⟨by decide, ?_, by decide, by decide⟩
  exact List.forall_mem_cons.2 ⟨isWord_literal (by decide) (by decide),
    List.forall_mem_singleton.2 isWord_stringLength⟩

theorem apart_singleton {word : String} (hword : IsWord word.toList)
    (hmark : Text.isBlank mark = false) : Apart [word] mark where
  ne_nil := List.cons_ne_nil word []
  isWord := List.forall_mem_singleton.2 hword
  head := by simp
  mark := hmark

theorem apart_minLength : Apart ["MinLength"] '(' :=
  apart_singleton (isWord_literal (by decide) (by decide)) (by decide)

theorem apart_minimumLength : Apart ["MinimumLength"] '=' :=
  apart_singleton (isWord_literal (by decide) (by decide)) (by decide)

theorem finds_maxLengths : List.Forall₂ Finds maxLengths greatestReadings :=
  .cons (finds_called apart_greatestWords) .nil

theorem finds_minLengths : List.Forall₂ Finds minLengths leastReadings :=
  .cons (finds_called apart_minLength)
    (.cons (finds_assigned isWord_stringLength apart_minimumLength) .nil)

/-- The last body of which anything is read gives the number, whatever else stands in it. -/
def Decides (readings : List Reading) (bodies : List Text) (n : Nat) : Prop :=
  ∃ before t after digits, bodies = before ++ t :: after ∧ FirstRead readings t digits ∧
    number? digits = some n ∧ ∀ t' ∈ after, ∀ digits', ¬ FirstRead readings t' digits'

theorem decides_cons {readings : List Reading} {bodies : List Text} {n : Nat} :
    Decides readings (t :: bodies) n ↔ Decides readings bodies n ∨
      (∀ t' ∈ bodies, ∀ digits, ¬ FirstRead readings t' digits) ∧
        ∃ digits, FirstRead readings t digits ∧ number? digits = some n := by
  constructor
  · rintro ⟨before, t', after, digits, hsplit, hread, hn, hlast⟩
    cases before with
    | nil =>
      obtain ⟨rfl, rfl⟩ := List.cons.inj hsplit
      exact .inr ⟨hlast, digits, hread, hn⟩
    | cons b before =>
      obtain ⟨rfl, rfl⟩ := List.cons.inj hsplit
      exact .inl ⟨before, t', after, digits, rfl, hread, hn, hlast⟩
  · rintro (⟨before, t', after, digits, rfl, hread, hn, hlast⟩ | ⟨hlast, digits, hread, hn⟩)
    · exact ⟨t :: before, t', after, digits, rfl, hread, hn, hlast⟩
    · exact ⟨[], t, bodies, digits, rfl, hread, hn, hlast⟩

/-- The last value that is given is the one of the last body of which anything is read. -/
theorem lastGiven_eq_some_iff {patterns : List Pattern} {readings : List Reading}
    (hfinds : List.Forall₂ Finds patterns readings) {bodies : List Text}
    (hnumber : ∀ t ∈ bodies, ∀ digits, valueBy? patterns t = some digits →
      (number? digits).isSome = true) (n : Nat) :
    lastGiven (given? patterns number?) bodies = some n ↔ Decides readings bodies n := by
  induction bodies with
  | nil =>
    constructor
    · intro h
      exact absurd h (by simp [lastGiven])
    · rintro ⟨before, t, after, -, hsplit, -⟩
      exact absurd hsplit (by simp)
  | cons t bodies ih =>
    obtain ⟨-, hbodies⟩ := List.forall_mem_cons.1 hnumber
    have hnone : lastGiven (given? patterns number?) bodies = none ↔
        ∀ t' ∈ bodies, ∀ digits, ¬ FirstRead readings t' digits := by
      rw [← Option.not_isSome_iff_eq_none, isSome_lastGiven]
      constructor
      · intro hno t' ht' digits hread
        have hvalue := (valueBy?_eq_some_iff hfinds).2 hread
        exact hno ⟨t', ht', by rw [given?, hvalue]; exact hbodies t' ht' digits hvalue⟩
      · rintro hno ⟨t', ht', hsome⟩
        obtain ⟨x, hx⟩ := Option.isSome_iff_exists.1 hsome
        obtain ⟨digits, hvalue, -⟩ := Option.bind_eq_some_iff.1 hx
        exact hno t' ht' digits ((valueBy?_eq_some_iff hfinds).1 hvalue)
    rw [lastGiven_cons, Option.or_eq_some_iff, ih hbodies, hnone, given?, Option.bind_eq_some_iff,
      decides_cons]
    simp only [valueBy?_eq_some_iff hfinds]

/-- **Which digits are a bound.**  Of what annotations say the length bounds are the numbers that
are read in the last body of which anything is read, furthest to the left. -/
theorem lengths_iff {bodies : List Text} {m : Metadata} (hok : ofAttributes bodies = .ok m)
    (n : Nat) :
    (m.maxLength = some n ↔ Decides greatestReadings bodies n) ∧
      (m.minLength = some n ↔ Decides leastReadings bodies n) := by
  rcases ofAttributes_cases bodies with ⟨m', hm', hreadable⟩ | ⟨k, hrefused, -⟩
  · obtain rfl : m' = m := Except.ok.inj (hm'.symm.trans hok)
    have hfields := Except.ok.inj (hm'.symm.trans (ofAttributes_readable hreadable))
    rw [hfields]
    exact ⟨lastGiven_eq_some_iff finds_maxLengths (fun t ht digits hdigits =>
        isSome_number? keepsNumeral_maxLengths hdigits (hreadable t ht digits (.inl hdigits))) n,
      lastGiven_eq_some_iff finds_minLengths (fun t ht digits hdigits =>
        isSome_number? keepsNumeral_minLengths hdigits (hreadable t ht digits (.inr hdigits))) n⟩
  · exact absurd (hrefused.symm.trans hok) (by simp)

end RazorViews.Metadata
