import RazorViews.Proofs.Metadata.Given
import RazorViews.Proofs.Pattern.Prefers
import RazorViews.Proofs.Text.Trim

/-!
# Where a quoted value may begin

To the patterns for captions any quote can open a value, the closing quote of another value too.
Whether it does is said by the end of the text in front of it: there stand a word and a mark, with
white space about the mark (`EndsAt`).  What stands in front of an earlier quote has no part in it,
so a text is searched from quote to quote.

* `keptIn?_namedArgument`: the text behind the first quote that opens a value of the argument is
  kept, if no closing parenthesis stands in front of it.
* `find?_namedArgument_eq_none`: nothing is found, if a closing parenthesis stands in front of the
  first such quote and the call is not begun again.
* `find?_firstArgument_eq_none`: nothing is found, if no quote opens a first argument.

These are about any text with one place in it of which something is known.  What is known of the
arguments of `Display` is put in for it in `ofAttributes_display`.  Stretches in which a value may
nowhere begin are put together by `Quiet.append`.
-/

namespace RazorViews.Metadata

open Pattern

/-! ## Words at the end of a text -/

/-- The text ends in the word, but for white space. -/
def EndsIn (word t : Text) : Prop :=
  ∃ u s, t = u ++ (word ++ s) ∧ (∀ c ∈ s, Text.isBlank c = true) ∧ isWordSide u.getLast? = false

/-- The text ends in the word and the mark behind it, but for white space. -/
def EndsAt (word : Text) (mark : Char) (t : Text) : Prop :=
  ∃ t' s, t = t' ++ mark :: s ∧ (∀ c ∈ s, Text.isBlank c = true) ∧ EndsIn word t'

/-- Word characters, at least one. -/
structure IsWord (word : Text) : Prop where
  notEmpty : word ≠ []
  isWord : ∀ c ∈ word, Text.isWord c = true

variable {word name : Text} {mark : Char} {t t' u v : Text}

theorem IsWord.notMem {c : Char} (h : IsWord word) (hc : Text.isWord c = false) : c ∉ word := by
  intro hmem
  rw [h.isWord c hmem] at hc
  exact absurd hc (by simp)

theorem notMem_of_blank {c : Char} (h : ∀ d ∈ t, Text.isBlank d = true)
    (hc : Text.isBlank c = false) : c ∉ t := by
  intro hmem
  rw [h c hmem] at hc
  exact absurd hc (by simp)

theorem isWordSide_behind {c : Char} {front w : Text}
    (h : isWordSide (front ++ c :: w).getLast? = false) : isWordSide w.getLast? = false := by
  rw [List.getLast?_append, List.getLast?_cons] at h
  cases hw : w.getLast? with
  | none => rfl
  | some d =>
    rw [hw] at h
    simpa using h

/-- What stands in front of a quote has no part in the word at the end. -/
theorem endsIn_behind_quote (hword : IsWord word) (h : EndsIn word (u ++ '"' :: v)) :
    EndsIn word v := by
  obtain ⟨front, s, hsplit, hs, hside⟩ := h
  rcases Text.append_cons_cases hsplit with ⟨w, -, hw⟩ | ⟨w, rfl, rfl⟩
  · have hmem : '"' ∈ word ++ s := hw ▸ List.mem_append_right w List.mem_cons_self
    rcases List.mem_append.1 hmem with hmem | hmem
    · exact absurd hmem (hword.notMem (by decide))
    · exact absurd hmem (notMem_of_blank hs (by decide))
  · exact ⟨w, s, rfl, hs, isWordSide_behind hside⟩

theorem endsAt_behind_quote (hword : IsWord word) (hmark : mark ≠ '"')
    (h : EndsAt word mark (u ++ '"' :: v)) : EndsAt word mark v := by
  obtain ⟨front, s, hsplit, hs, hends⟩ := h
  rcases Text.append_cons_cases hsplit with ⟨w, -, hw⟩ | ⟨w, rfl, rfl⟩
  · have hmem : '"' ∈ mark :: s := hw ▸ List.mem_append_right w List.mem_cons_self
    rcases List.mem_cons.1 hmem with heq | hmem
    · exact absurd heq.symm hmark
    · exact absurd hmem (notMem_of_blank hs (by decide))
  · exact ⟨w, s, rfl, hs, endsIn_behind_quote hword hends⟩

/-- The last character that is not white space, and what stands in front of it and behind. -/
theorem append_cons_blanks_inj {x y s s' : Text} {c d : Char} (hc : Text.isBlank c = false)
    (hd : Text.isBlank d = false) (hs : ∀ e ∈ s, Text.isBlank e = true)
    (hs' : ∀ e ∈ s', Text.isBlank e = true) (h : x ++ c :: s = y ++ d :: s') : x = y ∧ c = d := by
  rcases Text.append_cons_cases h with ⟨w, rfl, hw⟩ | ⟨w, rfl, rfl⟩
  · cases w with
    | nil => exact ⟨List.append_nil y, (List.cons.inj hw).1.symm⟩
    | cons e w =>
      obtain ⟨-, rfl⟩ := List.cons.inj hw
      exact absurd (List.mem_append_right w List.mem_cons_self) (notMem_of_blank hs' hc)
  · exact absurd (List.mem_append_right w List.mem_cons_self) (notMem_of_blank hs hd)

theorem eq_nil_of_isWordSide {w : Text} (hw : ∀ c ∈ w, Text.isWord c = true)
    (h : isWordSide (u ++ w).getLast? = false) : w = [] := by
  cases hlast : w.getLast? with
  | none => exact List.getLast?_eq_none_iff.1 hlast
  | some c =>
    rw [List.getLast?_append, hlast] at h
    rw [show isWordSide ((some c).or u.getLast?) = Text.isWord c from rfl,
      hw c (List.mem_of_getLast? hlast)] at h
    exact absurd h (by simp)

/-- The word at the end of a text is unique. -/
theorem append_word_inj (hu : isWordSide u.getLast? = false) (hv : isWordSide v.getLast? = false)
    (hname : IsWord name) (hword : IsWord word) (h : u ++ name = v ++ word) :
    u = v ∧ name = word := by
  rcases List.append_eq_append_iff.1 h with ⟨w, rfl, rfl⟩ | ⟨w, rfl, rfl⟩
  · have hw := eq_nil_of_isWordSide (fun c hc => hname.isWord c (List.mem_append_left word hc)) hv
    subst hw
    exact ⟨(List.append_nil u).symm, rfl⟩
  · have hw := eq_nil_of_isWordSide (fun c hc => hword.isWord c (List.mem_append_left name hc)) hu
    subst hw
    exact ⟨List.append_nil v, rfl⟩

/-- In front of the value of an argument stand the name of the argument and an equals sign. -/
theorem assigned_inj {s s' : Text} (hu : isWordSide u.getLast? = false)
    (hv : isWordSide v.getLast? = false) (hname : IsWord name) (hword : IsWord word)
    (hmark : Text.isBlank mark = false) (hs : ∀ c ∈ s, Text.isBlank c = true)
    (hs' : ∀ c ∈ s', Text.isBlank c = true)
    (h : u ++ (name ++ " = ".toList) = v ++ (word ++ s) ++ mark :: s') :
    u = v ∧ name = word ∧ mark = '=' := by
  have hequals : (u ++ (name ++ [' '])) ++ '=' :: [' '] = v ++ (word ++ s) ++ mark :: s' := by
    rw [← h]
    simp
  obtain ⟨hfront, rfl⟩ := append_cons_blanks_inj (by decide) hmark Text.isBlank_space hs' hequals
  obtain ⟨name', c, rfl⟩ := (List.eq_nil_or_concat' name).resolve_left hname.notEmpty
  obtain ⟨word', d, rfl⟩ := (List.eq_nil_or_concat' word).resolve_left hword.notEmpty
  have hlast : (u ++ name') ++ c :: [' '] = (v ++ word') ++ d :: s := by simpa using hfront
  obtain ⟨hword', rfl⟩ := append_cons_blanks_inj
    (Text.not_isBlank_of_isWord (hname.isWord c (by simp)))
    (Text.not_isBlank_of_isWord (hword.isWord d (by simp))) Text.isBlank_space hs hlast
  obtain ⟨rfl, hnames⟩ := append_word_inj hu hv hname hword (by
    rw [← List.append_assoc, hword', List.append_assoc])
  exact ⟨rfl, hnames, rfl⟩

/-! ## Stretches without such ends -/

/-- In front of no `c` of the stretch, which stands behind `front`, the text ends so. -/
def Quiet (ends : Text → Prop) (c : Char) (front t : Text) : Prop :=
  ∀ u v, t = u ++ c :: v → ¬ ends (front ++ u)

variable {ends : Text → Prop} {c : Char} {front : Text}

theorem quiet_of_notMem (h : c ∉ t) : Quiet ends c front t := by
  rintro u v rfl
  exact absurd (by simp) h

theorem Quiet.append (h : Quiet ends c front t) (h' : Quiet ends c (front ++ t) t') :
    Quiet ends c front (t ++ t') := by
  intro u v hsplit
  rcases Text.append_cons_cases hsplit.symm with ⟨w, rfl, hw⟩ | ⟨w, rfl, rfl⟩
  · rw [← List.append_assoc]
    exact h' w v hw
  · exact h u w rfl

/-! ## What leads to a quote -/

/-- The place stands in the text behind `front`. -/
structure StandsBehind (t front : Text) (p : Place) : Prop where
  split : t = front ++ p.rest
  previous : p.previous = front.getLast?

variable {p q m : Place} {argument : String}

theorem standsBehind_after (h : t = u ++ v) : StandsBehind t u ((Place.start t).after u v) :=
  ⟨h, Option.or_none⟩

theorem StandsBehind.reads (h : StandsBehind t front p) (hu : Reads p u q) :
    StandsBehind t (front ++ u) q where
  split := by rw [h.split, hu.1, List.append_assoc]
  previous := by rw [hu.2.2, h.previous, List.getLast?_append]

/-- A word begins behind an edge if no word character stands in front. -/
theorem onWordEdge_word (hword : IsWord word) (hp : p.rest = word ++ v) :
    onWordEdge p = !isWordSide p.previous := by
  obtain ⟨c, word, rfl⟩ := List.exists_cons_of_ne_nil hword.notEmpty
  have hside : isWordSide p.rest.head? = true := by
    rw [hp]
    exact hword.isWord c List.mem_cons_self
  rw [onWordEdge, hside, Bool.bne_true]

/-- A call reads its name and a parenthesis. -/
theorem exists_of_leads_call {name : String} (hname : IsWord name.toList)
    (hp : StandsBehind t front p) (h : (call (lit name)).Leads p q) :
    ∃ u, EndsIn name.toList u ∧ StandsBehind t (u ++ ['(']) q := by
  obtain ⟨m, ⟨m', ⟨_, ⟨hedge, rfl⟩, hlit⟩, hblank⟩, hopen⟩ := h
  obtain ⟨_, hread₁, htake₁⟩ := hlit.takes
  obtain ⟨s, hread₂, hs⟩ := hblank.takes
  obtain ⟨_, hread₃, htake₃⟩ := hopen.takes
  obtain rfl := takes_lit.1 htake₁
  obtain rfl := takes_lit.1 htake₃
  have hside : isWordSide front.getLast? = false := by
    rw [onWordEdge_word hname hread₁.1, hp.previous] at hedge
    simpa using hedge
  refine ⟨front ++ (name.toList ++ s), ⟨front, s, rfl, hs, hside⟩, ?_⟩
  have hbehind := ((hp.reads hread₁).reads hread₂).reads hread₃
  rwa [List.append_assoc front] at hbehind

/-- A quoted text begins with a quote. -/
theorem exists_of_leads_quotedText (h : quotedText.Leads p q) : ∃ v, p.rest = '"' :: v := by
  obtain ⟨_, ⟨_, ⟨c, rest, hrest, hc, -⟩, -⟩, -⟩ := h
  obtain rfl := beq_iff_eq.1 hc
  exact ⟨rest, hrest⟩

/-- An argument and its value read the name, an equals sign and a quote. -/
theorem exists_of_leads_value (hargument : IsWord argument.toList) (hp : StandsBehind t front p)
    (hedge : onWordEdge p = true) (hassign : (assignment argument).Leads p m)
    (hvalue : quotedText.Leads m q) :
    ∃ s s' v, t = front ++ (argument.toList ++ s) ++ '=' :: s' ++ '"' :: v ∧
      (∀ c ∈ s, Text.isBlank c = true) ∧ (∀ c ∈ s', Text.isBlank c = true) ∧
      isWordSide front.getLast? = false := by
  obtain ⟨_, hread, htake⟩ := hassign.takes
  obtain ⟨s, s', hs, hs', rfl⟩ := takes_assignment htake
  obtain ⟨v, hv⟩ := exists_of_leads_quotedText hvalue
  have hside : isWordSide front.getLast? = false := by
    have hrest := hread.1
    rw [List.append_assoc, List.append_assoc] at hrest
    rw [onWordEdge_word hargument hrest, hp.previous] at hedge
    simpa using hedge
  refine ⟨s, s', v, ?_, hs, hs', hside⟩
  rw [(hp.reads hread).split, hv]
  simp

theorem endsAt_value (word : Text) (mark : Char) {s s' : Text} (hs : ∀ c ∈ s, Text.isBlank c = true)
    (hs' : ∀ c ∈ s', Text.isBlank c = true) (hside : isWordSide front.getLast? = false) :
    EndsAt word mark (front ++ (word ++ s) ++ mark :: s') :=
  ⟨_, s', rfl, hs', front, s, rfl, hs, hside⟩

/-! ## What is found -/

/-- No first argument is found where no quote opens one. -/
theorem find?_firstArgument_eq_none {name : String} (hname : IsWord name.toList)
    (hquiet : Quiet (EndsAt name.toList '(') '"' [] t) :
    (firstArgument (lit name) quotedText).find? t = none := by
  rw [find?_eq_none_iff]
  rintro u v ht q ⟨m₂, ⟨m₁, hcall, hblank⟩, hvalue⟩
  obtain ⟨front, hends, hbehind⟩ := exists_of_leads_call hname (standsBehind_after ht) hcall
  obtain ⟨s, hread, hs⟩ := hblank.takes
  obtain ⟨w, hw⟩ := exists_of_leads_quotedText hvalue
  have hsplit := (hbehind.reads hread).split
  rw [hw] at hsplit
  refine hquiet _ w hsplit ⟨front, s, ?_, hs, hends⟩
  simp

variable {name argument : String} {pre post : Text}

/-- Where a named argument is read, a call stands in front, and a quote opens the value before there
is a closing parenthesis. -/
theorem exists_of_leads_namedArgument (hname : IsWord name.toList)
    (hargument : IsWord argument.toList) (ht : t = u ++ v)
    (h : (namedArgument name argument quotedText).Leads ((Place.start t).after u v) q) :
    ∃ front r w, t = front ++ '(' :: (r ++ '"' :: w) ∧ EndsIn name.toList front ∧ ')' ∉ r ∧
      EndsAt argument.toList '=' (front ++ '(' :: r) := by
  obtain ⟨m₁, m₂, m₃, hcall, hrun, hedge, hassign, hvalue⟩ := leads_namedArgument h
  obtain ⟨front, hends, hbehind⟩ := exists_of_leads_call hname (standsBehind_after ht) hcall
  obtain ⟨r, hread, hr⟩ := hrun.takes
  obtain ⟨s, s', w, hsplit, hs, hs', hside⟩ :=
    exists_of_leads_value hargument (hbehind.reads hread) hedge hassign hvalue
  refine ⟨front, r ++ (argument.toList ++ s) ++ '=' :: s', w, ?_, hends, ?_, ?_⟩
  · rw [hsplit]
    simp
  · have hrun : ')' ∉ r := fun hmem => absurd (hr _ hmem) (by decide)
    have hs : ')' ∉ s := notMem_of_blank hs (by decide)
    have hs' : ')' ∉ s' := notMem_of_blank hs' (by decide)
    simp [hrun, hs, hs', hargument.notMem (show Text.isWord ')' = false by decide)]
  · have hends := endsAt_value argument.toList '=' hs hs' hside
    simpa using hends

/-- No argument is found behind a closing parenthesis. -/
theorem find?_namedArgument_eq_none (hname : IsWord name.toList)
    (hargument : IsWord argument.toList) (hparen : ')' ∈ pre)
    (hcalls : Quiet (EndsIn name.toList) '(' (name.toList ++ ['(']) (pre ++ post))
    (hquiet : Quiet (EndsAt argument.toList '=') '"' (name.toList ++ ['(']) pre) :
    (namedArgument name argument quotedText).find? (name.toList ++ '(' :: (pre ++ post)) =
      none := by
  rw [find?_eq_none_iff]
  intro u v ht q hq
  obtain ⟨front, r, w, hsplit, hends, hr, hvalue⟩ :=
    exists_of_leads_namedArgument hname hargument ht hq
  rcases Text.append_cons_cases hsplit with ⟨x, hx, hrest⟩ | ⟨x, rfl, hrest⟩
  · -- the call is the first one
    cases x with
    | cons c x =>
      obtain ⟨rfl, -⟩ := List.cons.inj hrest
      exact absurd (hx ▸ by simp) (hname.notMem (show Text.isWord '(' = false by decide))
    | nil =>
      obtain rfl : front = name.toList := by simpa using hx.symm
      obtain ⟨-, hrest⟩ := List.cons.inj hrest
      rcases Text.append_cons_cases hrest with ⟨y, rfl, -⟩ | ⟨y, rfl, -⟩
      · exact hr (List.mem_append_left y hparen)
      · refine hquiet r y rfl ?_
        simpa using hvalue
  · refine hcalls x _ hrest ?_
    simpa using hends

/-- A text that begins with a call is read so. -/
theorem prefers_call (hname : IsWord name.toList) (ht : t = name.toList ++ '(' :: v) :
    (call (lit name)).Prefers (Place.start t) ((Place.start t).after (name.toList ++ ['(']) v) := by
  have hedge : wordEdge.Prefers (Place.start t) (Place.start t) :=
    prefers_wordEdge (onWordEdge_word hname ht)
  have hread : ReadsOff (lit name ++ blanks ++ lit "(") (name.toList ++ [] ++ ['(']) v :=
    ((readsOff_exactly _ _).append (readsOff_blanks (by simp) (by rintro c ⟨⟩; decide))).append
      (readsOff_exactly ['('] v)
  rw [List.append_nil] at hread
  exact hedge.append (hread (by rw [List.append_assoc]; exact ht))

variable {d : Text}

/-- The name of an argument and the equals sign are read as they are written. -/
theorem readsOff_assignment (argument : String) (v : Text) :
    ReadsOff (assignment argument) (argument.toList ++ " = ".toList) ('"' :: v) := by
  have hread : ReadsOff (assignment argument) (argument.toList ++ [' '] ++ ['='] ++ [' '])
      ('"' :: v) :=
    (((readsOff_exactly _ _).append
      (readsOff_blanks Text.isBlank_space (by rintro c ⟨⟩; decide))).append
      (readsOff_exactly ['='] _)).append
      (readsOff_blanks Text.isBlank_space (by rintro c ⟨⟩; decide))
  simpa using hread

/-- A quoted text is read up to its closing quote. -/
theorem exists_prefers_quotedText (hd : d ≠ []) (hquote : '"' ∉ d)
    (hp : p.rest = '"' :: (d ++ '"' :: post)) :
    ∃ q, quotedText.Prefers p q ∧ q.kept = ("value", d) :: p.kept := by
  have hopen : (one (· == '"')).Prefers p (p.after ['"'] (d ++ '"' :: post)) :=
    prefers_one hp rfl
  have hbody : (run1 (· != '"')).Prefers (p.after ['"'] (d ++ '"' :: post))
      ((p.after ['"'] (d ++ '"' :: post)).after d ('"' :: post)) := by
    refine prefers_run1 rfl hd ?_ (by rintro c ⟨⟩; rfl)
    intro c hc
    rw [bne_iff_ne]
    rintro rfl
    exact hquote hc
  have hclose : ∀ m : Place, m.rest = '"' :: post →
      (one (· == '"')).Prefers m (m.after ['"'] post) := fun m hm => prefers_one hm rfl
  refine ⟨_, (hopen.append (hbody.keep "value")).append (hclose _ rfl), ?_⟩
  simp

/-- An argument and its value are read as they are written. -/
theorem exists_prefers_value (hargument : IsWord argument.toList) (hd : d ≠ []) (hquote : '"' ∉ d)
    (hp : p.rest = argument.toList ++ " = ".toList ++ '"' :: (d ++ '"' :: post))
    (hside : isWordSide p.previous = false) :
    ∃ q, (wordEdge ++ (assignment argument ++ quotedText)).Prefers p q ∧
      q.kept = ("value", d) :: p.kept := by
  have hedge : wordEdge.Prefers p p := by
    refine prefers_wordEdge ?_
    rw [List.append_assoc] at hp
    rw [onWordEdge_word hargument hp, hside]
    rfl
  have hassign := readsOff_assignment argument _ hp
  obtain ⟨q, hvalue, hkept⟩ := exists_prefers_quotedText hd hquote
    (p := p.after (argument.toList ++ " = ".toList) ('"' :: (d ++ '"' :: post))) rfl
  exact ⟨q, hedge.append (hassign.append hvalue), hkept⟩

theorem quote_notMem_assigned {s s' : Text} (hword : IsWord word)
    (hs : ∀ c ∈ s, Text.isBlank c = true) (hs' : ∀ c ∈ s', Text.isBlank c = true) :
    '"' ∉ (word ++ s) ++ '=' :: s' := by
  have hword : '"' ∉ word := hword.notMem (by decide)
  have hs : '"' ∉ s := notMem_of_blank hs (by decide)
  have hs' : '"' ∉ s' := notMem_of_blank hs' (by decide)
  simp [hword, hs, hs']

/-- From no place in front of an argument its name is read up to a quote. -/
theorem not_endsAt_before {w x s s' v rest : Text} (hargument : IsWord word) (hx : x ≠ [])
    (hquiet : Quiet (EndsAt word '=') '"' front (w ++ x))
    (hside : isWordSide (front ++ (w ++ x)).getLast? = false)
    (hw : isWordSide (front ++ w).getLast? = false) (hs : ∀ c ∈ s, Text.isBlank c = true)
    (hs' : ∀ c ∈ s', Text.isBlank c = true) :
    (w ++ x) ++ (word ++ " = ".toList) ++ '"' :: rest ≠
      w ++ (word ++ s) ++ '=' :: s' ++ '"' :: v := by
  intro h
  rcases Text.append_cons_cases h with ⟨z, hz, hrest⟩ | ⟨z, hz, -⟩
  · cases z with
    | nil =>
      -- the quote is the one of the argument itself
      have hends : (front ++ (w ++ x)) ++ (word ++ " = ".toList) =
          (front ++ w) ++ (word ++ s) ++ '=' :: s' := by
        rw [List.append_assoc, hz]
        simp
      obtain ⟨hfront, -⟩ := assigned_inj hside hw hargument hargument (by decide) hs hs' hends
      exact hx (by simpa using hfront)
    | cons c z =>
      obtain ⟨rfl, -⟩ := List.cons.inj hrest
      rcases Text.append_cons_cases hz.symm with ⟨y, -, hy⟩ | ⟨y, hy, -⟩
      · have hmem : '"' ∈ word ++ " = ".toList := hy ▸ List.mem_append_right y List.mem_cons_self
        exact absurd hmem (by simp [hargument.notMem (show Text.isWord '"' = false by decide)])
      · refine hquiet _ y hy ?_
        have hends := endsAt_value word '=' hs hs' hw
        simpa using hends
  · refine quote_notMem_assigned hargument hs hs' ?_
    have hmem : (word ++ s) ++ '=' :: s' = x ++ (word ++ " = ".toList) ++ '"' :: z := by
      simpa using hz
    rw [hmem]
    simp

/-- **The text behind the first quote that opens a value of the argument is kept**, if no closing
parenthesis stands in front. -/
theorem keptIn?_namedArgument (hname : IsWord name.toList) (hargument : IsWord argument.toList)
    (hparen : ')' ∉ pre)
    (hquiet : Quiet (EndsAt argument.toList '=') '"' (name.toList ++ ['(']) pre)
    (hside : isWordSide (name.toList ++ ['('] ++ pre).getLast? = false) (hd : d ≠ [])
    (hquote : '"' ∉ d) (post : Text) :
    keptIn? "value" (namedArgument name argument quotedText) (name.toList ++ '(' :: (pre ++
      (argument.toList ++ " = ".toList ++ '"' :: (d ++ '"' :: post)))) = some d := by
  generalize hvalue : argument.toList ++ " = ".toList ++ '"' :: (d ++ '"' :: post) = value
  generalize ht : name.toList ++ '(' :: (pre ++ value) = t
  have hcall := prefers_call hname ht.symm
  have hbehind : ∀ w x, pre ++ value = w ++ x → StandsBehind t (name.toList ++ ['('] ++ w)
      (((Place.start t).after (name.toList ++ ['(']) (pre ++ value)).after w x) := by
    intro w x hsplit
    rw [Place.after_after]
    refine standsBehind_after ?_
    rw [← ht, hsplit]
    simp
  have hpre : isWordSide (((Place.start t).after (name.toList ++ ['(']) (pre ++ value)).after
      pre value).previous = false := by
    rw [(hbehind pre value rfl).previous]
    exact hside
  obtain ⟨q, hprefers, hkept⟩ := exists_prefers_value hargument hd hquote hvalue.symm hpre
  have hrun : (run (· != ')') .least ++ (wordEdge ++ (assignment argument ++ quotedText))).Prefers
      ((Place.start t).after (name.toList ++ ['(']) (pre ++ value)) q := by
    refine prefers_run_least rfl ?_ hprefers ?_
    · intro c hc
      rw [bne_iff_ne]
      rintro rfl
      exact hparen hc
    · rintro w x rfl hne q ⟨_, ⟨hedge, rfl⟩, m, hassign, hquoted⟩
      obtain ⟨s, s', v, hsplit, hs, hs', hw⟩ := exists_of_leads_value hargument
        (hbehind w (x ++ value) (List.append_assoc w x value)) hedge hassign hquoted
      have hcut : (w ++ x) ++ (argument.toList ++ " = ".toList) ++ '"' :: (d ++ '"' :: post) =
          w ++ (argument.toList ++ s) ++ '=' :: s' ++ '"' :: v := by
        rw [← ht, ← hvalue] at hsplit
        simpa using hsplit
      exact not_endsAt_before hargument hne hquiet hside hw hs hs' hcut
  have hfind := Prefers.find? (P := namedArgument name argument quotedText) (hcall.append hrun)
  rw [keptIn?, hfind, Option.bind_some, Found.kept?, hkept, List.lookup_cons_self]

end RazorViews.Metadata
