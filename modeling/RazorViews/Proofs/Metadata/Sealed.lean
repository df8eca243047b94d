import RazorViews.Proofs.Metadata.Given

/-!
# Annotations that nothing is read out of

Two of the patterns for metadata pass over other arguments up to a closing parenthesis, and three
read a value up to a closing quote; so they may read out of one annotation into the next one behind
a comma.  They do not where every opening parenthesis has a closing one behind it, and every quote
at which a value may begin has a quote behind it: `Sealed`.

Then each pattern keeps of two annotations put together what it keeps of the first one, or else of
the second: `KeepsFirst`.  All patterns for metadata do: `keepsFirst_displayNames` and the three
behind it.

Annotations without quotes are sealed if they end with their closing parenthesis
(`sealed_of_getLast?`), and so are calls with quoted arguments as a rule.  One that is not is a call
whose last text ends with an equals sign: the closing quote may then begin a value.
-/

namespace RazorViews.Metadata

open Pattern

/-- The text closes what it opens: behind an opening parenthesis there is a closing one, and behind
a quote that follows an equals sign or an opening parenthesis there is another quote. -/
structure Sealed (a : Text) : Prop where
  closes : ∀ u w, a = u ++ '(' :: w → ')' ∈ w
  quotes : ∀ u mark s w, mark = '=' ∨ mark = '(' → (∀ c ∈ s, Text.isBlank c = true) →
    a = u ++ mark :: (s ++ '"' :: w) → '"' ∈ w

/-- Without quotes, a bare name is sealed, and calls are by their last closing parenthesis. -/
theorem sealed_of_getLast? {a : Text} (hlast : '(' ∈ a → a.getLast? = some ')') (hquote : '"' ∉ a) :
    Sealed a where
  closes := by
    rintro u w rfl
    have hlast := hlast (by simp)
    rw [List.getLast?_append, List.getLast?_cons] at hlast
    cases hw : w.getLast? with
    | none =>
      rw [hw] at hlast
      exact absurd hlast (by simp)
    | some c =>
      rw [hw] at hlast
      obtain rfl : c = ')' := by simpa using hlast
      exact List.mem_of_getLast? hw
  quotes := by
    rintro u mark s w - - rfl
    exact absurd (by simp) hquote

/-! ## Values -/

variable {a v more : Text} {p q : Place} {name value : Pattern}

/-- A value behind a mark in a sealed text ends in that text. -/
def Ends (value : Pattern) : Prop :=
  ∀ {a u s v more : Text} {mark : Char} {p q : Place}, Sealed a → mark = '=' ∨ mark = '(' →
    (∀ c ∈ s, Text.isBlank c = true) → a = u ++ mark :: (s ++ v) → p.rest = v ++ ',' :: more →
    value.Leads p q → ∃ w, q.rest = w ++ ',' :: more

/-- The pattern keeps a value. -/
def Keeps (value : Pattern) : Prop :=
  ∀ {p q : Place}, value.Leads p q → (q.kept.lookup "value").isSome = true

theorem ends_numeral : Ends numeral := by
  intro a u s v more mark p q _ _ _ _ hp hq
  obtain ⟨_, w, -, -, hrest⟩ := leads_within (by decide) hp hq
  exact ⟨w, hrest⟩

theorem keeps_numeral : Keeps numeral := by
  intro p q hq
  obtain ⟨u, -, -, hkept⟩ := leads_keep (by decide) hq
  rw [hkept, List.lookup_cons_self]
  rfl

theorem ends_quotedText : Ends quotedText := by
  rintro a u s v more mark p q hsealed hmark hs ha hp ⟨m₂, ⟨m₁, hopen, hbody⟩, hclose⟩
  obtain ⟨_, w, ⟨c, hc, rfl⟩, rfl, hrest₁⟩ := leads_within (c := ',') (by decide) hp hopen
  obtain rfl := beq_iff_eq.1 hc
  -- the body stops in front of the next quote, which still is in the text
  obtain ⟨w₁, w₂, rfl⟩ := List.append_of_mem (hsealed.quotes u mark s w hmark hs ha)
  rw [List.append_assoc, List.cons_append] at hrest₁
  obtain ⟨_, w', -, -, hrest₂⟩ := leads_within (c := '"') (by decide) hrest₁ hbody
  have hwithin : m₂.rest = (w' ++ '"' :: w₂) ++ ',' :: more := by
    rw [hrest₂, List.append_assoc, List.cons_append]
  obtain ⟨_, w, -, -, hrest⟩ := leads_within (c := ',') (by decide) hwithin hclose
  exact ⟨w, hrest⟩

theorem keeps_quotedText : Keeps quotedText := by
  rintro p q ⟨m₂, ⟨m₁, -, hbody⟩, hclose⟩
  obtain ⟨u, -, -, hkept⟩ := leads_keep (by decide) hbody
  rw [hclose.kept (by decide), hkept, List.lookup_cons_self]
  rfl

/-! ## Calls -/

/-- Names of annotations are not empty and hold neither commas nor spaces. -/
structure IsName (name : Pattern) : Prop where
  notEmpty : ¬ name.Takes []
  comma : name.avoids ',' = true
  space : name.avoids ' ' = true

theorem isName_lit {t : String} (hne : t.toList ≠ []) (hcomma : (lit t).avoids ',' = true)
    (hspace : (lit t).avoids ' ' = true) : IsName (lit t) :=
  ⟨fun h => hne (takes_lit.1 h).symm, hcomma, hspace⟩

theorem leads_call_within (hname : IsName name) (hp : p.rest = v ++ ',' :: more)
    (h : (call name).Leads p q) : ∃ u w, v = u ++ '(' :: w ∧ q.rest = w ++ ',' :: more := by
  have havoids : (call name).avoids ',' = true := by
    show (((true && name.avoids ',') && blanks.avoids ',') && (lit "(").avoids ',') = true
    rw [hname.comma]
    decide
  obtain ⟨_, w, ⟨u, _, -, hopen, rfl⟩, rfl, hrest⟩ := leads_within havoids hp h
  obtain rfl := takes_lit.1 hopen
  exact ⟨u, w, by simp, hrest⟩

/-- No call begins with a space. -/
theorem not_leads_call (hname : IsName name) (hp : p.rest.head? = some ' ') :
    ¬ (call name).Leads p q := by
  rintro ⟨_, ⟨_, ⟨_, ⟨-, rfl⟩, hlead⟩, -⟩, -⟩
  obtain ⟨u, hread, htake⟩ := hlead.takes
  have hspace : ' ' ∉ u := List.count_eq_zero.1 (counts_of_avoids hname.space u htake)
  cases u with
  | nil => exact hname.notEmpty htake
  | cons c u =>
    rw [hread.1] at hp
    obtain rfl : c = ' ' := by simpa using hp
    exact hspace List.mem_cons_self

/-- What a pattern keeps of two annotations put together, the first of them sealed, it keeps of
the first one, or else of the second. -/
def KeepsFirst (P : Pattern) : Prop :=
  ∀ {a : Text}, Sealed a → ∀ b, keptIn? "value" P (a ++ ',' :: ' ' :: b) =
    (keptIn? "value" P a).or (keptIn? "value" P b)

theorem keepsFirst_firstArgument (hlocal : (firstArgument name value).isLocal = true)
    (hflat : (firstArgument name value).isFlat = true) (hname : IsName name) (hends : Ends value)
    (hkeeps : Keeps value) : KeepsFirst (firstArgument name value) := by
  intro a hsealed b
  refine keptIn?_seam hlocal hflat ?_ (fun _ _ ⟨_, _, hvalue⟩ => hkeeps hvalue) ?_
  · rintro p q hp ⟨_, ⟨_, hcall, -⟩, -⟩
    exact not_leads_call hname hp hcall
  · rintro u v q rfl ⟨m₂, ⟨m₁, hcall, hblank⟩, hvalue⟩
    obtain ⟨x, w, rfl, hrest₁⟩ := leads_call_within hname rfl hcall
    obtain ⟨s, w, hs, rfl, hrest₂⟩ := leads_within (by decide) hrest₁ hblank
    obtain ⟨w', hrest⟩ := hends hsealed (.inr rfl) hs (List.append_assoc u x _).symm hrest₂ hvalue
    rw [hrest, List.length_append, List.length_cons, List.length_cons]
    omega

theorem keepsFirst_namedArgument {name argument : String}
    (hlocal : (namedArgument name argument value).isLocal = true)
    (hflat : (namedArgument name argument value).isFlat = true) (hname : IsName (lit name))
    (hargument : (assignment argument).avoids ',' = true) (hends : Ends value)
    (hkeeps : Keeps value) : KeepsFirst (namedArgument name argument value) := by
  intro a hsealed b
  refine keptIn?_seam hlocal hflat ?_ (fun _ _ ⟨_, _, hvalue⟩ => hkeeps hvalue) ?_
  · intro p q hp hlead
    obtain ⟨_, _, _, hcall, -⟩ := leads_namedArgument hlead
    exact not_leads_call hname hp hcall
  · rintro u v q rfl hlead
    obtain ⟨m₁, m₂, m₃, hcall, hrun, -, hassign, hvalue⟩ := leads_namedArgument hlead
    obtain ⟨x, w, rfl, hrest₁⟩ := leads_call_within hname rfl hcall
    -- the arguments in front end in front of the closing parenthesis
    obtain ⟨w₁, w₂, rfl⟩ := List.append_of_mem
      (hsealed.closes (u ++ x) w (List.append_assoc u x _).symm)
    rw [List.append_assoc, List.cons_append] at hrest₁
    obtain ⟨r, w', -, rfl, hrest₂⟩ := leads_within (c := ')') (by decide) hrest₁ hrun
    have hwithin : m₂.rest = (w' ++ ')' :: w₂) ++ ',' :: ' ' :: b := by
      rw [hrest₂, List.append_assoc, List.cons_append]
    obtain ⟨t, w, htake, hsplit, hrest₃⟩ := leads_within hargument hwithin hassign
    obtain ⟨s, s', -, hs', rfl⟩ := takes_assignment htake
    have ha : u ++ (x ++ '(' :: (r ++ w' ++ ')' :: w₂)) =
        (u ++ x ++ '(' :: r ++ argument.toList ++ s) ++ '=' :: (s' ++ w) := by
      rw [List.append_assoc r, hsplit]
      simp
    obtain ⟨y, hrest⟩ := hends hsealed (.inl rfl) hs' ha hrest₃ hvalue
    rw [hrest, List.length_append, List.length_cons, List.length_cons]
    omega

/-! ## The patterns for metadata -/

theorem keepsFirst_displayNames : ∀ P ∈ displayNames, KeepsFirst P := by
  simp only [displayNames, List.forall_mem_cons]
  exact ⟨keepsFirst_namedArgument (by decide) (by decide)
    (isName_lit (by decide) (by decide) (by decide)) (by decide) ends_quotedText keeps_quotedText,
    by simp⟩

theorem keepsFirst_descriptions : ∀ P ∈ descriptions, KeepsFirst P := by
  simp only [descriptions, List.forall_mem_cons]
  exact ⟨keepsFirst_firstArgument (by decide) (by decide)
    (isName_lit (by decide) (by decide) (by decide)) ends_quotedText keeps_quotedText,
    keepsFirst_namedArgument (by decide) (by decide)
      (isName_lit (by decide) (by decide) (by decide)) (by decide) ends_quotedText keeps_quotedText,
    by simp⟩

theorem keepsFirst_maxLengths : ∀ P ∈ maxLengths, KeepsFirst P := by
  have hname : IsName (either (lit "MaxLength") (lit "StringLength")) := by
    refine ⟨?_, by decide, by decide⟩
    rintro (h | h)
    · exact absurd (takes_lit.1 h) (by decide)
    · exact absurd (takes_lit.1 h) (by decide)
  simp only [maxLengths, List.forall_mem_cons]
  exact ⟨keepsFirst_firstArgument (by decide) (by decide) hname ends_numeral keeps_numeral, by simp⟩

theorem keepsFirst_minLengths : ∀ P ∈ minLengths, KeepsFirst P := by
  simp only [minLengths, List.forall_mem_cons]
  exact ⟨keepsFirst_firstArgument (by decide) (by decide)
    (isName_lit (by decide) (by decide) (by decide)) ends_numeral keeps_numeral,
    keepsFirst_namedArgument (by decide) (by decide)
      (isName_lit (by decide) (by decide) (by decide)) (by decide) ends_numeral keeps_numeral,
    by simp⟩

end RazorViews.Metadata
