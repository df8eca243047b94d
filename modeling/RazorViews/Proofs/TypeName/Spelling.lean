import RazorViews.Proofs.Pattern.Prefers
import RazorViews.Proofs.TypeName.Clean
import RazorViews.Proofs.TypeName.ModelType
import RazorViews.Property.InputKind
import RazorViews.Property.Rules

/-!
# The spellings of a type

A type may stand for itself or under `System.`, alone, with a question mark behind it or inside
`Nullable<…>`, and white space may stand around the marks (`Spelling`).  The language takes those
for one type, but for whether it admits no value.

## What is proved

`classify_written` is about a candidate whose type is any name in any of these spellings, with any
name and any annotations.

* It is nullable exactly if its type is spelled as optional, with a question mark or inside
  `Nullable<…>`.
* The type that is declared for it suggests the kind of input that the bare name suggests.
* Whether it must be filled in is the same for all spellings that are optional, and the same for all
  that are not.

## What it is not

Line breaks are no white space here (`Gap`), since the type of a property stands on one line.  The
name is without dots other than those of its prefix, and has no arguments; a type with arguments
that is optional is spelled in one way only.

## The proof

Whether a type is optional is asked of the text as it is written (`isNullable_written`), its usual
spelling is made by three exchanges (`clean_written`), and its bare name is taken from that by other
patterns again (`base_clean_written`).  Each of the three is shown to see the same type in every
spelling; that an exchange leaves the name alone is since a name has no marks and no blanks in it
(`Settled`).
-/

namespace RazorViews.TypeName

open Pattern Canonical Rules

/-! ## Spellings -/

/-- A character of a name: neither blank nor one of those that set the parts of a type apart. -/
def isNameChar (c : Char) : Bool :=
  !Text.isBlank c && !(['<', '>', '?', '[', ']', ',', '.', ':'].contains c)

/-- A name without steps and prefixes. -/
structure SimpleName where
  text : Text
  ne_nil : text ≠ []
  isNameChar : ∀ c ∈ text, isNameChar c = true

/-- What may precede a type of the system. -/
inductive Prefix where
  | none
  | system
  | globalSystem

def Prefix.text : Prefix → Text
  | none => []
  | system => "System.".toList
  | globalSystem => "global::System.".toList

/-- The ways to write a type, with the white space around its marks. -/
inductive Spelling where
  | bare (before : Prefix)
  | marked (before : Prefix) (front back : Gap)
  | wrapped (before : Prefix) (isQualified : Bool) (outside inside inside' outside' : Gap)

/-- The name of the type around a type that admits no value as well. -/
def nullableWord : Text := "Nullable".toList

theorem nullableWord_eq : nullableWord = ['N', 'u', 'l', 'l', 'a', 'b', 'l', 'e'] := by decide

/-- `Nullable<…>` in its usual spelling. -/
def nullableOf (argument : Text) : Text := nullableWord ++ '<' :: (argument ++ ['>'])

/-- What stands between the brackets of `Nullable<…>`. -/
def wrappedName (isQualified : Bool) (name : SimpleName) : Text :=
  (if isQualified then Prefix.system else Prefix.none).text ++ name.text

def Spelling.written (name : SimpleName) : Spelling → Text
  | .bare before => before.text ++ name.text
  | .marked before front back => before.text ++ name.text ++ (front.text ++ '?' :: back.text)
  | .wrapped before isQualified outside inside inside' outside' =>
    before.text ++ nullableWord ++ (outside.text ++ '<' :: inside.text) ++
      wrappedName isQualified name ++ (inside'.text ++ '>' :: outside'.text)

/-- The spellings of the type that admits no value as well. -/
def Spelling.isNullable : Spelling → Bool
  | .bare _ => false
  | .marked .. | .wrapped .. => true

/-! ## Exchanges around a mark -/

section Exchanges

variable {image : Found → Text} {m : Char} {b b' x t r : Text}

/-- The marks of types. -/
def isMark (c : Char) : Bool := ['<', '>', '?', '[', ']'].contains c

theorem not_isBlank_of_isMark {c : Char} (h : isMark c = true) : Text.isBlank c = false := by
  have hmarks : ∀ d ∈ ['<', '>', '?', '[', ']'], Text.isBlank d = false :=
    forall_mem_of_all (by decide)
  exact hmarks c (List.contains_iff_mem.1 h)

theorem not_leads_blanks1 {p q : Place} {c : Char} (hp : p.rest.head? = some c)
    (hc : Text.isBlank c = false) : ¬ blanks1.Leads p q := by
  intro h
  obtain ⟨u, hread, htake⟩ := h.takes
  obtain ⟨hne, hblank⟩ := takes_run1.1 htake
  obtain ⟨d, u, rfl⟩ := List.exists_cons_of_ne_nil hne
  obtain rfl : d = c := Option.some.inj ((congrArg List.head? hread.1).symm.trans hp)
  rw [hblank d List.mem_cons_self] at hc
  exact absurd hc (by simp)

theorem not_leads_looseBracket {p q : Place} {c : Char} (hp : p.rest.head? = some c)
    (hblank : Text.isBlank c = false) (hmark : isMark c = false) :
    ¬ looseBracket.Leads p q := by
  intro h
  obtain ⟨u, hread, _, b', ⟨b, _, hb, ⟨d, hd, rfl⟩, rfl⟩, -, rfl⟩ := h.takes
  have hfirst : (b ++ [d] ++ b' ++ q.rest).head? = some c := hread.1 ▸ hp
  cases b with
  | nil =>
    obtain rfl : d = c := Option.some.inj hfirst
    exact absurd (hd.symm.trans hmark) (by simp)
  | cons e b =>
    obtain rfl : e = c := Option.some.inj hfirst
    exact absurd ((hb e List.mem_cons_self).symm.trans hblank) (by simp)

/-- White space as one space. -/
def squeezed (b : Text) : Text := if b = [] then [] else [' ']

theorem isBlank_squeezed (b : Text) : ∀ c ∈ squeezed b, Text.isBlank c = true := by
  rw [squeezed]
  split
  · simp
  · exact forall_mem_of_all (by decide)

theorem yields_squeezed (hb : ∀ c ∈ b, Text.isBlank c = true)
    (ht : ∀ c ∈ t.head?, Text.isBlank c = false)
    (h : blanks1.Yields (fun _ => [' ']) t r) :
    blanks1.Yields (fun _ => [' ']) (b ++ t) (squeezed b ++ r) := by
  by_cases hne : b = []
  · rw [squeezed, if_pos hne, hne]
    exact h
  · rw [squeezed, if_neg hne]
    refine h.append hne fun p hp _ => ?_
    refine ⟨_, (prefers_run1 hp hne hb ht).foundAt?, ?_, rfl⟩
    simp [hp]

theorem yields_blanks_mark (hm : isMark m = true) (hb : ∀ c ∈ b, Text.isBlank c = true)
    (hb' : ∀ c ∈ b', Text.isBlank c = true) (ht : ∀ c ∈ t.head?, Text.isBlank c = false)
    (h : blanks1.Yields (fun _ => [' ']) t r) :
    blanks1.Yields (fun _ => [' ']) (b ++ m :: (b' ++ t))
      (squeezed b ++ m :: (squeezed b' ++ r)) := by
  have hmark := not_isBlank_of_isMark hm
  refine yields_squeezed hb (fun c hc => ?_) ?_
  · obtain rfl : m = c := Option.some.inj hc
    exact hmark
  · exact (yields_squeezed hb' ht h).cons fun p q hp =>
      not_leads_blanks1 (by rw [hp]; rfl) hmark

/-- A mark with the white space around it is exchanged for the mark. -/
theorem yields_bracket_mark (hm : isMark m = true) (hb : ∀ c ∈ b, Text.isBlank c = true)
    (hb' : ∀ c ∈ b', Text.isBlank c = true) (ht : ∀ c ∈ t.head?, Text.isBlank c = false)
    (h : looseBracket.Yields (fun found => (found.kept? "mark").getD []) t r) :
    looseBracket.Yields (fun found => (found.kept? "mark").getD []) (b ++ m :: (b' ++ t))
      (m :: r) := by
  have hsplit : b ++ m :: (b' ++ t) = (b ++ m :: b') ++ t := by simp
  rw [hsplit]
  refine h.append (v := [m]) (by simp) fun p hp _ => ?_
  have hfront : blanks.Prefers p (p.after b (m :: (b' ++ t))) := by
    refine prefers_run (by rw [hp, hsplit]) hb fun c hc => ?_
    obtain rfl : m = c := Option.some.inj hc
    exact not_isBlank_of_isMark hm
  have hone : (one isMark).Prefers (p.after b (m :: (b' ++ t)))
      ((p.after b (m :: (b' ++ t))).after [m] (b' ++ t)) := prefers_one rfl hm
  have hmatch := (hfront.append (hone.keep "mark")).append
    (b := blanks) (prefers_run (u := b') (v := t) rfl hb' ht)
  refine ⟨_, hmatch.foundAt?, ?_, ?_⟩
  · show p.rest.take _ = _
    rw [hp]
    refine List.take_left' ?_
    simp only [Place.offset_after, List.length_append, List.length_cons, List.length_nil]
    omega
  · simp [Found.kept?]

end Exchanges

/-! ## The usual spelling -/

/-- A character that all exchanges leave where it is. -/
def isSettled (c : Char) : Bool := !Text.isBlank c && (!isMark c && c != ',')

/-- The characters of a word stay. -/
structure Settled (w : Text) : Prop where
  ne_nil : w ≠ []
  all : ∀ c ∈ w, isSettled c = true

section UsualSpelling

variable {w v : Text}

theorem Settled.not_blank (hw : Settled w) : ∀ c ∈ w, Text.isBlank c = false := by
  intro c hc
  have hsettled := hw.all c hc
  simp only [isSettled, Bool.and_eq_true, Bool.not_eq_true'] at hsettled
  exact hsettled.1

theorem Settled.not_mark (hw : Settled w) : ∀ c ∈ w, isMark c = false := by
  intro c hc
  have hsettled := hw.all c hc
  simp only [isSettled, Bool.and_eq_true, Bool.not_eq_true'] at hsettled
  exact hsettled.2.1

theorem Settled.comma_notMem (hw : Settled w) : ',' ∉ w := fun hmem =>
  absurd (hw.all ',' hmem) (by decide)

theorem Settled.head (hw : Settled w) (t : Text) :
    ∀ c ∈ (w ++ t).head?, Text.isBlank c = false := by
  obtain ⟨d, u, rfl⟩ := List.exists_cons_of_ne_nil hw.ne_nil
  intro c hc
  obtain rfl : d = c := Option.some.inj hc
  exact hw.not_blank d List.mem_cons_self

theorem Settled.trim_self (hw : Settled w) : Text.trim w = w :=
  Text.trim_eq_self (fun c hc => hw.not_blank c (List.mem_of_mem_head? hc))
    fun c hc => hw.not_blank c (List.mem_of_getLast? hc)

theorem Settled.append (hw : Settled w) (hv : Settled v) : Settled (w ++ v) where
  ne_nil := by simp [hw.ne_nil]
  all := List.forall_mem_append.2 ⟨hw.all, hv.all⟩

theorem Settled.blanks {t r : Text} (hw : Settled w)
    (h : blanks1.Yields (fun _ => [' ']) t r) :
    blanks1.Yields (fun _ => [' ']) (w ++ t) (w ++ r) :=
  h.copied fun c hc _ _ hp => not_leads_blanks1 hp (hw.not_blank c hc)

theorem Settled.brackets {t r : Text} (hw : Settled w)
    (h : looseBracket.Yields (fun found => (found.kept? "mark").getD []) t r) :
    looseBracket.Yields (fun found => (found.kept? "mark").getD []) (w ++ t) (w ++ r) :=
  h.copied fun c hc _ _ hp => not_leads_looseBracket hp (hw.not_blank c hc) (hw.not_mark c hc)

theorem replaceAll_commas_eq_self {t : Text} (h : ',' ∉ t) (image : Found → Text) :
    looseComma.replaceAll image t = t := by
  refine (yields_self fun a b hab p q hp hleads => h ?_).replaceAll
  obtain ⟨u, hread, _, b', ⟨_, comma, -, hcomma, rfl⟩, -, rfl⟩ := hleads.takes
  obtain rfl := takes_lit.1 hcomma
  rw [hab, ← hp, hread.1]
  simp

/-- The three exchanges one after another. -/
theorem spelled_eq {rawType spaced tight : Text}
    (hspaced : blanks1.Yields (fun _ => [' ']) rawType spaced)
    (htight : looseBracket.Yields (fun found => (found.kept? "mark").getD [])
      (Text.trim spaced) tight)
    (hcomma : ',' ∉ tight) : spelled rawType = tight := by
  rw [spelled, hspaced.replaceAll, htight.replaceAll, replaceAll_commas_eq_self hcomma]

/-- Trimming a text that ends with a mark and white space. -/
theorem trim_mark {m : Char} (hm : isMark m = true) {t b : Text}
    (ht : ∀ c ∈ t.head?, Text.isBlank c = false) (hb : ∀ c ∈ b, Text.isBlank c = true) :
    Text.trim (t ++ m :: b) = t ++ [m] := by
  have hright : Text.trimRight ([] ++ b) = Text.trimRight [] :=
    Text.trimRight_append_blanks hb []
  rw [Text.trim_append_cons (not_isBlank_of_isMark hm), Text.trimLeft_eq_self ht]
  exact congrArg (t ++ m :: ·) hright

theorem Settled.spelled_self (hw : Settled w) : spelled w = w := by
  have hself : blanks1.Yields (fun _ => [' ']) (w ++ []) (w ++ []) := hw.blanks yields_nil
  have htight : looseBracket.Yields (fun found => (found.kept? "mark").getD []) (w ++ [])
      (w ++ []) := hw.brackets yields_nil
  rw [List.append_nil] at hself htight
  refine spelled_eq hself ?_ hw.comma_notMem
  rwa [hw.trim_self]

theorem Settled.spelled_marked (hw : Settled w) (g g' : Gap) :
    spelled (w ++ (g.text ++ '?' :: g'.text)) = w ++ ['?'] := by
  have hmark : isMark '?' = true := by decide
  have hnone : ∀ c ∈ ([] : Text).head?, Text.isBlank c = false := by simp
  have hspaced := hw.blanks (yields_blanks_mark hmark g.isBlank g'.isBlank hnone yields_nil)
  have hempty : ∀ c ∈ ([] : Text), Text.isBlank c = true := by simp
  have htight := hw.brackets (yields_bracket_mark hmark (isBlank_squeezed g.text) hempty hnone
    yields_nil)
  simp only [List.append_nil] at hspaced htight
  refine spelled_eq hspaced ?_ ?_
  · rw [← List.append_assoc, trim_mark hmark (hw.head _) (isBlank_squeezed _), List.append_assoc]
    exact htight
  · exact List.not_mem_append hw.comma_notMem (by decide)

theorem Settled.spelled_wrapped (hw : Settled w) (hv : Settled v) (g₁ g₂ g₃ g₄ : Gap) :
    spelled (w ++ (g₁.text ++ '<' :: (g₂.text ++ (v ++ (g₃.text ++ '>' :: g₄.text))))) =
      w ++ '<' :: (v ++ ['>']) := by
  have hopen : isMark '<' = true := by decide
  have hclose : isMark '>' = true := by decide
  have hempty : ∀ c ∈ ([] : Text), Text.isBlank c = true := by simp
  have hnone : ∀ c ∈ ([] : Text).head?, Text.isBlank c = false := by simp
  have hspaced := hw.blanks (yields_blanks_mark hopen g₁.isBlank g₂.isBlank (hv.head _)
    (hv.blanks (yields_blanks_mark hclose g₃.isBlank g₄.isBlank hnone yields_nil)))
  have htight := hw.brackets (yields_bracket_mark hopen (isBlank_squeezed g₁.text)
    (isBlank_squeezed g₂.text) (hv.head _)
    (hv.brackets (yields_bracket_mark hclose (isBlank_squeezed g₃.text) hempty hnone yields_nil)))
  simp only [List.append_nil] at hspaced htight
  refine spelled_eq hspaced ?_ ?_
  · have htrim := trim_mark hclose
      (t := w ++ (squeezed g₁.text ++ '<' :: (squeezed g₂.text ++ (v ++ squeezed g₃.text))))
      (hw.head _) (isBlank_squeezed g₄.text)
    simp only [List.append_assoc, List.cons_append] at htrim
    rw [htrim]
    exact htight
  · refine List.not_mem_append hw.comma_notMem ?_
    rw [List.mem_cons, not_or]
    exact ⟨by decide, List.not_mem_append hv.comma_notMem (by decide)⟩

end UsualSpelling

/-! ## Names and prefixes -/

theorem SimpleName.notMem {c : Char} (hc : TypeName.isNameChar c = false) (name : SimpleName) :
    c ∉ name.text := by
  intro hmem
  rw [name.isNameChar c hmem] at hc
  exact absurd hc (by simp)

theorem SimpleName.settled (name : SimpleName) : Settled name.text where
  ne_nil := name.ne_nil
  all := by
    intro c hc
    have hname := name.isNameChar c hc
    simp only [TypeName.isNameChar, List.contains_cons, List.contains_nil] at hname
    simp only [isSettled, isMark, List.contains_cons, List.contains_nil, bne]
    simp_all

theorem settled_literal (s : String) (hne : s.toList ≠ [])
    (h : s.toList.all isSettled = true) : Settled s.toList where
  ne_nil := hne
  all := List.all_eq_true.1 h

theorem settled_nullableWord : Settled nullableWord :=
  settled_literal "Nullable" (by decide) (by decide)

theorem settled_prefixed (before : Prefix) {w : Text} (hw : Settled w) :
    Settled (before.text ++ w) := by
  cases before with
  | none => exact hw
  | system => exact (settled_literal "System." (by decide) (by decide)).append hw
  | globalSystem => exact (settled_literal "global::System." (by decide) (by decide)).append hw

theorem settled_wrappedName (isQualified : Bool) (name : SimpleName) :
    Settled (wrappedName isQualified name) := settled_prefixed _ name.settled

theorem stripFront_eq_self {front t : Text} {c : Char} (hc : c ∈ front) (ht : c ∉ t) :
    Text.stripFront front t = t := by
  rw [Text.stripFront]
  cases hstrip : Text.stripFront? front t with
  | none => rfl
  | some rest =>
    rw [stripFront?_eq_some_iff.1 hstrip] at ht
    exact absurd (List.mem_append_left rest hc) ht

theorem dropPrefixes_eq_self {t : Text} (hdot : '.' ∉ t) (hcolon : ':' ∉ t) :
    dropPrefixes t = t := by
  rw [dropPrefixes, stripFront_eq_self (c := ':') (by decide) hcolon,
    stripFront_eq_self (c := '.') (by decide) hdot]

theorem stripFront_append (front t : Text) : Text.stripFront front (front ++ t) = t := by
  rw [Text.stripFront, stripFront?_eq_some_iff.2 rfl, Option.getD_some]

theorem dropPrefixes_prefixed (before : Prefix) {t : Text} (ht : dropPrefixes t = t) :
    dropPrefixes (before.text ++ t) = t := by
  cases before with
  | none => exact ht
  | system =>
    have hglobal : Text.stripFront "global::".toList ("System.".toList ++ t) =
        "System.".toList ++ t := by
      simp [Text.stripFront, Text.stripFront?]
    show dropPrefixes ("System.".toList ++ t) = t
    rw [dropPrefixes, hglobal, stripFront_append]
  | globalSystem =>
    have hsplit : "global::System.".toList = "global::".toList ++ "System.".toList := by decide
    show dropPrefixes ("global::System.".toList ++ t) = t
    rw [dropPrefixes, hsplit, List.append_assoc, stripFront_append, stripFront_append]

theorem dropPrefixes_nullableOf (argument : Text) :
    dropPrefixes (nullableOf argument) = nullableOf argument := by
  rw [nullableOf, nullableWord_eq]
  simp [dropPrefixes, Text.stripFront, Text.stripFront?]

theorem SimpleName.dropPrefixes_marked (name : SimpleName) (isOptional : Bool) :
    dropPrefixes (name.text ++ markOf isOptional) = name.text ++ markOf isOptional := by
  have hmark : ∀ {c : Char}, c ≠ '?' → c ∉ markOf isOptional := by
    intro c hc hmem
    exact hc (mem_markOf hmem)
  exact dropPrefixes_eq_self
    (List.not_mem_append (name.notMem (by decide)) (hmark (by decide)))
    (List.not_mem_append (name.notMem (by decide)) (hmark (by decide)))

/-! ## The usual spelling of every spelling -/

/-- The usual spelling: no prefix, no white space. -/
def Spelling.usual (name : SimpleName) : Spelling → Text
  | .bare _ => name.text ++ markOf false
  | .marked .. => name.text ++ markOf true
  | .wrapped _ isQualified .. =>
    nullableOf (wrappedName isQualified name)

/-- Every spelling is brought into the usual one. -/
theorem clean_written (name : SimpleName) (s : Spelling) :
    clean (s.written name) = s.usual name := by
  cases s with
  | bare before =>
    have hname := name.dropPrefixes_marked false
    have hbare : name.text ++ markOf false = name.text := List.append_nil _
    rw [hbare] at hname
    show clean (before.text ++ name.text) = name.text ++ markOf false
    rw [clean_eq, (settled_prefixed before name.settled).spelled_self, hbare]
    exact dropPrefixes_prefixed before hname
  | marked before front back =>
    have hname := name.dropPrefixes_marked true
    show clean (before.text ++ name.text ++ (front.text ++ '?' :: back.text)) =
      name.text ++ markOf true
    rw [clean_eq, (settled_prefixed before name.settled).spelled_marked front back,
      List.append_assoc]
    exact dropPrefixes_prefixed before hname
  | wrapped before isQualified outside inside inside' outside' =>
    have hspelled := (settled_prefixed before settled_nullableWord).spelled_wrapped
      (settled_wrappedName isQualified name) outside inside inside' outside'
    show clean (before.text ++ nullableWord ++ (outside.text ++ '<' :: inside.text) ++
      wrappedName isQualified name ++ (inside'.text ++ '>' :: outside'.text)) =
      nullableWord ++ '<' :: (wrappedName isQualified name ++ ['>'])
    rw [clean_eq]
    simp only [List.append_assoc, List.cons_append] at hspelled ⊢
    rw [hspelled]
    exact dropPrefixes_prefixed before (dropPrefixes_nullableOf _)

/-! ## Types that admit no value -/

theorem endsWith_marked (t : Text) : (t ++ ['?']).endsWith ['?'] = true :=
  List.isSuffixOf_iff_suffix.2 (List.suffix_append t ['?'])

theorem front?_eq_none {P : Pattern} {t : Text} (h : ∀ u v, t = u ++ v → ¬ P.Takes u) :
    P.front? t = none := by
  refine foundAt?_eq_none_iff.2 fun q hq => ?_
  obtain ⟨u, hread, htake⟩ := hq.takes
  exact h u q.rest hread.1 htake

theorem open_mem_of_takes_nullableWrapper {u : Text} (h : nullableWrapper.Takes u) : '<' ∈ u := by
  obtain ⟨_, _, ⟨_, _, ⟨_, _, ⟨_, _, -, hopen, rfl⟩, -, rfl⟩, -, rfl⟩, -, rfl⟩ := h
  obtain rfl := takes_lit.1 hopen
  simp

theorem open_mem_of_takes_nullableArgument {u : Text} (h : nullableArgument.Takes u) :
    '<' ∈ u := by
  obtain ⟨_, _, ⟨_, _, ⟨_, _, ⟨_, _, ⟨_, _, ⟨_, _, -, hopen, rfl⟩, -, rfl⟩, -, rfl⟩, -, rfl⟩, -,
    rfl⟩, -, rfl⟩ := h
  obtain rfl := takes_lit.1 hopen
  simp

/-- A prefix is one that may stand in front of `Nullable<…>`. -/
theorem takes_prefix (before : Prefix) :
    (maybe (lit "global::") ++ maybe (lit "System.")).Takes before.text := by
  cases before with
  | none => exact ⟨[], [], .inr rfl, .inr rfl, rfl⟩
  | system => exact ⟨[], "System.".toList, .inr rfl, .inl (takes_lit.2 rfl), rfl⟩
  | globalSystem =>
    exact ⟨"global::".toList, "System.".toList, .inl (takes_lit.2 rfl), .inl (takes_lit.2 rfl),
      by decide⟩

theorem isSome_nullableWrapper (before : Prefix) {g inner : Text}
    (hg : ∀ c ∈ g, Text.isBlank c = true) (hne : inner ≠ [])
    (hinner : ∀ c ∈ inner, inLine c = true) :
    (nullableWrapper.front? (before.text ++ nullableWord ++ g ++ ['<'] ++ inner ++
      ['>'])).isSome = true := by
  have htake : (maybe (lit "global::") ++ maybe (lit "System.") ++ lit "Nullable" ++ blanks ++
      lit "<" ++ run1 inLine ++ lit ">").Takes
      (before.text ++ nullableWord ++ g ++ ['<'] ++ inner ++ ['>']) :=
    ⟨_, _, ⟨_, _, ⟨_, _, ⟨_, _, ⟨_, _, takes_prefix before, takes_lit.2 rfl, rfl⟩, hg, rfl⟩,
      takes_lit.2 rfl, rfl⟩, takes_run1.2 ⟨hne, hinner⟩, rfl⟩, takes_lit.2 rfl, rfl⟩
  obtain ⟨q, hq⟩ := exists_leads_atEnd (by decide) htake
  have hwhole : nullableWrapper.Leads (Place.start (before.text ++ nullableWord ++ g ++
      ['<'] ++ inner ++ ['>'])) q := by
    simpa only [nullableWrapper, leads_append_assoc, leads_atStart_append] using hq
  cases hfound : nullableWrapper.front? (before.text ++ nullableWord ++ g ++ ['<'] ++ inner ++
      ['>']) with
  | some f => rfl
  | none => exact absurd hwhole (foundAt?_eq_none_iff.1 hfound q)

theorem Gap.forall_inLine (g : Gap) : ∀ c ∈ g.text, inLine c = true := by
  intro c hc
  have hunbroken := g.isUnbroken c hc
  simp only [TypeName.isUnbroken, Bool.and_eq_true] at hunbroken
  exact hunbroken.2

theorem Settled.forall_inLine {w : Text} (hw : Settled w) : ∀ c ∈ w, inLine c = true := by
  intro c hc
  rw [inLine, bne_iff_ne]
  rintro rfl
  exact absurd (hw.not_blank _ hc) (by decide)

/-- A type admits no value if its spelling says so. -/
theorem isNullable_written (name : SimpleName) (s : Spelling) :
    TypeName.isNullable (s.written name) = s.isNullable := by
  cases s with
  | bare before =>
    have hsettled := settled_prefixed before name.settled
    show TypeName.isNullable (before.text ++ name.text) = false
    rw [TypeName.isNullable, hsettled.trim_self, Bool.or_eq_false_iff]
    constructor
    · rw [← Bool.not_eq_true]
      intro hends
      have hmem := (List.isSuffixOf_iff_suffix.1 hends).subset List.mem_cons_self
      exact absurd (hsettled.not_mark _ hmem) (by decide)
    · rw [front?_eq_none]
      · rfl
      · intro u v huv htake
        have hmem := open_mem_of_takes_nullableWrapper htake
        exact absurd (hsettled.not_mark '<' (by rw [huv]; simp [hmem])) (by decide)
  | marked before front back =>
    have hsettled := settled_prefixed before name.settled
    have htrim := trim_mark (m := '?') (by decide) (hsettled.head front.text) back.isBlank
    show TypeName.isNullable (before.text ++ name.text ++ (front.text ++ '?' :: back.text)) = true
    rw [TypeName.isNullable, ← List.append_assoc, htrim, endsWith_marked, Bool.true_or]
  | wrapped before isQualified outside inside inside' outside' =>
    have hinner := settled_wrappedName isQualified name
    have hnullable := settled_prefixed before settled_nullableWord
    have htrim := trim_mark (m := '>') (by decide)
      (hnullable.head (outside.text ++ '<' :: inside.text ++ wrappedName isQualified name ++
        inside'.text)) outside'.isBlank
    have hne : inside.text ++ wrappedName isQualified name ++ inside'.text ≠ [] := by
      simp [hinner.ne_nil]
    have hline := List.forall_mem_append.2 ⟨List.forall_mem_append.2
      ⟨inside.forall_inLine, hinner.forall_inLine⟩, inside'.forall_inLine⟩
    have hsome := isSome_nullableWrapper before outside.isBlank hne hline
    show TypeName.isNullable (before.text ++ nullableWord ++
      (outside.text ++ '<' :: inside.text) ++ wrappedName isQualified name ++
      (inside'.text ++ '>' :: outside'.text)) = true
    simp only [List.append_assoc, List.cons_append, List.nil_append] at htrim hsome ⊢
    rw [TypeName.isNullable, htrim, hsome, Bool.or_true]

/-! ## Bare names -/

theorem dropMarks_nil : dropMarks [] = [] := rfl

theorem dropMarks_append_markOf {t : Text} (ht : '?' ∉ t) (isOptional : Bool) :
    dropMarks (t ++ markOf isOptional) = t := by
  have hself : dropMarks t = t := by
    rcases List.eq_nil_or_concat' t with rfl | ⟨u, c, rfl⟩
    · rfl
    · refine dropMarks_append_cons (fun hc => ht ?_) u []
      simp [hc]
  cases isOptional with
  | false => rw [markOf, if_neg Bool.false_ne_true, List.append_nil, hself]
  | true => exact (dropMarks_append_marks t 1).trans hself

theorem Settled.mark_notMem {w : Text} (hw : Settled w) {m : Char} (hm : isMark m = true) :
    m ∉ w := fun hmem => absurd ((hw.not_mark m hmem).symm.trans hm) (by simp)

/-- The bare name of a name, optional or not. -/
theorem SimpleName.base_eq (name : SimpleName) (isOptional : Bool) :
    base (name.text ++ markOf isOptional) = Text.lower name.text := by
  have hmarks := dropMarks_append_markOf (name.settled.mark_notMem (m := '?') (by decide))
  have hbare : name.text ++ markOf false = name.text := List.append_nil _
  have hself : dropMarks name.text = name.text := by simpa [hbare] using hmarks false
  have htrim : Text.trim (name.text ++ markOf isOptional) = name.text ++ markOf isOptional := by
    cases isOptional with
    | false => rw [hbare, name.settled.trim_self]
    | true =>
      have hfirst := name.settled.head []
      rw [List.append_nil] at hfirst
      exact trim_mark (m := '?') (b := []) (by decide) hfirst (by simp)
  have hdrop : dropPrefixes name.text = name.text := by
    simpa [hbare] using name.dropPrefixes_marked false
  have hnone : nullableArgument.front? name.text = none := by
    refine front?_eq_none fun u v huv htake => ?_
    refine name.settled.mark_notMem (m := '<') (by decide) ?_
    rw [huv]
    exact List.mem_append_left v (open_mem_of_takes_nullableArgument htake)
  rw [base, htrim, hmarks, name.settled.trim_self, hdrop, hnone]
  show Text.lower (Text.trim (dropMarks name.text)) = Text.lower name.text
  rw [hself, name.settled.trim_self]

section NullableArgument

variable {argument : Text}

theorem not_blank_nullableOf (h : Settled argument) :
    ∀ c ∈ nullableOf argument, Text.isBlank c = false := by
  rw [nullableOf]
  refine List.forall_mem_append.2
    ⟨settled_nullableWord.not_blank, List.forall_mem_cons.2 ⟨by decide, ?_⟩⟩
  exact List.forall_mem_append.2 ⟨h.not_blank, forall_mem_of_all (by decide)⟩

theorem exists_leads_nullableArgument (h : Settled argument) :
    ∃ q, nullableArgument.Leads (Place.start (nullableOf argument)) q := by
  have hnone : blanks.Takes [] := fun _ hc => absurd hc List.not_mem_nil
  obtain ⟨c, more, rfl⟩ := List.exists_cons_of_ne_nil h.ne_nil
  obtain ⟨hc, hmore⟩ := List.forall_mem_cons.1 h.forall_inLine
  have hkeep : (one inLine ++ run inLine .least).Takes (c :: more) :=
    ⟨[c], more, ⟨c, hc, rfl⟩, hmore, rfl⟩
  have htake : (litAnyCase "Nullable" ++ blanks ++ lit "<" ++ blanks ++
      keep "argument" (one inLine ++ run inLine .least) ++ blanks ++ lit ">").Takes
      (nullableOf (c :: more)) :=
    ⟨_, _, ⟨_, _, ⟨_, _, ⟨_, _, ⟨_, _, ⟨_, _, takes_anyCase _, hnone, rfl⟩, takes_lit.2 rfl, rfl⟩,
      hnone, rfl⟩, hkeep, rfl⟩, hnone, rfl⟩, takes_lit.2 rfl, by simp [nullableOf, nullableWord_eq]⟩
  obtain ⟨q, hq⟩ := exists_leads_atEnd (by decide) htake
  exact ⟨q, by simpa only [nullableArgument, leads_append_assoc, leads_atStart_append] using hq⟩

/-- However `Nullable<…>` is read, what is kept of it is what stands between its brackets. -/
theorem kept_of_leads_nullableArgument (h : Settled argument) {q : Place}
    (hq : nullableArgument.Leads (Place.start (nullableOf argument)) q) :
    q.kept = [("argument", argument)] := by
  obtain ⟨p7, ⟨p6, ⟨p5, ⟨p4, ⟨p3, ⟨p2, ⟨p1, ⟨_, ⟨-, rfl⟩, hname⟩, hgap⟩, hopen⟩, hgap'⟩, hkeep⟩,
    hgap''⟩, hclose⟩, hend, rfl⟩ := hq
  obtain ⟨n, hreadName, hn⟩ := hname.takes
  obtain ⟨b, hreadGap, hb⟩ := hgap.takes
  obtain ⟨_, hreadOpen, hopen'⟩ := hopen.takes
  obtain rfl := takes_lit.1 hopen'
  obtain ⟨b', hreadGap', hb'⟩ := hgap'.takes
  obtain ⟨kept, hreadKeep, -, hkept⟩ := leads_keep (by decide) hkeep
  obtain ⟨b'', hreadGap'', hb''⟩ := hgap''.takes
  obtain ⟨_, hreadClose, hclose'⟩ := hclose.takes
  obtain rfl := takes_lit.1 hclose'
  have htext : nullableOf argument = n ++ b ++ "<".toList ++ b' ++ kept ++ b'' ++ ">".toList ++
      q.rest := ((((((hreadName.trans hreadGap).trans hreadOpen).trans hreadGap').trans
        hreadKeep).trans hreadGap'').trans hreadClose).1
  have hlast : ∀ c ∈ q.rest, Text.isBlank c = true := by
    rw [onEnd] at hend
    split at hend
    · rename_i hrest
      simp [hrest]
    · rename_i c hrest
      rw [hrest, beq_iff_eq.1 hend]
      exact forall_mem_of_all (by decide)
    · exact absurd hend (by simp)
  -- there is no white space, so the parts are the name, the brackets and what is between them
  have hnil : ∀ {s : Text}, s ⊆ nullableOf argument → (∀ c ∈ s, Text.isBlank c = true) → s = [] :=
    fun hsub hs => Text.eq_nil_of_blanks (not_blank_nullableOf h) hsub hs
  obtain rfl : b = [] := hnil (by rw [htext]; intro c hc; simp [hc]) hb
  obtain rfl : b' = [] := hnil (by rw [htext]; intro c hc; simp [hc]) hb'
  obtain rfl : b'' = [] := hnil (by rw [htext]; intro c hc; simp [hc]) hb''
  have hrest : q.rest = [] := hnil (by rw [htext]; intro c hc; simp [hc]) hlast
  rw [hrest] at htext
  simp only [nullableOf, List.append_assoc, List.append_nil] at htext
  obtain ⟨-, hbehind⟩ := List.append_inj htext (length_of_takes_anyCase hn).symm
  have hsame : argument = kept := List.append_cancel_right (List.cons.inj hbehind).2
  rw [hclose.kept (by decide), hgap''.kept (by decide), hkept, hgap'.kept (by decide),
    hopen.kept (by decide), hgap.kept (by decide), hname.kept (by decide), hsame]
  rfl

theorem nullableArgument_found (h : Settled argument) :
    ∃ f, nullableArgument.front? (nullableOf argument) = some f ∧
      f.kept? "argument" = some argument := by
  obtain ⟨q, hq⟩ := exists_leads_nullableArgument h
  cases hfound : nullableArgument.front? (nullableOf argument) with
  | none => exact absurd hq (foundAt?_eq_none_iff.1 hfound q)
  | some f =>
    obtain ⟨hleads, -⟩ := foundAt?_eq_some hfound
    refine ⟨f, rfl, ?_⟩
    rw [Found.kept?, kept_of_leads_nullableArgument h hleads]
    simp

end NullableArgument

theorem base_nullableOf (isQualified : Bool) (name : SimpleName) :
    base (nullableOf (wrappedName isQualified name)) = Text.lower name.text := by
  have hinner := settled_wrappedName isQualified name
  have hbare : name.text ++ markOf false = name.text := List.append_nil _
  have htrim : Text.trim (nullableOf (wrappedName isQualified name)) =
      nullableOf (wrappedName isQualified name) :=
    Text.trim_eq_self
      (fun c hc => not_blank_nullableOf hinner c (List.mem_of_mem_head? hc))
      fun c hc => not_blank_nullableOf hinner c (List.mem_of_getLast? hc)
  have hmarks : dropMarks (nullableOf (wrappedName isQualified name)) =
      nullableOf (wrappedName isQualified name) := by
    have hlast := dropMarks_append_cons (c := '>') (by decide)
      (nullableWord ++ '<' :: wrappedName isQualified name) []
    simpa [nullableOf, dropMarks_nil] using hlast
  have hname : dropPrefixes (wrappedName isQualified name) = name.text := by
    refine dropPrefixes_prefixed _ ?_
    simpa [hbare] using name.dropPrefixes_marked false
  have hself : dropMarks name.text = name.text := by
    simpa [hbare] using
      dropMarks_append_markOf (name.settled.mark_notMem (m := '?') (by decide)) false
  obtain ⟨f, hfound, hkept⟩ := nullableArgument_found hinner
  rw [base, htrim, hmarks, htrim, dropPrefixes_nullableOf, hfound, Option.bind_some, hkept]
  show Text.lower (Text.trim (dropMarks (dropPrefixes (wrappedName isQualified name)))) = _
  rw [hname, hself, name.settled.trim_self]

/-- Whatever its spelling, a type has the bare name of the type itself. -/
theorem base_clean_written (name : SimpleName) (s : Spelling) :
    base (clean (s.written name)) = Text.lower name.text := by
  rw [clean_written]
  cases s with
  | bare before => exact name.base_eq false
  | marked before front back => exact name.base_eq true
  | wrapped before isQualified outside inside inside' outside' =>
    exact base_nullableOf isQualified name

/-! ## Candidates with a type in some spelling -/

/-- Of the type of a candidate the rules only ask whether it is optional. -/
theorem isRequired_congr {c d : Candidate} (hname : c.name = d.name)
    (hattributes : c.attributes = d.attributes)
    (hnullable : TypeName.isNullable c.rawType = TypeName.isNullable d.rawType) :
    (classify c).isRequired = (classify d).isRequired := by
  have hfacts : facts c false = facts d false := by
    rw [facts, facts, hname, hattributes, hnullable]
  rw [classify, classify, hfacts]

/-- **All spellings of a type are classified alike.**  A candidate is nullable if its type is
spelled as optional, its declared type suggests the kind of input that the bare name suggests, and
whether it must be filled in depends on no more of the spelling than that. -/
theorem classify_written (T : SimpleName) (s : Spelling) (name : Text) (attributes : List Text)
    (line : Nat) :
    (classify ⟨name, s.written T, attributes, line⟩).isNullable = s.isNullable ∧
      InputKind.ofType? (classify ⟨name, s.written T, attributes, line⟩).declaredType =
        InputKind.ofType? T.text ∧
      ∀ (s' : Spelling) (line' : Nat), s'.isNullable = s.isNullable →
        (classify ⟨name, s'.written T, attributes, line'⟩).isRequired =
          (classify ⟨name, s.written T, attributes, line⟩).isRequired := by
  refine ⟨isNullable_written T s, ?_, ?_⟩
  · have hname : base T.text = Text.lower T.text := by
      simpa [markOf] using T.base_eq false
    show InputKind.ofType? (clean (s.written T)) = InputKind.ofType? T.text
    rw [InputKind.ofType?, InputKind.ofType?, base_clean_written, hname]
  · intro s' line' hgroup
    refine isRequired_congr rfl rfl ?_
    show TypeName.isNullable (s'.written T) = TypeName.isNullable (s.written T)
    rw [isNullable_written, isNullable_written, hgroup]

/-- The name of the integers, and two ways to spell that there may be none. -/
def integerName : SimpleName := ⟨"Int32".toList, by decide, forall_mem_of_all (by decide)⟩

def spaceGap : Gap := ⟨[' '], Text.isBlank_space, forall_mem_of_all (by decide)⟩

theorem classify_written_int32 :
    (classify ⟨"Age".toList,
        (Spelling.wrapped .globalSystem true Gap.none spaceGap spaceGap
          Gap.none).written integerName, [], 1⟩).isRequired =
      (classify ⟨"Age".toList, (Spelling.marked .none spaceGap Gap.none).written integerName, [],
        1⟩).isRequired :=
  (classify_written integerName (.marked .none spaceGap Gap.none) "Age".toList [] 1).2.2
    (.wrapped .globalSystem true Gap.none spaceGap spaceGap Gap.none) 1 rfl

end RazorViews.TypeName
