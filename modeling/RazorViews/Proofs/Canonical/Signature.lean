import RazorViews.Proofs.Canonical.Types
import RazorViews.Proofs.Pattern.Counts

/-!
# The signature of a property in canonical form

The reader of signatures backtracks over modifiers, type and white space, so what it keeps as name
and type has to be the same whichever way it succeeds: `signature_unique`.  It does succeed:
`exists_signature`.  Both together give what is read of the line of a property, its name and its
type as they are written: `readSignature?_property`.

That there is one way only is not plain.  A modifier is a word with white space behind it, and so
may be the beginning of a type; the type is matched by a pattern that admits words, dots, brackets
and white space, and the name is any word.  What decides is that a type in canonical form is not of
two words (`not_takes_of_words`): the first word of the line is the modifier and can be nothing else
(`firstWord_unique`), the last word in front of the accessors is the name (`name_unique`), and what
stands between is the type (`type_unique`).
-/

namespace RazorViews.Canonical

open Pattern Member

/-! ## What a signature reads -/

/-- The modifiers in front of a type. -/
def modifierWords : Pattern := many (firstOf (Member.modifiers.map lit) ++ blanks1)

/-- Whatever the pattern takes begins with the character. -/
def Begins (x : Char) (P : Pattern) : Prop := ∀ u, P.Takes u → ∃ rest, u = x :: rest

theorem begins_one (x : Char) : Begins x (one (· == x)) := by
  rintro u ⟨c, hc, rfl⟩
  exact ⟨[], by rw [beq_iff_eq.1 hc]⟩

theorem Begins.append {x : Char} {a : Pattern} (h : Begins x a) (b : Pattern) :
    Begins x (a ++ b) := by
  rintro u ⟨v, w, hv, _, rfl⟩
  obtain ⟨rest, rfl⟩ := h v hv
  exact ⟨rest ++ w, rfl⟩

theorem begins_accessorBlock : Begins '{' accessorBlock :=
  ((((((begins_one '{').append _).append _).append _).append _).append _).append _

/-- The stretches that a signature reads, of which it keeps two. -/
theorem signature_reads {t : Text} {q : Place} (h : signature.Leads (Place.start t) q) :
    ∃ mods type gap name gap' rest,
      t = mods ++ type ++ gap ++ name ++ gap' ++ '{' :: rest ∧ modifierWords.Takes mods ∧
      memberType.Takes type ∧ blanks1.Takes gap ∧ identifier.Takes name ∧ blanks.Takes gap' ∧
      q.kept = [("name", name), ("type", type)] := by
  obtain ⟨p5, ⟨p4, ⟨p3, ⟨p2, ⟨p1, ⟨p0, ⟨_, rfl⟩, hmods⟩, htype⟩, hgap⟩, hname⟩, hgap'⟩, hblock⟩ := h
  obtain ⟨mods, hreadMods, hmods'⟩ := hmods.takes
  obtain ⟨type, hreadType, htype', hkeptType⟩ := leads_keep (by decide) htype
  obtain ⟨gap, hreadGap, hgap1⟩ := hgap.takes
  obtain ⟨name, hreadName, hname', hkeptName⟩ := leads_keep (by decide) hname
  obtain ⟨gap', hreadGap', hgap1'⟩ := hgap'.takes
  obtain ⟨block, hreadBlock, hblock'⟩ := hblock.takes
  obtain ⟨rest, rfl⟩ := begins_accessorBlock block hblock'
  refine ⟨mods, type, gap, name, gap', rest ++ q.rest, ?_, hmods', htype', hgap1, hname', hgap1',
    ?_⟩
  · have hread := ((((hreadMods.trans hreadType).trans hreadGap).trans hreadName).trans
      hreadGap').trans hreadBlock
    have htext : t = _ := hread.1
    simpa only [List.append_assoc, List.cons_append] using htext
  · rw [hblock.kept (by decide), hgap'.kept (by decide), hkeptName, hgap.kept (by decide),
      hkeptType, hmods.kept (by decide)]
    rfl

/-! ## The property line -/

/-- What stands in front of the accessors of a property. -/
def propertyFront (type : TypeText) (name : Identifier) : Text :=
  publicWord ++ ' ' :: type.written ++ ' ' :: name.text ++ [' ']

theorem property_written (type : TypeText) (name : Identifier) :
    (BodyLine.property type name).written = propertyFront type name ++ getAndSet := by
  rw [BodyLine.written, propertyFront]
  simp only [List.append_assoc, List.cons_append, List.nil_append]

theorem propertyFront_typeChars (type : TypeText) (name : Identifier) :
    ∀ c ∈ propertyFront type name, isTypeChar c = true := by
  have hpublic : ∀ c ∈ publicWord, isTypeChar c = true := forall_mem_of_all (by decide)
  have htype : ∀ c ∈ ' ' :: type.written, isTypeChar c = true :=
    List.forall_mem_cons.2 ⟨by decide, type.typeChars⟩
  have hname : ∀ c ∈ ' ' :: name.text, isTypeChar c = true :=
    List.forall_mem_cons.2 ⟨by decide, name.typeChars⟩
  exact List.forall_mem_append.2 ⟨List.forall_mem_append.2 ⟨List.forall_mem_append.2
    ⟨hpublic, htype⟩, hname⟩, forall_mem_of_all (by decide)⟩

theorem brace_notMem_propertyFront (type : TypeText) (name : Identifier) :
    '{' ∉ propertyFront type name := fun h =>
  absurd (propertyFront_typeChars type name '{' h) (by decide)

theorem front_unique {front front' rest rest' : Text}
    (h : front ++ '{' :: rest = front' ++ '{' :: rest')
    (hfront : '{' ∉ front) (hfront' : '{' ∉ front') : front = front' := by
  rcases List.append_eq_append_iff.1 h with ⟨a, rfl, ha⟩ | ⟨a, rfl, ha⟩
  · cases a with
    | nil => exact (List.append_nil front).symm
    | cons c a =>
      obtain rfl := (List.cons.inj ha).1
      exact absurd (by simp) hfront'
  · cases a with
    | nil => exact List.append_nil front'
    | cons c a =>
      obtain rfl := (List.cons.inj ha).1
      exact absurd (by simp) hfront

theorem firstWord_eq {word gap more : Text} (hword : ∀ c ∈ word, Text.isBlank c = false)
    (hgap : ∀ c ∈ gap, Text.isBlank c = true) (hne : gap ≠ [])
    (hmore : ∀ c ∈ more.head?, Text.isBlank c = false) :
    (word ++ (gap ++ more)).takeWhile (!Text.isBlank ·) = word ∧
      Text.trimLeft ((word ++ (gap ++ more)).dropWhile (!Text.isBlank ·)) = more := by
  have hall : ∀ c ∈ word, (!Text.isBlank c) = true := by
    intro c hc
    rw [hword c hc]
    rfl
  rw [List.takeWhile_append_of_pos hall, List.dropWhile_append_of_pos hall]
  cases gap with
  | nil => exact absurd rfl hne
  | cons g gap =>
    have hg : Text.isBlank g = true := hgap g List.mem_cons_self
    have htrim : Text.trimLeft (g :: gap ++ more) = more := by
      rw [Text.trimLeft_blanks_append hgap, Text.trimLeft_eq_self hmore]
    rw [List.cons_append] at htrim ⊢
    constructor
    · rw [List.takeWhile_cons_of_neg (by simp [hg]), List.append_nil]
    · rw [List.dropWhile_cons_of_neg (by simp [hg]), htrim]

/-- What a text begins with, a word and white space, is determined by the text. -/
theorem firstWord_unique {word word' gap gap' more more' : Text}
    (h : word ++ (gap ++ more) = word' ++ (gap' ++ more'))
    (hword : ∀ c ∈ word, Text.isBlank c = false) (hword' : ∀ c ∈ word', Text.isBlank c = false)
    (hgap : ∀ c ∈ gap, Text.isBlank c = true) (hgap' : ∀ c ∈ gap', Text.isBlank c = true)
    (hne : gap ≠ []) (hne' : gap' ≠ []) (hmore : ∀ c ∈ more.head?, Text.isBlank c = false)
    (hmore' : ∀ c ∈ more'.head?, Text.isBlank c = false) : word = word' ∧ more = more' := by
  obtain ⟨htake, hdrop⟩ := firstWord_eq hword hgap hne hmore
  obtain ⟨htake', hdrop'⟩ := firstWord_eq hword' hgap' hne' hmore'
  rw [h] at htake hdrop
  exact ⟨htake.symm.trans htake', hdrop.symm.trans hdrop'⟩

/-! ## Nothing else can be kept -/

theorem takes_modifier {v : Text}
    (h : (firstOf (Member.modifiers.map lit) ++ blanks1).Takes v) :
    ∃ m gap, v = m ++ gap ∧ m ≠ [] ∧ (∀ c ∈ m, Text.isWord c = true) ∧ gap ≠ [] ∧
      ∀ c ∈ gap, Text.isBlank c = true := by
  obtain ⟨m, gap, hm, hgap, rfl⟩ := h
  obtain ⟨P, hP, htake⟩ := (takes_firstOf (by decide)).1 hm
  obtain ⟨s, hs, rfl⟩ := List.mem_map.1 hP
  obtain rfl := takes_lit.1 htake
  obtain ⟨hne, hblank⟩ := takes_run1.1 hgap
  have hall : (Member.modifiers.all fun s =>
      !s.toList.isEmpty && s.toList.all fun c => Text.isWord c == true) = true := by
    decide
  obtain ⟨hsome, hword⟩ := Bool.and_eq_true_iff.1 (List.all_eq_true.1 hall s hs)
  have hstring : s.toList ≠ [] := by
    intro hnil
    rw [hnil] at hsome
    exact absurd hsome (by simp)
  exact ⟨s.toList, gap, rfl, hstring, forall_mem_of_all hword, hne, hblank⟩

theorem exists_head (vs : List Text)
    (hvs : ∀ v ∈ vs, (firstOf (Member.modifiers.map lit) ++ blanks1).Takes v) {u : Text}
    (hu : memberType.Takes u) : ∃ c rest, vs.flatten ++ u = c :: rest ∧ Text.isWord c = true := by
  cases vs with
  | nil =>
    obtain ⟨c, word, tail, rfl, hc, _⟩ := exists_word_of_takes hu
    exact ⟨c, word ++ tail, rfl, isWord_of_isAsciiWord (isAsciiWord_of_isIdentifierStart hc)⟩
  | cons v vs =>
    obtain ⟨m, gap, rfl, hne, hword, _⟩ := takes_modifier (hvs v List.mem_cons_self)
    cases m with
    | nil => exact absurd rfl hne
    | cons c m => exact ⟨c, m ++ gap ++ vs.flatten ++ u, by simp, hword c List.mem_cons_self⟩

/-- Modifiers and a type make up one modifier and a type in canonical form in one way only. -/
theorem type_unique {vs : List Text}
    (hvs : ∀ v ∈ vs, (firstOf (Member.modifiers.map lit) ++ blanks1).Takes v) {u b : Text}
    (hu : memberType.Takes u) (hb : ∀ c ∈ b, Text.isBlank c = true) {type : TypeText}
    (h : vs.flatten ++ u ++ b = publicWord ++ ([' '] ++ type.written)) :
    Text.trim u = type.written := by
  obtain ⟨y, r, hy, hyword⟩ := exists_head [] (by simp) (takes_type type)
  rw [List.flatten_nil, List.nil_append] at hy
  have hdotted : ∀ {t : Text}, (∀ c ∈ t, Text.isWord c = true) →
      ∀ c ∈ t, (Text.isWord c || c == '.') = true := by
    intro t ht c hc
    rw [ht c hc]
    rfl
  cases vs with
  | nil =>
    -- the type would hold two words
    rw [List.flatten_nil, List.nil_append, hy] at h
    exact absurd h (not_takes_of_words hu hb (hdotted (forall_mem_of_all (by decide))) (by simp)
      (forall_mem_of_all (by decide)) hyword)
  | cons v vs =>
    obtain ⟨m, gap, rfl, _, hm, hne, hgap⟩ := takes_modifier (hvs v List.mem_cons_self)
    have hvs' := fun w hw => hvs w (List.mem_cons_of_mem _ hw)
    obtain ⟨z, s, hz, hzword⟩ := exists_head vs hvs' hu
    have hsplit : m ++ (gap ++ (vs.flatten ++ u ++ b)) = publicWord ++ ([' '] ++ type.written) := by
      simpa only [List.flatten_cons, List.append_assoc] using h
    have hpublic : ∀ c ∈ publicWord, Text.isBlank c = false := forall_mem_of_all (by decide)
    obtain ⟨_, htype⟩ := firstWord_unique hsplit
      (fun c hc => Text.not_isBlank_of_isWord (hm c hc)) hpublic hgap
      (forall_mem_of_all (by decide)) hne (by simp)
      (by
        rw [hz]
        rintro c hc
        obtain rfl := Option.some.inj hc
        exact Text.not_isBlank_of_isWord hzword)
      (by
        rw [hy]
        rintro c hc
        obtain rfl := Option.some.inj hc
        exact Text.not_isBlank_of_isWord hyword)
    cases vs with
    | nil =>
      rw [List.flatten_nil, List.nil_append] at htype
      rw [← Text.trim_append_blanks hb u, htype, trim_type]
    | cons v' vs =>
      -- the type in canonical form would hold two words
      obtain ⟨m', gap', rfl, _, hm', hne', hgap'⟩ := takes_modifier (hvs' v' List.mem_cons_self)
      obtain ⟨z', s', hz', hzword'⟩ :=
        exists_head vs (fun w hw => hvs' w (List.mem_cons_of_mem _ hw)) hu
      have hwords : type.written ++ [] = m' ++ (gap' ++ z' :: (s' ++ b)) := by
        rw [← htype, List.append_nil, List.flatten_cons, List.append_assoc (m' ++ gap'), hz']
        simp only [List.append_assoc, List.cons_append]
      exact absurd hwords
        (not_takes_of_words (takes_type type) (by simp) (hdotted hm') hne' hgap' hzword')

/-- What stands in front of the accessors ends with the name in one way only. -/
theorem name_unique {front word gap : Text} {c : Char} {type : TypeText} {name : Identifier}
    (h : front ++ c :: word ++ gap = propertyFront type name) (hc : Text.isBlank c = true)
    (hne : word ≠ []) (hword : ∀ d ∈ word, Text.isWord d = true)
    (hgap : ∀ d ∈ gap, Text.isBlank d = true) :
    front = publicWord ++ ([' '] ++ type.written) ∧ word = name.text := by
  have hname : ∀ d ∈ name.text, Text.isBlank d = false := fun d hd =>
    Text.not_isBlank_of_isWord (isWord_of_isAsciiWord (name.isAsciiWord d hd))
  have hblank : ∀ d ∈ word, Text.isBlank d = false := fun d hd =>
    Text.not_isBlank_of_isWord (hword d hd)
  have hlast : ∀ {x w : Text} {d : Char}, w ≠ [] → (∀ e ∈ w, Text.isBlank e = false) →
      Text.trimRight (x ++ d :: w) = x ++ d :: w := by
    intro x w d hw hall
    apply Text.trimRight_eq_self
    intro e he
    rw [List.getLast?_append, List.getLast?_cons_of_ne_nil hw,
      List.getLast?_eq_some_getLast hw] at he
    obtain rfl := Option.some.inj he
    exact hall _ (List.getLast_mem hw)
  have hnamene : name.text ≠ [] := List.cons_ne_nil _ _
  have htrim := congrArg Text.trimRight h
  rw [Text.trimRight_append_blanks hgap, hlast hne hblank, propertyFront,
    Text.trimRight_append_blanks (forall_mem_of_all (by decide)), hlast hnamene hname] at htrim
  obtain ⟨hfront, _, hword'⟩ := Text.lastWord_unique htrim hc (by decide) hblank hname
  exact ⟨hfront, hword'⟩

theorem takes_identifier {u : Text} (h : identifier.Takes u) :
    u ≠ [] ∧ ∀ c ∈ u, Text.isWord c = true := by
  obtain ⟨_, w, ⟨c, hc, rfl⟩, hw, rfl⟩ := h
  exact ⟨List.cons_ne_nil c w, List.forall_mem_cons.2
    ⟨isWord_of_isAsciiWord (isAsciiWord_of_isIdentifierStart hc), hw⟩⟩

/-- Whichever way the signature of a property in canonical form is read, name and type are the
same. -/
theorem signature_unique {type : TypeText} {name : Identifier} {q : Place}
    (h : signature.Leads (Place.start (propertyFront type name ++ getAndSet)) q) :
    ∃ u, q.kept = [("name", name.text), ("type", u)] ∧ Text.trim u = type.written := by
  obtain ⟨_, u, gap, word, gap', rest, htext, ⟨vs, hvs, rfl⟩, hu, hgap, hword, hgap', hkept⟩ :=
    signature_reads h
  -- what stands in front of the first brace holds none
  have hbrace : '{' ∉ vs.flatten ++ u ++ gap ++ word ++ gap' := by
    have hcounts : Counts '{' 0 (modifierWords ++ memberType ++ blanks1 ++ identifier ++ blanks) :=
      counts_of_avoids (by decide +kernel)
    refine List.count_eq_zero.1 (hcounts _ ?_)
    exact ⟨_, _, ⟨_, _, ⟨_, _, ⟨_, _, ⟨vs, hvs, rfl⟩, hu, rfl⟩, hgap, rfl⟩, hword, rfl⟩, hgap', rfl⟩
  have hset : getAndSet = '{' :: getAndSet.tail := by decide
  rw [hset] at htext
  have hfront := front_unique htext (brace_notMem_propertyFront type name) hbrace
  -- the name is the last word in front of it
  obtain ⟨hne, hblank⟩ := takes_run1.1 hgap
  obtain ⟨gap0, c, rfl⟩ : ∃ gap0 c, gap = gap0 ++ [c] :=
    ⟨gap.dropLast, gap.getLast hne, (List.dropLast_concat_getLast hne).symm⟩
  obtain ⟨hwordne, hwordall⟩ := takes_identifier hword
  have hsplit : (vs.flatten ++ u ++ gap0) ++ c :: word ++ gap' = propertyFront type name := by
    rw [hfront]
    simp only [List.append_assoc, List.cons_append, List.nil_append]
  obtain ⟨htype, rfl⟩ := name_unique hsplit (hblank c (by simp)) hwordne hwordall hgap'
  refine ⟨u, hkept, type_unique hvs hu ?_ htype⟩
  exact fun d hd => hblank d (List.mem_append_left _ hd)

/-! ## A signature is read -/

theorem takes_space : blanks.Takes [' '] := by
  intro c hc
  rw [List.mem_singleton.1 hc]
  decide

theorem exists_accessors {p : Place} (hp : p.rest = getAndSet) : ∃ q, accessorBlock.Leads p q := by
  have hset : getAndSet = ['{', ' ', 'g', 'e', 't'] ++ "; set; \x7d".toList := by decide
  have hfront : (one (· == '{') ++ blanks ++
      many (firstOf (accessorModifiers.map lit) ++ blanks1) ++
      firstOf (accessors.map lit)).Takes ['{', ' ', 'g', 'e', 't'] := by
    have hget : (firstOf (accessors.map lit)).Takes ['g', 'e', 't'] :=
      (takes_firstOf (by decide)).2 ⟨lit "get", by simp [accessors], takes_lit.2 (by decide)⟩
    exact ⟨['{', ' '], _, ⟨['{', ' '], [], ⟨['{'], [' '], ⟨'{', by decide, rfl⟩, takes_space, rfl⟩,
      ⟨[], by simp, rfl⟩, rfl⟩, hget, rfl⟩
  obtain ⟨m, hm, hread⟩ := hfront.leads (by decide) (hp.trans hset)
  have hrest : m.rest = "; set; \x7d".toList :=
    List.append_cancel_left (hread.1.symm.trans (hp.trans hset))
  have hedge : onWordEdge m = true := by
    rw [onWordEdge, hread.2.2, hrest]
    show (isWordSide (some 't') != isWordSide (some ';')) = true
    decide
  have hinside : ∀ c ∈ "; set; ".toList, (c != '}') = true := forall_mem_of_all (by decide)
  have hback : (run (· != '}') .most ++ one (· == '}')).Takes "; set; \x7d".toList :=
    ⟨"; set; ".toList, ['}'], hinside, ⟨'}', by decide, rfl⟩, by decide⟩
  obtain ⟨q, ⟨m', hrun, hclose⟩, _⟩ :=
    hback.leads (by decide) (hrest.trans (List.append_nil _).symm)
  exact ⟨q, m', ⟨m, ⟨m, hm, hedge, rfl⟩, hrun⟩, hclose⟩

theorem exists_signature (type : TypeText) (name : Identifier) :
    ∃ q, signature.Leads (Place.start (propertyFront type name ++ getAndSet)) q := by
  have hpublic : modifierWords.Takes (publicWord ++ [' ']) := by
    refine ⟨[publicWord ++ [' ']], ?_, by simp⟩
    intro v hv
    rw [List.mem_singleton.1 hv]
    refine ⟨publicWord, [' '], (takes_firstOf (by decide)).2 ⟨lit "public", ?_, takes_lit.2 rfl⟩,
      takes_run1.2 ⟨by simp, forall_mem_of_all (by decide)⟩, rfl⟩
    simp [Member.modifiers]
  have hname : identifier.Takes name.text := by
    refine ⟨[name.first], name.more, ⟨_, name.isStart, rfl⟩, ?_, rfl⟩
    exact fun c hc => isWord_of_isAsciiWord (name.isWord c hc)
  have hblank1 : blanks1.Takes [' '] := takes_run1.2 ⟨by simp, forall_mem_of_all (by decide)⟩
  have hfront : (modifierWords ++ keep "type" memberType ++ blanks1 ++ keep "name" identifier ++
      blanks).Takes (publicWord ++ [' '] ++ type.written ++ [' '] ++ name.text ++ [' ']) :=
    ⟨_, _, ⟨_, _, ⟨_, _, ⟨_, _, hpublic, takes_type type, rfl⟩, hblank1, rfl⟩, hname, rfl⟩,
      takes_space, rfl⟩
  have hstart : (Place.start (propertyFront type name ++ getAndSet)).rest =
      publicWord ++ [' '] ++ type.written ++ [' '] ++ name.text ++ [' '] ++ getAndSet := by
    show propertyFront type name ++ getAndSet = _
    simp only [propertyFront, List.append_assoc, List.cons_append, List.nil_append]
  obtain ⟨m, ⟨p4, ⟨p3, ⟨p2, ⟨p1, hmods, htype⟩, hgap⟩, hkeep⟩, hgap'⟩, hread⟩ :=
    hfront.leads (by decide) hstart
  obtain ⟨q, hq⟩ := exists_accessors (List.append_cancel_left (hread.1.symm.trans hstart))
  exact ⟨q, m, ⟨p4, ⟨p3, ⟨p2, ⟨p1, ⟨_, ⟨rfl, rfl⟩, hmods⟩, htype⟩, hgap⟩, hkeep⟩, hgap'⟩, hq⟩

/-- The signature of a property in canonical form is read as it is written. -/
theorem readSignature?_property (type : TypeText) (name : Identifier) :
    readSignature? (BodyLine.property type name).written = some (name.text, type.written) := by
  obtain ⟨q, hq⟩ := exists_signature type name
  obtain ⟨f, hf⟩ := exists_foundAt? hq
  obtain ⟨hlead, _, _⟩ := foundAt?_eq_some hf
  obtain ⟨u, hkept, htrim⟩ := signature_unique hlead
  have hname : f.kept? "name" = some name.text := by
    rw [Found.kept?, hkept]
    rfl
  have htype : f.kept? "type" = some u := by
    rw [Found.kept?, hkept]
    rfl
  rw [property_written, readSignature?, front?, hf]
  simp only [Option.bind_some, hname, htype, Option.map_some, htrim]

end RazorViews.Canonical
