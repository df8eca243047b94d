import RazorViews.Proofs.Canonical.Syntax
import RazorViews.Proofs.Pattern.Takes
import RazorViews.Proofs.Text.Trim

/-!
# Types in canonical form

A type in canonical form is one that a member may have: whatever its path, its arguments and its
suffix, the pattern for types takes it (`takes_type`).  It is made of few kinds of characters
(`TypeText.typeChars`), among them no brace, no quote and no slash, so it is neither cut by erasing
nor counted among the braces.

The pattern takes more than these types, as it must; but a member that might have a type of two
words could be read in two ways, with the second word for the type's or for the member's name.  No
text that begins with two words is taken (`not_takes_of_words`): behind the word that a type begins
with stands a mark, or white space and then a mark, or nothing (`exists_word_of_takes`).
-/

namespace RazorViews.Canonical

open Pattern Member

/-! ## Characters -/

/-- A test of all characters of a text, one by one. -/
theorem forall_mem_of_all {test : Char → Bool} {b : Bool} {t : Text}
    (h : (t.all fun c => test c == b) = true) : ∀ c ∈ t, test c = b := by
  intro c hc
  exact beq_iff_eq.1 (List.all_eq_true.1 h c hc)

theorem isWord_of_isAsciiWord {c : Char} (h : isAsciiWord c = true) : Text.isWord c = true := by
  have hlt : c.toNat < 0x80 := by
    have hval : ((c.val ≥ 'A'.val ∧ c.val ≤ 'Z'.val) ∨ (c.val ≥ 'a'.val ∧ c.val ≤ 'z'.val)) ∨
        (c.val ≥ '0'.val ∧ c.val ≤ '9'.val) ∨ c = '_' := by
      have hbool : (((decide (c.val ≥ 'A'.val ∧ c.val ≤ 'Z'.val) ||
          (c.val ≥ 'a'.val && c.val ≤ 'z'.val)) || (c.val ≥ '0'.val && c.val ≤ '9'.val)) ||
          c == '_') = true := h
      simpa only [Bool.or_eq_true, Bool.and_eq_true, decide_eq_true_eq, beq_iff_eq, or_assoc]
        using hbool
    have hc : c.toNat = c.val.toNat := rfl
    rw [hc]
    rcases hval with (⟨_, hlast⟩ | ⟨_, hlast⟩) | ⟨_, hlast⟩ | rfl
    · exact Nat.lt_of_le_of_lt hlast (by decide)
    · exact Nat.lt_of_le_of_lt hlast (by decide)
    · exact Nat.lt_of_le_of_lt hlast (by decide)
    · decide
  rw [Text.isWord, if_pos hlt]
  exact h

theorem isAsciiWord_of_isIdentifierStart {c : Char} (h : Text.isIdentifierStart c = true) :
    isAsciiWord c = true := by
  rw [Text.isIdentifierStart, Bool.or_eq_true] at h
  show ((c.isAlpha || c.isDigit) || c == '_') = true
  rw [Bool.or_eq_true, Bool.or_eq_true]
  rcases h with h | h
  · exact .inl (.inl h)
  · exact .inr h

theorem Identifier.isAsciiWord (i : Identifier) : ∀ c ∈ i.text, isAsciiWord c = true := by
  intro c hc
  rcases List.mem_cons.1 hc with rfl | hc
  · exact isAsciiWord_of_isIdentifierStart i.isStart
  · exact i.isWord c hc

/-- The characters that types are made of. -/
def isTypeChar (c : Char) : Bool :=
  Canonical.isAsciiWord c || ['.', ',', ' ', '<', '>', '[', ']', '?'].contains c

theorem Identifier.typeChars (i : Identifier) : ∀ c ∈ i.text, isTypeChar c = true := by
  intro c hc
  rw [isTypeChar, i.isAsciiWord c hc]
  rfl

theorem Path.isAsciiWord_or_dot (p : Path) :
    ∀ c ∈ p.written, Canonical.isAsciiWord c = true ∨ c = '.' := by
  intro c hc
  rcases List.mem_append.1 hc with hc | hc
  · exact .inl (p.head.isAsciiWord c hc)
  · obtain ⟨i, _, hc⟩ := List.mem_flatMap.1 hc
    rcases List.mem_cons.1 hc with rfl | hc
    · exact .inr rfl
    · exact .inl (i.isAsciiWord c hc)

theorem Path.typeChars (p : Path) : ∀ c ∈ p.written, isTypeChar c = true := by
  intro c hc
  rcases p.isAsciiWord_or_dot c hc with hc | rfl
  · rw [isTypeChar, hc]
    rfl
  · decide

theorem Suffix.mem_marks (s : Suffix) : ∀ c ∈ s.written, c ∈ ['[', ']', '?'] := by
  intro c hc
  rcases List.mem_append.1 hc with hc | hc
  · obtain ⟨b, hb, hc⟩ := List.mem_flatten.1 hc
    obtain rfl := List.eq_of_mem_replicate hb
    exact List.mem_append_left ['?'] hc
  · split at hc
    · exact List.mem_append_right ['[', ']'] hc
    · exact absurd hc List.not_mem_nil

theorem Suffix.typeChars (s : Suffix) : ∀ c ∈ s.written, isTypeChar c = true := by
  have hall : ∀ c ∈ ['[', ']', '?'], isTypeChar c = true :=
    forall_mem_of_all (by decide)
  exact fun c hc => hall c (s.mem_marks c hc)

theorem spaces_typeChars (n : Nat) : ∀ c ∈ spaces n, isTypeChar c = true := by
  intro c hc
  rw [List.eq_of_mem_replicate hc]
  decide

mutual

theorem TypeText.typeChars : ∀ (t : TypeText), ∀ c ∈ t.written, isTypeChar c = true
  | .plain path suffix => List.forall_mem_append.2 ⟨path.typeChars, suffix.typeChars⟩
  | .generic path arguments suffix => by
    have hopen : ∀ c ∈ '<' :: arguments.written, isTypeChar c = true :=
      List.forall_mem_cons.2 ⟨by decide, arguments.typeChars⟩
    have hclose : ∀ c ∈ '>' :: suffix.written, isTypeChar c = true :=
      List.forall_mem_cons.2 ⟨by decide, suffix.typeChars⟩
    exact List.forall_mem_append.2 ⟨List.forall_mem_append.2 ⟨path.typeChars, hopen⟩, hclose⟩

theorem Arguments.typeChars : ∀ (a : Arguments), ∀ c ∈ a.written, isTypeChar c = true
  | .last gap type => List.forall_mem_append.2 ⟨spaces_typeChars gap, type.typeChars⟩
  | .next gap type more => by
    have hfirst := List.forall_mem_append.2 ⟨spaces_typeChars gap, type.typeChars⟩
    have hmore : ∀ c ∈ ',' :: more.written, isTypeChar c = true :=
      List.forall_mem_cons.2 ⟨by decide, more.typeChars⟩
    exact List.forall_mem_append.2 ⟨hfirst, hmore⟩

end

/-! ## Types of members -/

theorem takes_path (p : Path) :
    (one Text.isIdentifierStart ++ run (fun c => Text.isWord c || c == '.') .most).Takes
      p.written := by
  refine takes_append.2 ⟨[p.head.first], p.head.more ++ p.steps.flatMap fun i => '.' :: i.text,
    ⟨_, p.head.isStart, rfl⟩, ?_, rfl⟩
  intro c hc
  show (Text.isWord c || c == '.') = true
  rcases p.isAsciiWord_or_dot c (List.mem_cons_of_mem _ hc) with hc | rfl
  · rw [isWord_of_isAsciiWord hc]
    rfl
  · decide

theorem takes_nil_blanks : blanks.Takes [] := fun _ hc => absurd hc List.not_mem_nil

theorem takes_arrays (n : Nat) :
    (many (blanks ++ lit "[" ++ run (fun c => Text.isBlank c || c == ',') .most ++ lit "]")).Takes
      (List.replicate n ['[', ']']).flatten := by
  refine ⟨List.replicate n ['[', ']'], ?_, rfl⟩
  intro v hv
  obtain rfl := List.eq_of_mem_replicate hv
  have hopen : (blanks ++ lit "[").Takes ['['] := ⟨[], _, takes_nil_blanks, takes_lit.2 rfl, rfl⟩
  have hinside : (run (fun c => Text.isBlank c || c == ',') .most).Takes [] :=
    fun _ hc => absurd hc List.not_mem_nil
  exact takes_append.2 ⟨['['], [']'], takes_append.2 ⟨['['], [], hopen, hinside, rfl⟩,
    takes_lit.2 rfl, rfl⟩

namespace TypeText

def path : TypeText → Path
  | plain path _ | generic path _ _ => path

def suffix : TypeText → Suffix
  | plain _ suffix | generic _ _ suffix => suffix

/-- What stands between the path and the suffix. -/
def argumentList : TypeText → Text
  | plain .. => []
  | generic _ arguments _ => '<' :: arguments.written ++ ['>']

theorem written_eq (t : TypeText) :
    t.written = t.path.written ++ t.argumentList ++ t.suffix.written := by
  cases t with
  | plain path suffix =>
    rw [argumentList, List.append_nil]
    rfl
  | generic path arguments suffix =>
    simp [TypeText.written, argumentList, TypeText.path, TypeText.suffix]

end TypeText

theorem takes_argumentList (t : TypeText) :
    (maybe (blanks ++ lit "<" ++ run (fun c => c != '{' && c != '}') .most ++ lit ">")).Takes
      t.argumentList := by
  cases t with
  | plain path suffix => exact .inr rfl
  | generic path arguments suffix =>
    left
    have hopen : (blanks ++ lit "<").Takes ['<'] := ⟨[], _, takes_nil_blanks, takes_lit.2 rfl, rfl⟩
    refine takes_append.2 ⟨'<' :: arguments.written, ['>'],
      takes_append.2 ⟨['<'], arguments.written, hopen, ?_, rfl⟩, takes_lit.2 rfl, rfl⟩
    intro c hc
    have hchar := arguments.typeChars c hc
    have hbrace : c ≠ '{' := fun he => absurd hchar (he ▸ by decide)
    have hbrace' : c ≠ '}' := fun he => absurd hchar (he ▸ by decide)
    simp [hbrace, hbrace']

/-- A type in canonical form is one that a member may have. -/
theorem takes_type (t : TypeText) : memberType.Takes t.written := by
  have hfront := takes_append.2 ⟨_, _, takes_append.2 ⟨_, _, takes_path t.path,
    takes_argumentList t, rfl⟩, takes_arrays t.suffix.arrays, rfl⟩
  have hmark : (maybe (lit "?")).Takes (if t.suffix.isOptional then ['?'] else []) := by
    split
    · exact .inl (takes_lit.2 rfl)
    · exact .inr rfl
  refine takes_append.2 ⟨_, _, takes_append.2 ⟨_, _, hfront, takes_nil_blanks, rfl⟩, hmark, ?_⟩
  rw [t.written_eq, List.append_nil, Suffix.written, List.append_assoc _ _ (ite ..)]

theorem trim_type (t : TypeText) : Text.trim t.written = t.written := by
  have hpath : ∀ c ∈ t.path.written, Text.isBlank c = false := by
    intro c hc
    rcases t.path.isAsciiWord_or_dot c hc with hc | rfl
    · exact Text.not_isBlank_of_isWord (isWord_of_isAsciiWord hc)
    · decide
  have harguments : ∀ c ∈ t.argumentList.getLast?, Text.isBlank c = false := by
    cases t with
    | plain path suffix => exact fun _ hc => absurd hc (by simp [TypeText.argumentList])
    | generic path arguments suffix =>
      intro c hc
      rw [TypeText.argumentList, List.getLast?_concat] at hc
      obtain rfl := Option.some.inj hc
      decide
  have hsuffix : ∀ c ∈ t.suffix.written, Text.isBlank c = false := by
    have hall : ∀ c ∈ ['[', ']', '?'], Text.isBlank c = false := forall_mem_of_all (by decide)
    exact fun c hc => hall c (t.suffix.mem_marks c hc)
  apply Text.trim_eq_self
  · intro c hc
    rw [t.written_eq] at hc
    obtain rfl := Option.some.inj hc
    exact hpath _ (List.mem_append_left _ List.mem_cons_self)
  · intro c hc
    rw [t.written_eq, List.getLast?_append, List.getLast?_append] at hc
    cases hs : t.suffix.written.getLast? with
    | some d =>
      rw [hs] at hc
      obtain rfl := Option.some.inj hc
      exact hsuffix d (List.mem_of_getLast? hs)
    | none =>
      rw [hs, Option.none_or] at hc
      cases ha : t.argumentList.getLast? with
      | some d =>
        rw [ha] at hc
        obtain rfl := Option.some.inj hc
        exact harguments d ha
      | none =>
        rw [ha, Option.none_or] at hc
        exact hpath c (List.mem_of_getLast? hc)

/-! ## What a type of a member looks like -/

/-- The text does not go on with another word. -/
def NoWordNext (t : Text) : Prop := ∀ c ∈ (Text.trimLeft t).head?, c = '<' ∨ c = '[' ∨ c = '?'

theorem noWordNext_of_mark {b t : Text} {c : Char} (hb : ∀ d ∈ b, Text.isBlank d = true)
    (hc : c = '<' ∨ c = '[' ∨ c = '?') : NoWordNext (b ++ c :: t) := by
  have hblank : Text.isBlank c = false := by rcases hc with rfl | rfl | rfl <;> decide
  rw [NoWordNext, Text.trimLeft_blanks_append hb, Text.trimLeft_eq_self]
  · intro d hd
    obtain rfl := Option.some.inj hd
    exact hc
  · intro d hd
    obtain rfl := Option.some.inj hd
    exact hblank

theorem noWordNext_of_blanks {b : Text} (hb : ∀ d ∈ b, Text.isBlank d = true) : NoWordNext b := by
  rw [NoWordNext, Text.trimLeft_eq_nil hb]
  exact fun _ hc => absurd hc (by simp)

/-- A type begins with a word, which may have dots, and no other word stands behind that. -/
theorem exists_word_of_takes {u : Text} (h : memberType.Takes u) :
    ∃ c word tail, u = c :: word ++ tail ∧ Text.isIdentifierStart c = true ∧
      (∀ d ∈ word, (Text.isWord d || d == '.') = true) ∧ NoWordNext tail := by
  obtain ⟨_, mark, ⟨_, gap, ⟨_, arrays, ⟨_, arguments, ⟨_, word, ⟨c, hc, rfl⟩, hword, rfl⟩,
    harguments, rfl⟩, harrays, rfl⟩, hgap, rfl⟩, hmark, rfl⟩ := h
  refine ⟨c, word, arguments ++ arrays ++ gap ++ mark, by simp, hc, hword, ?_⟩
  rcases harguments with
    ⟨_, close, ⟨_, inside, ⟨b, bracket, hb, hbracket, rfl⟩, _, rfl⟩, _, rfl⟩ | rfl
  · obtain rfl := takes_lit.1 hbracket
    simpa using noWordNext_of_mark hb (.inl rfl)
  obtain ⟨vs, hvs, rfl⟩ := harrays
  cases vs with
  | cons v vs =>
    obtain ⟨_, close, ⟨_, inside, ⟨b, bracket, hb, hbracket, rfl⟩, _, rfl⟩, _, rfl⟩ :=
      hvs v List.mem_cons_self
    obtain rfl := takes_lit.1 hbracket
    simpa using noWordNext_of_mark hb (.inr (.inl rfl))
  | nil =>
    rcases hmark with hmark | rfl
    · obtain rfl := takes_lit.1 hmark
      simpa using noWordNext_of_mark hgap (.inr (.inr rfl))
    · simpa using noWordNext_of_blanks hgap

theorem NoWordNext.append_blanks {t b : Text} (h : NoWordNext t)
    (hb : ∀ d ∈ b, Text.isBlank d = true) : NoWordNext (t ++ b) := by
  rw [NoWordNext, Text.trimLeft, List.dropWhile_append]
  split
  · exact noWordNext_of_blanks hb
  · rename_i hne
    intro c hc
    apply h c
    rw [Text.trimLeft]
    cases hdrop : t.dropWhile Text.isBlank with
    | nil => exact absurd (List.isEmpty_iff.2 hdrop) hne
    | cons d rest => rwa [hdrop] at hc

theorem NoWordNext.not_dotted {b t : Text} {c : Char} (h : NoWordNext (b ++ c :: t))
    (hb : ∀ d ∈ b, Text.isBlank d = true) : (Text.isWord c || c == '.') = false := by
  rw [Bool.eq_false_iff]
  intro hc
  rw [NoWordNext, Text.trimLeft_blanks_append hb, Text.trimLeft_eq_self] at h
  · rcases h c rfl with rfl | rfl | rfl <;> exact absurd hc (by decide)
  · intro d hd
    obtain rfl := Option.some.inj hd
    exact Text.not_isBlank_of_dotted hc

/-- What begins with two words, white space between them, is no type, whatever white space follows
it. -/
theorem not_takes_of_words {u b word gap more : Text} {c : Char} (hu : memberType.Takes u)
    (hb : ∀ d ∈ b, Text.isBlank d = true)
    (hword : ∀ d ∈ word, (Text.isWord d || d == '.') = true) (hne : gap ≠ [])
    (hgap : ∀ d ∈ gap, Text.isBlank d = true) (hc : Text.isWord c = true) :
    u ++ b ≠ word ++ (gap ++ c :: more) := by
  intro heq
  obtain ⟨d, word', tail, rfl, hd, hword', htail⟩ := exists_word_of_takes hu
  have hfront : ∀ e ∈ d :: word', (Text.isWord e || e == '.') = true := by
    refine List.forall_mem_cons.2 ⟨?_, hword'⟩
    rw [isWord_of_isAsciiWord (isAsciiWord_of_isIdentifierStart hd)]
    rfl
  have hnext := htail.append_blanks hb
  have hcdot : (Text.isWord c || c == '.') = true := by
    rw [hc]
    rfl
  rw [List.append_assoc] at heq
  rcases List.append_eq_append_iff.1 heq with ⟨a, rfl, ha⟩ | ⟨a, ha', ha⟩
  · rw [ha] at hnext
    cases a with
    | nil =>
      rw [hnext.not_dotted hgap] at hcdot
      exact absurd hcdot (by simp)
    | cons e a =>
      have he := hword e (by simp)
      rw [hnext.not_dotted (b := []) (by simp)] at he
      exact absurd he (by simp)
  · cases a with
    | nil =>
      rw [← List.nil_append (tail ++ b), ← ha] at hnext
      rw [hnext.not_dotted hgap] at hcdot
      exact absurd hcdot (by simp)
    | cons e a =>
      -- the white space would be part of the word
      cases gap with
      | nil => exact absurd rfl hne
      | cons g gap =>
        obtain rfl := (List.cons.inj ha).1
        have hblank := Text.not_isBlank_of_dotted (hfront g (by rw [ha']; simp))
        rw [hgap g List.mem_cons_self] at hblank
        exact absurd hblank (by simp)

end RazorViews.Canonical
