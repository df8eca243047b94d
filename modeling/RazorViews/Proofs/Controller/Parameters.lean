import RazorViews.Proofs.Controller.Lists
import RazorViews.Proofs.Pattern.Prefers
import RazorViews.Proofs.TypeName.ModelType

/-!
# Parameters as they are written

A parameter is written with attribute groups, a modifier, its type, its name and a default value,
of which only the type and the name must be there, and with white space between all of them
(`Written`).

## What is proved

`readList_listAt_written`: a list of such parameters, any number of them, between parentheses and
with commas between them, is read back as these parameters, whatever stands in front of the opening
parenthesis and behind the closing one.  What is read of each is its name, its type without white
space, whether it has a default value, and this value as it is written.

Nothing is assumed of the parameters but what their grammar says of the parts:

* attributes and type arguments may hold commas, quoted texts, and brackets of all kinds to any
  depth, as long as these are nested; but not the bracket that ends the group of the attribute;
* default values are numbers, paths and quoted texts; expressions are dealt with in
  `splitList_join_declared`;
* the path of a type is none of the words for modifiers.

## The proof

The list is first cut out of the source at the parenthesis that closes it, then divided at its
commas, and each entry is read by a pattern.  The first two count brackets outside of quotes, and a
parameter is nested on the whole (`Written.nested_written`).  The pattern reads its parts one after
another; for each part it is shown what it prefers to read in front of what may follow
(`WrittenType.readsOff`, `Default.keeps`), so what it prefers on the whole is what was written
(`Written.keeps_written`).
-/

namespace RazorViews.Parameter

open Pattern RazorViews.TypeName

/-! ## Parameters -/

/-- An attribute group and the white space behind it. -/
structure Group where
  content : Text
  nested : Nested true content
  notMem : ']' ∉ content
  behind : Blanks

def Group.written (g : Group) : Text := ['['] ++ g.content ++ [']'] ++ g.behind.text

/-- A modifier and the white space behind it. -/
structure Modifier where
  word : String
  mem : word ∈ modifiers
  behind : Blanks
  ne_nil : behind.text ≠ []

def Modifier.written (m : Modifier) : Text := m.word.toList ++ m.behind.text

/-- Type arguments with their brackets, and the white space in front. -/
structure Arguments where
  front : Blanks
  inner : Text
  ne_nil : inner ≠ []
  nested : Nested true inner

def Arguments.written (a : Arguments) : Text := a.front.text ++ ['<'] ++ a.inner ++ ['>']

/-- White space or a comma. -/
def isSpacing (c : Char) : Bool := Text.isBlank c || c == ','

/-- The suffix of an array type, and the white space in front. -/
structure ArraySuffix where
  front : Blanks
  commas : Text
  isSpacing : ∀ c ∈ commas, isSpacing c = true

def ArraySuffix.written (a : ArraySuffix) : Text := a.front.text ++ ['['] ++ a.commas ++ [']']

/-- A type whose path is not one of the words for modifiers. -/
structure WrittenType where
  path : DottedPath
  notModifier : ∀ word ∈ modifiers, path.written ≠ word.toList
  arguments : Option Arguments
  array : Option ArraySuffix
  isOptional : Bool

def WrittenType.written (t : WrittenType) : Text :=
  t.path.written ++ t.arguments.elim [] Arguments.written ++ t.array.elim [] ArraySuffix.written ++
    markOf t.isOptional

/-- A character of numbers and paths. -/
def isValueChar (c : Char) : Bool := Text.isWord c || ['.', '+', '-'].contains c

/-- Default values: a number, a path, or a text between quotation marks. -/
inductive Value where
  | plain (text : Text) (ne_nil : text ≠ []) (isValueChar : ∀ c ∈ text, isValueChar c = true)
  | quoted (text : Text) (unquoted : ∀ c ∈ text, c ≠ '"' ∧ c ≠ '\\') (notMem : '>' ∉ text)

def Value.written : Value → Text
  | plain text _ _ => text
  | quoted text _ _ => ['"'] ++ text ++ ['"']

/-- A default value, and the white space around the sign of equality. -/
structure Default where
  front : Blanks
  back : Blanks
  value : Value

def Default.written (d : Default) : Text := d.front.text ++ ['='] ++ d.back.text ++ d.value.written

/-- A parameter as it is written. -/
structure Written where
  groups : List Group
  modifier : Option Modifier
  type : WrittenType
  gap : Blanks
  ne_nil : gap.text ≠ []
  name : Word
  default : Option Default

/-- The parts of a parameter, one after another. -/
def Written.written (p : Written) : Text :=
  (p.groups.map Group.written).flatten ++ (p.modifier.elim [] Modifier.written ++
    (p.type.written ++ (p.gap.text ++ (p.name.text ++ p.default.elim [] Default.written))))

/-- What is known of a parameter. -/
def Written.record (p : Written) : Parameter where
  name := p.name.text
  type := dropBlanks p.type.written
  isOptional := p.default.isSome
  defaultValue := p.default.map fun d => d.value.written

/-! ## What a text begins with -/

theorem forall_head?_append {ok : Char → Prop} {t u : Text} (ht : ∀ c ∈ t.head?, ok c)
    (hu : ∀ c ∈ u.head?, ok c) : ∀ c ∈ (t ++ u).head?, ok c := by
  cases t with
  | nil => exact hu
  | cons d t => exact ht

/-- The first character that is not blank. -/
def firstMark (t : Text) : Option Char := (Text.trimLeft t).head?

theorem firstMark_blanks_append {b : Text} (hb : ∀ c ∈ b, Text.isBlank c = true) (t : Text) :
    firstMark (b ++ t) = firstMark t := by
  rw [firstMark, Text.trimLeft_blanks_append hb, firstMark]

theorem firstMark_cons {c : Char} (hc : Text.isBlank c = false) (t : Text) :
    firstMark (c :: t) = some c := by
  rw [firstMark, Text.trimLeft_eq_self]
  · rfl
  · intro d hd
    obtain rfl : c = d := Option.some.inj hd
    exact hc

/-- Behind white space only the first other character can be read. -/
theorem not_leads_blanks_exactly {c : Char} (hc : Text.isBlank c = false) {t : Text} {p q : Place}
    (h : firstMark p.rest ≠ some c) : ¬ (blanks ++ exactly (c :: t)).Leads p q := by
  rintro ⟨_, hblanks, hmark⟩
  obtain ⟨b, hread, hb⟩ := hblanks.takes
  obtain ⟨u, hread', htake⟩ := hmark.takes
  obtain rfl := takes_exactly.1 htake
  refine h ?_
  rw [hread.1, hread'.1, firstMark_blanks_append hb]
  exact firstMark_cons hc _

/-! ## Attribute groups and modifiers -/

/-- The pattern for one attribute group. -/
def groupPattern : Pattern := lit "[" ++ run (· != ']') .most ++ lit "]" ++ blanks

theorem Group.readsOff (g : Group) {v : Text} (hv : ∀ c ∈ v.head?, Text.isBlank c = false) :
    ReadsOff groupPattern g.written v := by
  have hcontent : ∀ c ∈ g.content, (c != ']') = true := by
    intro c hc
    rw [bne_iff_ne]
    rintro rfl
    exact g.notMem hc
  have hclose : ∀ c ∈ ([']'] ++ (g.behind.text ++ v)).head?, (c != ']') = false := by
    intro c hc
    obtain rfl : ']' = c := Option.some.inj hc
    decide
  exact (((readsOff_lit rfl _).append (readsOff_run hcontent hclose)).append
    (readsOff_lit rfl _)).append (readsOff_blanks g.behind.isBlank hv)

theorem not_leads_groupPattern {p : Place} (h : p.rest.head? ≠ some '[') (q : Place) :
    ¬ groupPattern.Leads p q := by
  rintro ⟨_, ⟨_, ⟨_, hopen, -⟩, -⟩, -⟩
  exact not_leads_exactly h _ hopen

/-- The groups are read in front of a word. -/
theorem readsOff_groups (gs : List Group) {v : Text} (hv : ∀ c ∈ v.head?, Text.isWord c = true) :
    ReadsOff (many groupPattern) (gs.map Group.written).flatten v := by
  refine readsOff_many ?_ ?_ ?_
  · intro w hw
    obtain ⟨g, -, rfl⟩ := List.mem_map.1 hw
    simp [Group.written]
  · intro front w back hsplit
    have hmem : w ∈ gs.map Group.written := by simp [hsplit]
    obtain ⟨g, -, rfl⟩ := List.mem_map.1 hmem
    refine g.readsOff (forall_head?_append ?_ fun c hc => Text.not_isBlank_of_isWord (hv c hc))
    cases back with
    | nil => simp
    | cons w' back =>
      have hmem' : w' ∈ gs.map Group.written := by simp [hsplit]
      obtain ⟨g', -, rfl⟩ := List.mem_map.1 hmem'
      intro c hc
      obtain rfl : '[' = c := Option.some.inj hc
      decide
  · intro p hp q
    refine not_leads_groupPattern (fun hopen => ?_) q
    have hword := hv '[' (by rw [← hp]; exact hopen)
    exact absurd hword (by decide)

/-- The pattern for a modifier. -/
def modifierPattern : Pattern := firstOf (modifiers.map lit) ++ blanks1

theorem modifiers_apart {word : String} (h : word ∈ modifiers) :
    ∀ w ∈ modifiers, w.toList ≠ [] ∧ (w ≠ word → w.toList.head? ≠ word.toList.head?) := by
  simp only [modifiers, List.mem_cons, List.not_mem_nil, or_false] at h
  rcases h with rfl | rfl | rfl | rfl | rfl <;> decide

theorem isWord_modifier {word : String} (h : word ∈ modifiers) :
    ∀ c ∈ word.toList, Text.isWord c = true := by
  have hall : (modifiers.all fun w => w.toList.all Text.isWord) = true := by decide
  exact List.all_eq_true.1 (List.all_eq_true.1 hall word h)

theorem Modifier.readsOff (m : Modifier) {v : Text} (hv : ∀ c ∈ v.head?, Text.isWord c = true) :
    ReadsOff modifierPattern m.written v :=
  (readsOff_firstOf m.mem (modifiers_apart m.mem) _).append
    (readsOff_run1 m.ne_nil m.behind.isBlank
      fun c hc => Text.not_isBlank_of_isWord (hv c hc))

theorem takeWhile_append_eq {ok : Char → Bool} {u v : Text} (hu : ∀ c ∈ u, ok c = true)
    (hv : ∀ c ∈ v.head?, ok c = false) : (u ++ v).takeWhile ok = u := by
  rw [List.takeWhile_append_of_pos hu]
  cases v with
  | nil => rw [List.takeWhile_nil, List.append_nil]
  | cons c v =>
    rw [List.takeWhile_cons_of_neg (by rw [hv c rfl]; exact Bool.false_ne_true), List.append_nil]

theorem not_word_or_dot_of_isBlank {c : Char} (hc : Text.isBlank c = true) :
    (Text.isWord c || c == '.') = false := by
  cases hdotted : (Text.isWord c || c == '.') with
  | false => rfl
  | true => exact absurd ((Text.not_isBlank_of_dotted hdotted).symm.trans hc) (by simp)

/-- A path that is none of the words for modifiers is not read as one. -/
theorem not_leads_modifierPattern {path : DottedPath}
    (hpath : ∀ word ∈ modifiers, path.written ≠ word.toList) {v : Text}
    (hv : ∀ c ∈ v.head?, (Text.isWord c || c == '.') = false) {p : Place}
    (hp : p.rest = path.written ++ v) (q : Place) : ¬ modifierPattern.Leads p q := by
  intro h
  obtain ⟨u, hread, w, b, hw, hb, rfl⟩ := h.takes
  obtain ⟨P, hP, hw⟩ := (takes_firstOf (by decide)).1 hw
  obtain ⟨word, hword, rfl⟩ := List.mem_map.1 hP
  obtain rfl := takes_lit.1 hw
  obtain ⟨hne, hblank⟩ := takes_run1.1 hb
  have hletters : ∀ c ∈ word.toList, (Text.isWord c || c == '.') = true := by
    intro c hc
    rw [isWord_modifier hword c hc, Bool.true_or]
  have hsame : path.written ++ v = word.toList ++ (b ++ q.rest) := by
    rw [← hp, hread.1, List.append_assoc]
  -- both are what the text begins with of characters of paths
  have htake := congrArg (List.takeWhile fun c => Text.isWord c || c == '.') hsame
  rw [takeWhile_append_eq path.isWord_or_dot hv, takeWhile_append_eq hletters] at htake
  · exact hpath word hword htake
  · obtain ⟨c, b, rfl⟩ := List.exists_cons_of_ne_nil hne
    intro d hd
    obtain rfl : c = d := Option.some.inj hd
    exact not_word_or_dot_of_isBlank (hblank c List.mem_cons_self)

/-! ## Types -/

/-- The pattern for type arguments. -/
def argumentsPattern : Pattern := blanks ++ lit "<" ++ run1 (fun _ => true) ++ lit ">"

/-- The pattern for the suffix of an array type. -/
def arrayPattern : Pattern := blanks ++ lit "[" ++ run isSpacing .most ++ lit "]"

/-- Type arguments end with the last angle bracket there is. -/
theorem Arguments.readsOff (a : Arguments) {v : Text} (hv : '>' ∉ v) :
    ReadsOff argumentsPattern a.written v := by
  obtain ⟨c, more, hinner⟩ := List.exists_cons_of_ne_nil a.ne_nil
  have hopen : ∀ c ∈ (['<'] ++ ([c] ++ (more ++ ['>'] ++ v))).head?, Text.isBlank c = false := by
    intro c hc
    obtain rfl : '<' = c := Option.some.inj hc
    decide
  have hclose : ReadsOff (run (fun _ => true) .most ++ exactly ['>']) (more ++ ['>']) v := by
    intro p hp
    have hlast : (run (fun _ => true) .most ++ exactly ['>']).Prefers p
        (p.after (more ++ ['>']) (v ++ [])) :=
      prefers_run_before (by simpa using hp) (fun _ _ => rfl) hv (by simp)
    rwa [List.append_nil] at hlast
  have hread : ReadsOff argumentsPattern
      (a.front.text ++ (['<'] ++ ([c] ++ (more ++ ['>'])))) v := by
    have hone : ReadsOff (one fun _ => true) [c] (more ++ ['>'] ++ v) := readsOff_one rfl _
    have hparts := (readsOff_blanks a.front.isBlank (v := ['<'] ++ ([c] ++ (more ++ ['>'])) ++ v)
      (by simpa using hopen)).append
      ((readsOff_lit (s := "<") rfl _).append (hone.append hclose))
    exact hparts
  have hwritten : a.written = a.front.text ++ (['<'] ++ ([c] ++ (more ++ ['>']))) := by
    simp [written, hinner]
  rwa [hwritten]

theorem ArraySuffix.readsOff (a : ArraySuffix) (v : Text) : ReadsOff arrayPattern a.written v := by
  have hopen : ∀ c ∈ (['['] ++ (a.commas ++ ([']'] ++ v))).head?, Text.isBlank c = false := by
    intro c hc
    obtain rfl : '[' = c := Option.some.inj hc
    decide
  have hclose : ∀ c ∈ ([']'] ++ v).head?, Parameter.isSpacing c = false := by
    intro c hc
    obtain rfl : ']' = c := Option.some.inj hc
    decide
  exact (((readsOff_blanks a.front.isBlank hopen).append (readsOff_lit rfl _)).append
    (readsOff_run a.isSpacing hclose)).append (readsOff_lit rfl _)

/-- What may stand behind a type: white space in front of a word, and no closing angle bracket. -/
structure BehindType (v : Text) : Prop where
  head : ∀ c ∈ v.head?, Text.isBlank c = true
  mark : ∀ c ∈ firstMark v, Text.isWord c = true
  notMem : '>' ∉ v

section Behind

variable {v : Text}

theorem BehindType.not_word_or_dot (hv : BehindType v) :
    ∀ c ∈ v.head?, (Text.isWord c || c == '.') = false :=
  fun c hc => not_word_or_dot_of_isBlank (hv.head c hc)

theorem readsOff_markOf (isOptional : Bool) (hv : BehindType v) :
    ReadsOff (maybe (lit "?")) (markOf isOptional) v := by
  cases isOptional with
  | true => exact ReadsOff.maybe (readsOff_lit rfl v)
  | false =>
    refine readsOff_maybe_nothing fun p hp q => not_leads_exactly (fun hmark => ?_) q
    have hblank := hv.head '?' (by rw [← hp]; exact hmark)
    exact absurd hblank (by decide)

theorem firstMark_markOf (isOptional : Bool) (hv : BehindType v) :
    ∀ c ∈ firstMark (markOf isOptional ++ v), c = '?' ∨ Text.isWord c = true := by
  intro c hc
  cases isOptional with
  | true =>
    obtain rfl : '?' = c := Option.some.inj hc
    exact .inl rfl
  | false => exact .inr (hv.mark c hc)

theorem readsOff_array (array : Option ArraySuffix) (isOptional : Bool) (hv : BehindType v) :
    ReadsOff (maybe arrayPattern) (array.elim [] ArraySuffix.written)
      (markOf isOptional ++ v) := by
  cases array with
  | some a => exact ReadsOff.maybe (a.readsOff _)
  | none =>
    refine readsOff_maybe_nothing ?_
    rintro p hp q ⟨_, ⟨_, hopen, -⟩, -⟩
    refine not_leads_blanks_exactly (c := '[') (by decide) (fun hmark => ?_) hopen
    rcases firstMark_markOf isOptional hv '[' (by rw [← hp]; exact hmark) with h | h
    · exact absurd h (by decide)
    · exact absurd h (by decide)

theorem firstMark_array (array : Option ArraySuffix) (isOptional : Bool) (hv : BehindType v) :
    ∀ c ∈ firstMark (array.elim [] ArraySuffix.written ++ (markOf isOptional ++ v)),
      c = '[' ∨ c = '?' ∨ Text.isWord c = true := by
  cases array with
  | none => exact fun c hc => .inr (firstMark_markOf isOptional hv c hc)
  | some a =>
    have hfirst : firstMark (a.written ++ (markOf isOptional ++ v)) = some '[' := by
      simp only [ArraySuffix.written, List.append_assoc]
      rw [firstMark_blanks_append a.front.isBlank]
      exact firstMark_cons (by decide) _
    intro c hc
    obtain rfl : '[' = c := Option.some.inj (hfirst.symm.trans hc)
    exact .inl rfl

theorem close_notMem_array (array : Option ArraySuffix) (isOptional : Bool)
    (hv : BehindType v) : '>' ∉ array.elim [] ArraySuffix.written ++ (markOf isOptional ++ v) := by
  have hmark : '>' ∉ markOf isOptional := fun hmem => absurd (mem_markOf hmem) (by decide)
  refine List.not_mem_append ?_ (List.not_mem_append hmark hv.notMem)
  cases array with
  | none => exact List.not_mem_nil
  | some a =>
    have hfront : '>' ∉ a.front.text := fun hmem => absurd (a.front.isBlank _ hmem) (by decide)
    have hcommas : '>' ∉ a.commas := fun hmem => absurd (a.isSpacing _ hmem) (by decide)
    exact List.not_mem_append (List.not_mem_append (List.not_mem_append hfront (by decide))
      hcommas) (by decide)

theorem readsOff_arguments (arguments : Option Arguments) (array : Option ArraySuffix)
    (isOptional : Bool) (hv : BehindType v) :
    ReadsOff (maybe argumentsPattern) (arguments.elim [] Arguments.written)
      (array.elim [] ArraySuffix.written ++ (markOf isOptional ++ v)) := by
  cases arguments with
  | some a => exact ReadsOff.maybe (a.readsOff (close_notMem_array array isOptional hv))
  | none =>
    refine readsOff_maybe_nothing ?_
    rintro p hp q ⟨_, ⟨_, hopen, -⟩, -⟩
    refine not_leads_blanks_exactly (c := '<') (by decide) (fun hmark => ?_) hopen
    rcases firstMark_array array isOptional hv '<' (by rw [← hp]; exact hmark) with h | h | h
    · exact absurd h (by decide)
    · exact absurd h (by decide)
    · exact absurd h (by decide)

theorem not_word_or_dot_blanks_mark (b : Blanks) {d : Char}
    (hd : (Text.isWord d || d == '.') = false) (t : Text) :
    ∀ c ∈ (b.text ++ d :: t).head?, (Text.isWord c || c == '.') = false := by
  refine forall_head?_append
    (fun c hc => not_word_or_dot_of_isBlank (b.isBlank c (List.mem_of_mem_head? hc))) ?_
  intro c hc
  obtain rfl : d = c := Option.some.inj hc
  exact hd

/-- A path ends where white space or a mark begins. -/
theorem not_word_or_dot_behind_path (arguments : Option Arguments) (array : Option ArraySuffix)
    (isOptional : Bool) (hv : BehindType v) :
    ∀ c ∈ (arguments.elim [] Arguments.written ++ (array.elim [] ArraySuffix.written ++
      (markOf isOptional ++ v))).head?, (Text.isWord c || c == '.') = false := by
  refine forall_head?_append ?_ (forall_head?_append ?_ (forall_head?_append ?_ hv.not_word_or_dot))
  · cases arguments with
    | none => simp
    | some a =>
      have hwritten : a.written = a.front.text ++ '<' :: (a.inner ++ ['>']) := by
        simp [Arguments.written]
      rw [Option.elim_some, hwritten]
      exact not_word_or_dot_blanks_mark a.front (by decide) _
  · cases array with
    | none => simp
    | some a =>
      have hwritten : a.written = a.front.text ++ '[' :: (a.commas ++ [']']) := by
        simp [ArraySuffix.written]
      rw [Option.elim_some, hwritten]
      exact not_word_or_dot_blanks_mark a.front (by decide) _
  · intro c hc
    rw [mem_markOf (List.mem_of_mem_head? hc)]
    decide

/-- A type is read whole. -/
theorem WrittenType.readsOff (t : WrittenType) (hv : BehindType v) :
    ReadsOff parameterType t.written v := by
  have hpath : ReadsOff (run1 fun c => Text.isWord c || c == '.') t.path.written
      (t.arguments.elim [] Arguments.written ++ (t.array.elim [] ArraySuffix.written ++
        (markOf t.isOptional ++ v))) :=
    readsOff_run1 t.path.written_ne_nil t.path.isWord_or_dot
      (not_word_or_dot_behind_path t.arguments t.array t.isOptional hv)
  exact ((hpath.append (readsOff_arguments t.arguments t.array t.isOptional hv)).append
    (readsOff_array t.array t.isOptional hv)).append (readsOff_markOf t.isOptional hv)

end Behind

/-! ## Names and default values -/

/-- The pattern for a default value. -/
def defaultPattern : Pattern :=
  blanks ++ lit "=" ++ blanks ++ keep "default" (run1 fun _ => true)

/-- The characters of numbers and paths are not blank. -/
theorem not_isBlank_of_isValueChar {c : Char} (h : Parameter.isValueChar c = true) :
    Text.isBlank c = false := by
  rcases Bool.or_eq_true_iff.1 h with h | h
  · exact Text.not_isBlank_of_isWord h
  · have hsigns : ∀ d ∈ ['.', '+', '-'], Text.isBlank d = false :=
      Canonical.forall_mem_of_all (by decide)
    exact hsigns c (List.contains_iff_mem.1 h)

theorem Value.written_ne_nil (d : Value) : d.written ≠ [] := by
  cases d with
  | plain text ne_nil isValueChar => exact ne_nil
  | quoted text unquoted notMem => simp [written]

theorem Value.not_isBlank_head (d : Value) : ∀ c ∈ d.written.head?, Text.isBlank c = false := by
  cases d with
  | plain text ne_nil isValueChar =>
    exact fun c hc => not_isBlank_of_isValueChar (isValueChar c (List.mem_of_mem_head? hc))
  | quoted text unquoted notMem =>
    intro c hc
    obtain rfl : '"' = c := Option.some.inj hc
    decide

theorem Value.not_isBlank_getLast (d : Value) :
    ∀ c ∈ d.written.getLast?, Text.isBlank c = false := by
  cases d with
  | plain text ne_nil isValueChar =>
    exact fun c hc => not_isBlank_of_isValueChar (isValueChar c (List.mem_of_getLast? hc))
  | quoted text unquoted notMem =>
    intro c hc
    rw [written, List.getLast?_concat] at hc
    obtain rfl : '"' = c := Option.some.inj hc
    decide

theorem Value.close_notMem (d : Value) : '>' ∉ d.written := by
  cases d with
  | plain text ne_nil isValueChar => exact fun hmem => absurd (isValueChar _ hmem) (by decide)
  | quoted text unquoted notMem =>
    exact List.not_mem_append (List.not_mem_append (by decide) notMem) (by decide)

theorem Value.trim_written (d : Value) : Text.trim d.written = d.written :=
  Text.trim_eq_self d.not_isBlank_head d.not_isBlank_getLast

theorem Default.keeps (d : Default) :
    Keeps defaultPattern d.written [] [("default", d.value.written)] := by
  have hsign : ∀ c ∈ (['='] ++ (d.back.text ++ (d.value.written ++ []))).head?,
      Text.isBlank c = false := by
    intro c hc
    obtain rfl : '=' = c := Option.some.inj hc
    decide
  have hvalue : ∀ c ∈ (d.value.written ++ []).head?, Text.isBlank c = false := by
    rw [List.append_nil]
    exact d.value.not_isBlank_head
  have hall : ReadsOff (run1 fun _ => true) d.value.written [] :=
    readsOff_run1 d.value.written_ne_nil (fun _ _ => rfl) (by simp)
  exact (((readsOff_blanks d.front.isBlank hsign).append (readsOff_lit rfl _)).append
    (readsOff_blanks d.back.isBlank hvalue)).keeps.append (hall.keep "default")

theorem keeps_default (default : Option Default) :
    Keeps (maybe defaultPattern) (default.elim [] Default.written) []
      (default.elim [] fun d => [("default", d.value.written)]) := by
  cases default with
  | some d => exact d.keeps.maybe
  | none =>
    refine (readsOff_maybe_nothing ?_).keeps
    rintro p hp q ⟨_, ⟨_, hsign, -⟩, -⟩
    have hend : firstMark p.rest ≠ some '=' := by
      rw [hp]
      simp [firstMark, Text.trimLeft]
    exact not_leads_blanks_exactly (by decide) hend hsign

/-- A name ends in front of white space, a sign of equality, or at the end. -/
theorem not_isWord_default (default : Option Default) :
    ∀ c ∈ (default.elim [] Default.written).head?, Text.isWord c = false := by
  cases default with
  | none => simp
  | some d =>
    have hwritten : d.written = d.front.text ++ '=' :: (d.back.text ++ d.value.written) := by
      simp [Default.written]
    intro c hc
    rw [Option.elim_some, hwritten] at hc
    have hnot := not_word_or_dot_blanks_mark d.front (d := '=') (by decide) _ c hc
    exact (Bool.or_eq_false_iff.1 hnot).1

theorem close_notMem_default (default : Option Default) :
    '>' ∉ default.elim [] Default.written := by
  cases default with
  | none => exact List.not_mem_nil
  | some d =>
    have hblanks : ∀ b : Blanks, '>' ∉ b.text := fun b hmem => absurd (b.isBlank _ hmem) (by decide)
    exact List.not_mem_append (List.not_mem_append (List.not_mem_append (hblanks d.front)
      (by decide)) (hblanks d.back)) d.value.close_notMem

theorem isWord_first (w : Word) (t : Text) : ∀ c ∈ (w.text ++ t).head?, Text.isWord c = true := by
  obtain ⟨d, u, hw⟩ := List.exists_cons_of_ne_nil w.ne_nil
  intro c hc
  rw [hw] at hc
  obtain rfl : d = c := Option.some.inj hc
  exact w.isWord d (by simp [hw])

/-! ## Whole parameters -/

/-- The pattern for parameters, part by part. -/
def parts : Pattern :=
  many groupPattern ++ (maybe modifierPattern ++ (keep "type" parameterType ++
    (blanks1 ++ (keep "name" word1 ++ maybe defaultPattern))))

theorem whole_front? (t : Text) : whole.front? t = (atStart ++ parts ++ atEnd).front? t := rfl

theorem Written.behindType (p : Written) :
    BehindType (p.gap.text ++ (p.name.text ++ p.default.elim [] Default.written)) where
  head := by
    obtain ⟨d, b, hgap⟩ := List.exists_cons_of_ne_nil p.ne_nil
    intro c hc
    rw [hgap] at hc
    obtain rfl : d = c := Option.some.inj hc
    exact p.gap.isBlank d (by simp [hgap])
  mark := by
    have hword := isWord_first p.name (p.default.elim [] Default.written)
    intro c hc
    rw [firstMark_blanks_append p.gap.isBlank, firstMark, Text.trimLeft_eq_self
      (fun c hc => Text.not_isBlank_of_isWord (hword c hc))] at hc
    exact hword c hc
  notMem := by
    have hgap : '>' ∉ p.gap.text := fun hmem => absurd (p.gap.isBlank _ hmem) (by decide)
    have hname : '>' ∉ p.name.text := fun hmem => absurd (p.name.isWord _ hmem) (by decide)
    exact List.not_mem_append hgap (List.not_mem_append hname (close_notMem_default p.default))

theorem WrittenType.isWord_first (t : WrittenType) (v : Text) :
    ∀ c ∈ (t.written ++ v).head?, Text.isWord c = true := by
  have hwritten : t.written ++ v = t.path.head.text ++
      ((t.path.steps.flatMap fun w => '.' :: w.text) ++ t.arguments.elim [] Arguments.written ++
        t.array.elim [] ArraySuffix.written ++ markOf t.isOptional ++ v) := by
    simp [written, DottedPath.written]
  rw [hwritten]
  exact Parameter.isWord_first t.path.head _

theorem Written.isWord_first (p : Written) :
    ∀ c ∈ (p.modifier.elim [] Modifier.written ++ (p.type.written ++ (p.gap.text ++
      (p.name.text ++ p.default.elim [] Default.written)))).head?, Text.isWord c = true := by
  refine forall_head?_append ?_ (p.type.isWord_first _)
  cases p.modifier with
  | none => simp
  | some m =>
    obtain ⟨hne, -⟩ := modifiers_apart m.mem m.word m.mem
    exact Parameter.isWord_first ⟨m.word.toList, hne, isWord_modifier m.mem⟩ m.behind.text

theorem readsOff_modifier (modifier : Option Modifier) (type : WrittenType) {v : Text}
    (hv : BehindType v) :
    ReadsOff (maybe modifierPattern) (modifier.elim [] Modifier.written) (type.written ++ v) := by
  cases modifier with
  | some m => exact ReadsOff.maybe (m.readsOff (type.isWord_first v))
  | none =>
    refine readsOff_maybe_nothing fun p hp q => ?_
    refine not_leads_modifierPattern type.notModifier
      (not_word_or_dot_behind_path type.arguments type.array type.isOptional hv) ?_ q
    rw [hp, WrittenType.written]
    simp

/-- Of a parameter the pattern keeps the type, the name and the default value. -/
theorem Written.keeps_written (p : Written) :
    Keeps parts p.written [] ((p.default.elim [] fun d => [("default", d.value.written)]) ++
      [("name", p.name.text), ("type", p.type.written)]) := by
  have hbehind := p.behindType
  have hname : ReadsOff word1 p.name.text (p.default.elim [] Default.written) :=
    readsOff_run1 p.name.ne_nil p.name.isWord (not_isWord_default p.default)
  have hgap : ReadsOff blanks1 p.gap.text
      (p.name.text ++ p.default.elim [] Default.written) :=
    readsOff_run1 p.ne_nil p.gap.isBlank fun c hc =>
      Text.not_isBlank_of_isWord (Parameter.isWord_first p.name _ c hc)
  have htype := (p.type.readsOff hbehind).keep "type"
  have hmodifier := readsOff_modifier p.modifier p.type hbehind
  have hgroups := readsOff_groups p.groups p.isWord_first
  have hparts := hgroups.keeps.append_end (hmodifier.keeps.append_end (htype.append_end
    (hgap.keeps.append_end ((hname.keep "name").append_end (keeps_default p.default)))))
  rw [parts, Written.written]
  simpa only [List.append_assoc, List.append_nil, List.nil_append, List.cons_append] using hparts

/-- A parameter is read back. -/
theorem Written.read?_written (p : Written) : read? p.written = some p.record := by
  obtain ⟨f, hfound, hkept⟩ := p.keeps_written.front?
  have hname : f.kept? "name" = some p.name.text := by
    rw [Found.kept?, hkept]
    cases p.default <;> rfl
  have htype : f.kept? "type" = some p.type.written := by
    rw [Found.kept?, hkept]
    cases p.default <;> rfl
  have hdefault : f.kept? "default" = p.default.map fun d => d.value.written := by
    rw [Found.kept?, hkept]
    cases p.default <;> rfl
  have htrim : (p.default.map fun d => d.value.written).map Text.trim =
      p.default.map fun d => d.value.written := by
    cases p.default with
    | none => rfl
    | some d => exact congrArg some d.value.trim_written
  rw [read?, whole_front?, hfound]
  simp only [Option.bind_eq_bind, Option.bind_some, hname, htype, hdefault, htrim]
  rw [Written.record, Option.isSome_map]
  rfl

/-! ## Parameters as entries of lists -/

section Nested

variable {commas : Bool}

theorem nested_blanks (b : Blanks) : Nested commas b.text :=
  nested_of_forall (by decide) (.inl (by decide)) b.isBlank

theorem nested_word {t : Text} (h : ∀ c ∈ t, Text.isWord c = true) : Nested commas t :=
  nested_of_forall (by decide) (.inl (by decide)) h

/-- A pair of square brackets around nested text. -/
theorem nested_square {t : Text} (h : Nested true t) : Nested commas (['['] ++ t ++ [']']) := by
  have hpair : ('[', ']') ∈ bracketPairs := by decide
  exact .enclosed hpair h .nil

theorem Group.nested_written (g : Group) : Nested commas g.written :=
  (nested_square g.nested).append (nested_blanks g.behind)

theorem Modifier.nested_written (m : Modifier) : Nested commas m.written :=
  (nested_word (isWord_modifier m.mem)).append (nested_blanks m.behind)

theorem Arguments.nested_written (a : Arguments) : Nested commas a.written := by
  have hpair : ('<', '>') ∈ bracketPairs := by decide
  have hangle : Nested commas (['<'] ++ a.inner ++ ['>']) := .enclosed hpair a.nested .nil
  simpa only [written, List.append_assoc] using (nested_blanks a.front).append hangle

theorem ArraySuffix.nested_written (a : ArraySuffix) : Nested commas a.written := by
  have hcommas : Nested true a.commas := nested_of_forall (by decide) (.inr rfl) a.isSpacing
  simpa only [written, List.append_assoc] using
    (nested_blanks a.front).append (nested_square hcommas)

theorem nested_elim {α : Type} {written : α → Text} (h : ∀ a, Nested commas (written a))
    (o : Option α) : Nested commas (o.elim [] written) := by
  cases o with
  | none => exact .nil
  | some a => exact h a

theorem WrittenType.nested_written (t : WrittenType) : Nested commas t.written := by
  have hpath : Nested commas t.path.written :=
    nested_of_forall (by decide) (.inl (by decide)) t.path.isWord_or_dot
  have hmark : Nested commas (markOf t.isOptional) :=
    nested_of_forall (p := (· == '?')) (by decide) (.inl (by decide))
      fun c hc => beq_iff_eq.2 (mem_markOf hc)
  exact ((hpath.append (nested_elim Arguments.nested_written t.arguments)).append
    (nested_elim ArraySuffix.nested_written t.array)).append hmark

theorem Value.nested_written (d : Value) : Nested commas d.written := by
  cases d with
  | plain text ne_nil isValueChar =>
    exact nested_of_forall (by decide) (.inl (by decide)) isValueChar
  | quoted text unquoted notMem => exact .quoted unquoted .nil

theorem Default.nested_written (d : Default) : Nested commas d.written := by
  have hsign : Nested commas ['='] := nested_of_forall (p := (· == '=')) (by decide)
    (.inl (by decide)) (List.forall_mem_singleton.2 rfl)
  exact (((nested_blanks d.front).append hsign).append (nested_blanks d.back)).append
    d.value.nested_written

theorem Written.nested_written (p : Written) : Nested commas p.written := by
  have hgroups : ∀ gs : List Group, Nested commas (gs.map Group.written).flatten := by
    intro gs
    induction gs with
    | nil => exact .nil
    | cons g gs ih => exact g.nested_written.append ih
  exact (hgroups p.groups).append ((nested_elim Modifier.nested_written p.modifier).append
    (p.type.nested_written.append ((nested_blanks p.gap).append
      ((nested_word p.name.isWord).append (nested_elim Default.nested_written p.default)))))

end Nested

theorem Written.not_isBlank_head (p : Written) :
    ∀ c ∈ p.written.head?, Text.isBlank c = false := by
  refine forall_head?_append ?_ fun c hc => Text.not_isBlank_of_isWord (p.isWord_first c hc)
  cases p.groups with
  | nil => simp
  | cons g gs =>
    intro c hc
    obtain rfl : '[' = c := Option.some.inj hc
    decide

/-- The text ends, and not with white space. -/
structure EndsFirm (t : Text) : Prop where
  ne_nil : t ≠ []
  getLast : ∀ c ∈ t.getLast?, Text.isBlank c = false

theorem EndsFirm.append_left {u : Text} (h : EndsFirm u) (t : Text) : EndsFirm (t ++ u) where
  ne_nil := List.append_ne_nil_of_right_ne_nil t h.ne_nil
  getLast := by
    rw [List.getLast?_append_of_ne_nil t h.ne_nil]
    exact h.getLast

theorem Written.endsFirm (p : Written) : EndsFirm p.written := by
  have hname : EndsFirm p.name.text := ⟨p.name.ne_nil, fun c hc =>
    Text.not_isBlank_of_isWord (p.name.isWord c (List.mem_of_getLast? hc))⟩
  -- a parameter ends with its default value, or else with its name
  have hlast : EndsFirm (p.name.text ++ p.default.elim [] Default.written) := by
    cases p.default with
    | none =>
      rw [Option.elim_none, List.append_nil]
      exact hname
    | some d =>
      have hvalue : EndsFirm d.value.written :=
        ⟨d.value.written_ne_nil, d.value.not_isBlank_getLast⟩
      exact (hvalue.append_left _).append_left _
  exact (((hlast.append_left _).append_left _).append_left _).append_left _

theorem Written.entry (p : Written) : Entry p.written where
  ne_nil := p.endsFirm.ne_nil
  nested := p.nested_written
  trimmed := Text.trim_eq_self p.not_isBlank_head p.endsFirm.getLast

/-! ## Lists of parameters -/

/-- **Parameter lists are read back.**  Whatever stands in front of the parenthesis and behind the
one that closes it, the parameters that are written between them are the parameters that are
read. -/
theorem readList_listAt_written (ps : List Written) (front back : Text) :
    readList (listAt ((front ++ '(' :: (Text.join separator (ps.map Written.written) ++
      ')' :: back)).drop front.length)) = ps.map Written.record := by
  have hentries : ∀ t ∈ ps.map Written.written, Entry t := by
    intro t ht
    obtain ⟨p, -, rfl⟩ := List.mem_map.1 ht
    exact p.entry
  rw [List.drop_left, readList, splitList_listAt_join hentries]
  induction ps with
  | nil => rfl
  | cons p ps ih =>
    rw [List.map_cons, List.filterMap_cons_some p.read?_written, List.map_cons, ih]
    exact fun t ht => hentries t (List.mem_cons_of_mem _ ht)

example :
    readList
        (listAt "([Bind(1, 2)] this Map<int, List<B[]>> [,]? m = \"a, (b] = c\") => 0".toList) =
      [⟨"m".toList, "Map<int,List<B[]>>[,]?".toList, true, some "\"a, (b] = c\"".toList⟩] := by
  decide +kernel

end RazorViews.Parameter
