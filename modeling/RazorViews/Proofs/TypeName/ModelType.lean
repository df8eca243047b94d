import RazorViews.Proofs.Pattern.Takes
import RazorViews.Proofs.Text.Trim
import RazorViews.Source.TypeName

/-!
# Types of models

The type of a model is a dotted path, with type arguments on the same line or without, and it may be
optional (`ModelType`).  The types here carry the proofs of their well-formedness, so that whatever
can be built can be written into a directive and read back from it.

Such a text holds no angle brackets at all (`Bare`), or it holds a first pair of them without others
between (`Bracketed`), and no two such pairs (`Bracketed.unique`).  In that pair the class that the
type is about is looked for.  To take such a type as an argument of another one changes neither
(`Bracketed.append_left`, `Bracketed.append_right`), so the class stays the same
(`className_listOf`).

Line breaks may not stand within the type, since a directive ends with its line; around type
arguments other white space may (`Gap`).
-/

namespace RazorViews.TypeName

open Pattern

/-! ## Types as they are written -/

/-- Word characters, at least one. -/
structure Word where
  text : Text
  ne_nil : text ≠ []
  isWord : ∀ c ∈ text, Text.isWord c = true

/-- Words with dots between them. -/
structure DottedPath where
  head : Word
  steps : List Word

def DottedPath.written (p : DottedPath) : Text :=
  p.head.text ++ p.steps.flatMap fun w => '.' :: w.text

/-- White space, line breaks included. -/
structure Blanks where
  text : Text
  isBlank : ∀ c ∈ text, Text.isBlank c = true

/-- No white space. -/
def Blanks.none : Blanks := ⟨[], by simp⟩

/-- The character is no line break. -/
def isUnbroken (c : Char) : Bool := c != '\r' && c != '\n'

/-- White space within a line. -/
structure Gap where
  text : Text
  isBlank : ∀ c ∈ text, Text.isBlank c = true
  isUnbroken : ∀ c ∈ text, isUnbroken c = true

/-- No white space, and so no line break. -/
def Gap.none : Gap := ⟨[], by simp, by simp⟩

/-- The question mark behind an optional type. -/
def markOf (isOptional : Bool) : Text := if isOptional then ['?'] else []

mutual

/-- The type of a model: a path, with type arguments or without. -/
inductive ModelType where
  | plain (path : DottedPath) (isOptional : Bool)
  | generic (path : DottedPath) (arguments : TypeArguments) (isOptional : Bool)

/-- Type arguments, at least one, each with white space around it. -/
inductive TypeArguments where
  | last (front : Gap) (type : ModelType) (back : Gap)
  | next (front : Gap) (type : ModelType) (back : Gap) (more : TypeArguments)

end

mutual

def ModelType.written : ModelType → Text
  | .plain path isOptional => path.written ++ markOf isOptional
  | .generic path arguments isOptional =>
    path.written ++ '<' :: arguments.written ++ '>' :: markOf isOptional

def TypeArguments.written : TypeArguments → Text
  | .last front type back => front.text ++ type.written ++ back.text
  | .next front type back more => front.text ++ type.written ++ back.text ++ ',' :: more.written

end

/-- The path of the lists of something. -/
def listPath : DottedPath :=
  ⟨⟨"IEnumerable".toList, by decide, List.all_eq_true.1 (by decide)⟩, []⟩

/-- The type of the lists of models of a type. -/
def ModelType.listOf (type : ModelType) : ModelType :=
  .generic listPath (.last Gap.none type Gap.none) false

theorem ModelType.written_listOf (type : ModelType) :
    type.listOf.written = "IEnumerable<".toList ++ type.written ++ ['>'] := by
  have hfront : listPath.written ++ ['<'] = "IEnumerable<".toList := by decide
  have harguments : (TypeArguments.last Gap.none type Gap.none).written = type.written := by
    simp [TypeArguments.written, Gap.none]
  have hmark : markOf false = [] := rfl
  rw [listOf, written, harguments, hmark, ← hfront]
  simp

/-! ## Characters -/

theorem DottedPath.isWord_or_dot (p : DottedPath) :
    ∀ c ∈ p.written, (Text.isWord c || c == '.') = true := by
  intro c hc
  rcases List.mem_append.1 hc with hc | hc
  · rw [p.head.isWord c hc]
    rfl
  · obtain ⟨w, -, hc⟩ := List.mem_flatMap.1 hc
    rcases List.mem_cons.1 hc with rfl | hc
    · decide
    · rw [w.isWord c hc]
      rfl

theorem DottedPath.written_ne_nil (p : DottedPath) : p.written ≠ [] :=
  List.append_ne_nil_of_left_ne_nil p.head.ne_nil _

/-- A character that is neither a word character nor a dot is not part of a path. -/
theorem DottedPath.notMem (p : DottedPath) {c : Char}
    (hc : (Text.isWord c || c == '.') = false) : c ∉ p.written := by
  intro hmem
  rw [p.isWord_or_dot c hmem] at hc
  exact absurd hc (by simp)

theorem mem_markOf {isOptional : Bool} {c : Char} (h : c ∈ markOf isOptional) : c = '?' := by
  cases isOptional with
  | false => exact absurd h List.not_mem_nil
  | true => exact List.mem_singleton.1 h

theorem isUnbroken_of_word_or_dot {c : Char} (h : (Text.isWord c || c == '.') = true) :
    isUnbroken c = true := by
  have hbreaks : ∀ d ∈ ['\r', '\n'], (Text.isWord d || d == '.') = false :=
    List.forall_mem_cons.2 ⟨by decide, List.forall_mem_singleton.2 (by decide)⟩
  rw [isUnbroken, Bool.and_eq_true, bne_iff_ne, bne_iff_ne]
  constructor
  · rintro rfl
    rw [hbreaks '\r' (by simp)] at h
    exact absurd h (by simp)
  · rintro rfl
    rw [hbreaks '\n' (by simp)] at h
    exact absurd h (by simp)

theorem isUnbroken_markOf (isOptional : Bool) : ∀ c ∈ markOf isOptional, isUnbroken c = true := by
  intro c hc
  rw [mem_markOf hc]
  decide

mutual

/-- A type is written on one line. -/
theorem ModelType.isUnbroken : ∀ (t : ModelType), ∀ c ∈ t.written, isUnbroken c = true
  | .plain path isOptional =>
    List.forall_mem_append.2
      ⟨fun c hc => isUnbroken_of_word_or_dot (path.isWord_or_dot c hc),
        isUnbroken_markOf isOptional⟩
  | .generic path arguments isOptional => by
    have hopen : ∀ c ∈ '<' :: arguments.written, TypeName.isUnbroken c = true :=
      List.forall_mem_cons.2 ⟨by decide, arguments.isUnbroken⟩
    have hclose : ∀ c ∈ '>' :: markOf isOptional, TypeName.isUnbroken c = true :=
      List.forall_mem_cons.2 ⟨by decide, isUnbroken_markOf isOptional⟩
    have hpath : ∀ c ∈ path.written, TypeName.isUnbroken c = true :=
      fun c hc => isUnbroken_of_word_or_dot (path.isWord_or_dot c hc)
    exact List.forall_mem_append.2 ⟨List.forall_mem_append.2 ⟨hpath, hopen⟩, hclose⟩

theorem TypeArguments.isUnbroken : ∀ (a : TypeArguments), ∀ c ∈ a.written, isUnbroken c = true
  | .last front type back =>
    List.forall_mem_append.2
      ⟨List.forall_mem_append.2 ⟨front.isUnbroken, type.isUnbroken⟩, back.isUnbroken⟩
  | .next front type back more => by
    have hfirst := List.forall_mem_append.2
      ⟨List.forall_mem_append.2 ⟨front.isUnbroken, type.isUnbroken⟩, back.isUnbroken⟩
    have hmore : ∀ c ∈ ',' :: more.written, TypeName.isUnbroken c = true :=
      List.forall_mem_cons.2 ⟨by decide, more.isUnbroken⟩
    exact List.forall_mem_append.2 ⟨hfirst, hmore⟩

end

theorem ModelType.written_ne_nil (t : ModelType) : t.written ≠ [] := by
  cases t with
  | plain path isOptional => exact List.append_ne_nil_of_left_ne_nil path.written_ne_nil _
  | generic path arguments isOptional =>
    exact List.append_ne_nil_of_right_ne_nil _ (List.cons_ne_nil _ _)

/-! ## White space at the ends -/

theorem ModelType.not_isBlank_head (t : ModelType) :
    ∀ c ∈ t.written.head?, Text.isBlank c = false := by
  have hpath : ∀ (p : DottedPath) (more : Text), ∀ c ∈ (p.written ++ more).head?,
      Text.isBlank c = false := by
    intro p more c hc
    obtain ⟨d, rest, hd⟩ := List.exists_cons_of_ne_nil p.written_ne_nil
    rw [hd] at hc
    obtain rfl : d = c := Option.some.inj hc
    exact Text.not_isBlank_of_dotted (p.isWord_or_dot d (by simp [hd]))
  cases t with
  | plain path isOptional => exact hpath path _
  | generic path arguments isOptional =>
    rw [written, List.append_assoc]
    exact hpath path _

theorem ModelType.not_isBlank_getLast (t : ModelType) :
    ∀ c ∈ t.written.getLast?, Text.isBlank c = false := by
  -- behind a text that ends with no blank there may be a question mark
  have hmark : ∀ (front : Text) (isOptional : Bool),
      (∀ c ∈ front.getLast?, Text.isBlank c = false) →
        ∀ c ∈ (front ++ markOf isOptional).getLast?, Text.isBlank c = false := by
    intro front isOptional hfront c hc
    cases isOptional with
    | false => exact hfront c (by simpa [markOf] using hc)
    | true =>
      obtain rfl : '?' = c := by simpa [markOf] using hc
      decide
  cases t with
  | plain path isOptional =>
    refine hmark _ _ ?_
    intro c hc
    exact Text.not_isBlank_of_dotted (path.isWord_or_dot c (List.mem_of_mem_getLast? hc))
  | generic path arguments isOptional =>
    rw [written, ← List.singleton_append (x := '>'), ← List.append_assoc]
    refine hmark _ _ ?_
    intro c hc
    rw [List.getLast?_append, List.getLast?_singleton] at hc
    obtain rfl : '>' = c := Option.some.inj hc
    decide

theorem ModelType.trim_written (t : ModelType) : Text.trim t.written = t.written :=
  Text.trim_eq_self t.not_isBlank_head t.not_isBlank_getLast

/-! ## Innermost brackets -/

/-- The text holds no angle brackets. -/
def Bare (t : Text) : Prop := '<' ∉ t ∧ '>' ∉ t

/-- The first closing bracket of the text closes what has no brackets inside. -/
structure Bracketed (t front inner back : Text) : Prop where
  eq : t = front ++ '<' :: inner ++ '>' :: back
  open_front : '>' ∉ front
  bare : Bare inner
  ne_nil : inner ≠ []

theorem Bare.append {s t : Text} (hs : Bare s) (ht : Bare t) : Bare (s ++ t) :=
  ⟨List.not_mem_append hs.1 ht.1, List.not_mem_append hs.2 ht.2⟩

theorem DottedPath.bare (p : DottedPath) : Bare p.written :=
  ⟨p.notMem (by decide), p.notMem (by decide)⟩

theorem Gap.bare (g : Gap) : Bare g.text := by
  constructor
  · intro h
    exact absurd (g.isBlank _ h) (by decide)
  · intro h
    exact absurd (g.isBlank _ h) (by decide)

theorem bare_markOf (isOptional : Bool) : Bare (markOf isOptional) :=
  ⟨fun h => absurd (mem_markOf h) (by decide), fun h => absurd (mem_markOf h) (by decide)⟩

theorem Bracketed.append_left {s t front inner back : Text} (hs : '>' ∉ s)
    (h : Bracketed t front inner back) : Bracketed (s ++ t) (s ++ front) inner back :=
  ⟨by rw [h.eq]; simp, List.not_mem_append hs h.open_front, h.bare, h.ne_nil⟩

theorem Bracketed.append_right {t front inner back : Text} (h : Bracketed t front inner back)
    (s : Text) : Bracketed (t ++ s) front inner (back ++ s) :=
  ⟨by rw [h.eq]; simp, h.open_front, h.bare, h.ne_nil⟩

/-- A text has at most one such pair. -/
theorem Bracketed.unique {t front inner back front' inner' back' : Text}
    (h : Bracketed t front inner back) (h' : Bracketed t front' inner' back') :
    inner = inner' := by
  have hopen : ∀ {f i b : Text}, Bracketed t f i b →
      t.takeWhile (· != '>') = f ++ '<' :: i := by
    intro f i b hb
    have hno : ∀ c ∈ f ++ '<' :: i, (c != '>') = true := by
      intro c hc
      rw [bne_iff_ne]
      rintro rfl
      exact List.not_mem_append hb.open_front (List.not_mem_cons_of_ne_of_not_mem (by decide)
        hb.bare.2) hc
    rw [hb.eq, List.takeWhile_append_of_pos hno]
    simp
  have hinner : ∀ {f i b : Text}, Bracketed t f i b → Text.afterLast '<' (f ++ '<' :: i) = i := by
    intro f i b hb
    have hno : ∀ c ∈ i.reverse, (c != '<') = true := by
      intro c hc
      rw [bne_iff_ne]
      rintro rfl
      exact hb.bare.1 (List.mem_reverse.1 hc)
    rw [Text.afterLast, List.reverse_append, List.reverse_cons, List.append_assoc,
      List.takeWhile_append_of_pos hno]
    simp
  rw [← hinner h, ← hinner h', ← hopen h, ← hopen h']

mutual

theorem ModelType.bare_or_bracketed :
    ∀ t : ModelType, Bare t.written ∨ ∃ front inner back, Bracketed t.written front inner back
  | .plain path isOptional => .inl (path.bare.append (bare_markOf isOptional))
  | .generic path arguments isOptional => by
    right
    have hpath : '>' ∉ path.written ++ ['<'] :=
      List.not_mem_append path.bare.2 (by decide)
    rw [ModelType.written]
    rcases arguments.bare_or_bracketed with hbare | ⟨front, inner, back, hb⟩
    · exact ⟨path.written, arguments.written, markOf isOptional, rfl, path.bare.2, hbare,
        arguments.written_ne_nil⟩
    · have hwhole := (hb.append_left hpath).append_right ('>' :: markOf isOptional)
      rw [List.append_assoc path.written] at hwhole
      exact ⟨_, inner, _, hwhole⟩

theorem TypeArguments.bare_or_bracketed :
    ∀ a : TypeArguments, Bare a.written ∨ ∃ front inner back, Bracketed a.written front inner back
  | .last front type back => by
    rw [TypeArguments.written]
    rcases type.bare_or_bracketed with hbare | ⟨f, inner, b, hb⟩
    · exact .inl ((front.bare.append hbare).append back.bare)
    · exact .inr ⟨_, inner, _, (hb.append_left front.bare.2).append_right back.text⟩
  | .next front type back more => by
    rw [TypeArguments.written]
    rcases type.bare_or_bracketed with hbare | ⟨f, inner, b, hb⟩
    · have hfirst := (front.bare.append hbare).append back.bare
      have hcomma : Bare [','] := by constructor <;> decide
      rcases more.bare_or_bracketed with hmore | ⟨f, inner, b, hb⟩
      · exact .inl (hfirst.append (hcomma.append hmore))
      · exact .inr ⟨_, inner, _, (hb.append_left hcomma.2).append_left hfirst.2⟩
    · exact .inr ⟨_, inner, _,
        ((hb.append_left front.bare.2).append_right back.text).append_right (',' :: more.written)⟩

theorem TypeArguments.written_ne_nil : ∀ a : TypeArguments, a.written ≠ []
  | .last _ type _ =>
    List.append_ne_nil_of_left_ne_nil
      (List.append_ne_nil_of_right_ne_nil _ type.written_ne_nil) _
  | .next .. => List.append_ne_nil_of_right_ne_nil _ (List.cons_ne_nil _ _)

end

end RazorViews.TypeName
