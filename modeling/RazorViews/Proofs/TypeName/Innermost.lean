import RazorViews.Proofs.TypeName.ClassName
import RazorViews.Proofs.TypeName.Clean

/-!
# The argument that a type is unwrapped to

The class that a page is about is looked for in the type of its model: a list of lists of orders is
about orders.  A type is unwrapped to the last argument within the *first* innermost pair of
brackets, and this is repeated as long as there are brackets.

## What is proved

`className_written` is about every type: a path that begins at the root of all names or not, with
arguments or without, optional any number of times, with white space around every part, and all this
to any depth (`TypeTerm`).

* Its class is the last step of its innermost type, if the question marks of that stand together
  (`IsTidy`).
* It is the class that its last arguments lead to if and only if the innermost type is tidy and
  leads to the same one.
* Unwrapping comes to an end on every text, a type or not, and with one text: that which one turn
  gives.

The last argument of a type need not have the first innermost pair of brackets in it.  Of
`Dictionary<List<A>, B>` the last argument is `B`, and the class is `A`
(`not_className_named_pairOfLists`).

## What it is not

Types are terms of the grammar here.  A text that is no type has a class as well, of which only the
last part says anything.

## The proof

What is unwrapped once has no brackets left, so there is one turn at most (`unwraps_iff`).  That the
pattern takes the argument in question is by induction on the type, for the type and for its
arguments at once (`TypeTerm.bracketed`): each is free of brackets, or has a first pair of them with
none between.
-/

namespace RazorViews

namespace Text

/-- Of white space, a text without any and more behind it, trimming keeps the text. -/
theorem trim_between {b w : Text} (hb : ∀ c ∈ b, isBlank c = true)
    (hw : ∀ c ∈ w, isBlank c = false) (hne : w ≠ []) (t : Text) :
    trim (b ++ w ++ t) = w ++ trimRight t := by
  obtain ⟨u, c, rfl⟩ := (List.eq_nil_or_concat' w).resolve_left hne
  obtain ⟨hu, hc⟩ := List.forall_mem_append.1 hw
  have hleft : trimLeft u = u := trimLeft_eq_self fun d hd => hu d (List.mem_of_mem_head? hd)
  have hsplit : b ++ (u ++ [c]) ++ t = (b ++ u) ++ c :: t := by simp
  rw [hsplit, trim_append_cons (hc c List.mem_cons_self), trimLeft_blanks_append hb, hleft]
  simp

end Text

namespace TypeName

open Pattern

/-! ## Types as they are written -/

mutual

/-- A type: a path, alone or with type arguments, optional or not, with white space around it. -/
inductive TypeTerm where
  | path (isGlobal : Bool) (path : DottedPath)
  | generic (isGlobal : Bool) (path : DottedPath) (gap : Blanks) (arguments : TypeTerms)
  | optional (type : TypeTerm)
  | spaced (front : Blanks) (type : TypeTerm) (back : Blanks)

/-- Type arguments, at least one. -/
inductive TypeTerms where
  | last (type : TypeTerm)
  | next (type : TypeTerm) (more : TypeTerms)

end

/-- The prefix of a path that begins at the root of all names. -/
def globalMark (isGlobal : Bool) : Text := if isGlobal then "global::".toList else []

mutual

def TypeTerm.written : TypeTerm → Text
  | .path isGlobal path => globalMark isGlobal ++ path.written
  | .generic isGlobal path gap arguments =>
    globalMark isGlobal ++ path.written ++ gap.text ++ '<' :: arguments.written ++ ['>']
  | .optional type => type.written ++ ['?']
  | .spaced front type back => front.text ++ type.written ++ back.text

def TypeTerms.written : TypeTerms → Text
  | .last type => type.written
  | .next type more => type.written ++ ',' :: more.written

end

/-- The last identifier of a path. -/
def DottedPath.lastStep (p : DottedPath) : Word := p.steps.getLast?.getD p.head

mutual

/-- The class that a type leads to by its last arguments. -/
def TypeTerm.named : TypeTerm → Text
  | .path _ path => path.lastStep.text
  | .generic _ _ _ arguments => arguments.named
  | .optional type => type.named
  | .spaced _ type _ => type.named

def TypeTerms.named : TypeTerms → Text
  | .last type => type.named
  | .next _ more => more.named

end

/-- The type has type arguments. -/
def TypeTerm.isGeneric : TypeTerm → Bool
  | .path .. => false
  | .generic .. => true
  | .optional type => type.isGeneric
  | .spaced _ type _ => type.isGeneric

/-- One of the types has type arguments. -/
def TypeTerms.anyGeneric : TypeTerms → Bool
  | .last type => type.isGeneric
  | .next type more => type.isGeneric || more.anyGeneric

mutual

/-- The type without arguments that a type is unwrapped to: of type arguments, the first one with
arguments of its own is unwrapped further, and the last one is taken if none has any. -/
def TypeTerm.innermost : TypeTerm → TypeTerm
  | .path isGlobal path => .path isGlobal path
  | .generic _ _ _ arguments => arguments.innermost
  | .optional type => if type.isGeneric then type.innermost else .optional type
  | .spaced front type back => if type.isGeneric then type.innermost else .spaced front type back

def TypeTerms.innermost : TypeTerms → TypeTerm
  | .last type => type.innermost
  | .next type more => if type.isGeneric then type.innermost else more.innermost

end

/-- What stands behind the path of a type without arguments. -/
def TypeTerm.tail : TypeTerm → Text
  | .path .. | .generic .. => []
  | .optional type => type.tail ++ ['?']
  | .spaced _ type back => type.tail ++ back.text

/-- The question marks behind the path of the type stand together. -/
def TypeTerm.IsTidy (t : TypeTerm) : Prop :=
  ∃ (b b' : Blanks) (n : Nat), t.tail = b.text ++ List.replicate n '?' ++ b'.text

/-! ## Unwrapping -/

/-- One turn of unwrapping: the last argument within the first innermost pair of brackets, if there
is such a pair. -/
def unwrapped? (t : Text) : Option Text :=
  ((typeArguments.find? t).bind (·.kept? "arguments")).map fun arguments =>
    Text.trim (Text.afterLast ',' arguments)

/-- Unwrapping, turn by turn, ends with a text that cannot be unwrapped any further. -/
inductive Unwraps : Text → Text → Prop
  | done {t : Text} : unwrapped? t = none → Unwraps t t
  | turn {t u v : Text} : unwrapped? t = some u → Unwraps u v → Unwraps t v

/-! ## Types without arguments -/

theorem bare_of_blanks {b : Text} (hb : ∀ c ∈ b, Text.isBlank c = true) : Bare b :=
  ⟨fun h => absurd (hb _ h) (by decide), fun h => absurd (hb _ h) (by decide)⟩

theorem mem_globalMark {isGlobal : Bool} {c : Char} (h : c ∈ globalMark isGlobal) :
    Text.isWord c = true ∨ c = ':' := by
  cases isGlobal with
  | false => exact absurd h List.not_mem_nil
  | true =>
    have hall : ("global::".toList.all fun d => Text.isWord d || d == ':') = true := by decide
    simpa using List.all_eq_true.1 hall c h

theorem bare_globalMark (isGlobal : Bool) : Bare (globalMark isGlobal) := by
  cases isGlobal <;> constructor <;> decide

theorem TypeTerm.written_ne_nil : ∀ t : TypeTerm, t.written ≠ []
  | .path _ p => List.append_ne_nil_of_right_ne_nil _ p.written_ne_nil
  | .generic .. => by simp [written]
  | .optional _ => by simp [written]
  | .spaced _ type _ =>
    List.append_ne_nil_of_left_ne_nil
      (List.append_ne_nil_of_right_ne_nil _ type.written_ne_nil) _

theorem TypeTerm.innermost_of_not_generic :
    ∀ {t : TypeTerm}, t.isGeneric = false → t.innermost = t
  | .path .., _ => rfl
  | .optional type, h => by
    have h : type.isGeneric = false := h
    rw [innermost, if_neg (by simp [h])]
  | .spaced _ type _, h => by
    have h : type.isGeneric = false := h
    rw [innermost, if_neg (by simp [h])]

/-- A type without arguments is a path with white space in front, and white space and question marks
behind it. -/
theorem TypeTerm.exists_written : ∀ {t : TypeTerm}, t.isGeneric = false →
    ∃ (b : Blanks) (isGlobal : Bool) (path : DottedPath),
      t.written = b.text ++ (globalMark isGlobal ++ path.written) ++ t.tail ∧
        t.named = path.lastStep.text
  | .path isGlobal p, _ => ⟨.none, isGlobal, p, by simp [written, tail, Blanks.none], rfl⟩
  | .optional type, h => by
    obtain ⟨b, isGlobal, p, hwritten, hnamed⟩ := exists_written (t := type) h
    exact ⟨b, isGlobal, p, by rw [written, hwritten, tail, List.append_assoc _ type.tail], hnamed⟩
  | .spaced front type back, h => by
    obtain ⟨b, isGlobal, p, hwritten, hnamed⟩ := exists_written (t := type) h
    refine ⟨⟨front.text ++ b.text, List.forall_mem_append.2 ⟨front.isBlank, b.isBlank⟩⟩,
      isGlobal, p, ?_, hnamed⟩
    rw [written, hwritten, tail]
    simp

theorem TypeTerm.mem_tail : ∀ {t : TypeTerm}, ∀ c ∈ t.tail, Text.isBlank c = true ∨ c = '?'
  | .path .. => by simp [tail]
  | .generic .. => by simp [tail]
  | .optional type =>
    List.forall_mem_append.2 ⟨mem_tail (t := type), List.forall_mem_singleton.2 (.inr rfl)⟩
  | .spaced _ type back =>
    List.forall_mem_append.2 ⟨mem_tail (t := type), fun c hc => .inl (back.isBlank c hc)⟩

theorem TypeTerm.notMem_tail {t : TypeTerm} {c : Char} (hblank : Text.isBlank c = false)
    (hmark : c ≠ '?') : c ∉ t.tail := by
  intro hc
  rcases mem_tail c hc with h | h
  · rw [hblank] at h
    exact absurd h (by simp)
  · exact hmark h

/-- A mark that belongs to no path is not part of a type without arguments. -/
theorem TypeTerm.notMem_written {t : TypeTerm} {c : Char} (h : t.isGeneric = false)
    (hblank : Text.isBlank c = false) (hword : (Text.isWord c || c == '.') = false)
    (hmark : c ≠ '?' ∧ c ≠ ':') : c ∉ t.written := by
  obtain ⟨b, isGlobal, path, hwritten, -⟩ := exists_written h
  have hb : c ∉ b.text := by
    intro hc
    rw [b.isBlank c hc] at hblank
    exact absurd hblank (by simp)
  have hglobal : c ∉ globalMark isGlobal := by
    intro hc
    rcases mem_globalMark hc with hletter | hcolon
    · rw [hletter] at hword
      exact absurd hword (by simp)
    · exact hmark.2 hcolon
  rw [hwritten]
  simp [hb, hglobal, path.notMem hword, notMem_tail hblank hmark.1]

theorem TypeTerm.bare {t : TypeTerm} (h : t.isGeneric = false) : Bare t.written :=
  ⟨notMem_written h (by decide) (by decide) (by decide),
    notMem_written h (by decide) (by decide) (by decide)⟩

theorem TypeTerm.comma_notMem {t : TypeTerm} (h : t.isGeneric = false) : ',' ∉ t.written :=
  notMem_written h (by decide) (by decide) (by decide)

/-! ## The first innermost brackets -/

/-- Among arguments of which none has arguments itself, the last one is behind the last comma. -/
theorem TypeTerms.bare : ∀ {a : TypeTerms}, a.anyGeneric = false →
    Bare a.written ∧ Text.afterLast ',' a.written = a.innermost.written ∧ a.written ≠ []
  | .last type, h => by
    have h : type.isGeneric = false := h
    rw [innermost, TypeTerm.innermost_of_not_generic h]
    exact ⟨TypeTerm.bare h, Text.afterLast_eq_self (TypeTerm.comma_notMem h), type.written_ne_nil⟩
  | .next type more, h => by
    obtain ⟨htype, hmore⟩ : type.isGeneric = false ∧ more.anyGeneric = false := by
      simpa [anyGeneric] using h
    obtain ⟨hbare, hlast, hne⟩ := bare hmore
    have hcomma : Bare [','] := by constructor <;> decide
    rw [innermost, if_neg (by simp [htype]), written]
    refine ⟨(TypeTerm.bare htype).append (hcomma.append hbare), ?_, by simp⟩
    rw [← hlast]
    by_cases hmem : ',' ∈ more.written
    · rw [← List.singleton_append, ← List.append_assoc, Text.afterLast_append_of_mem hmem]
    · rw [Text.afterLast_append_cons hmem, Text.afterLast_eq_self hmem]

mutual

/-- In the first innermost brackets of a type with arguments, the innermost type is the last one. -/
theorem TypeTerm.bracketed : ∀ {t : TypeTerm}, t.isGeneric = true →
    ∃ front inner back, Bracketed t.written front inner back ∧
      Text.trim (Text.afterLast ',' inner) = Text.trim t.innermost.written
  | .path .., h => absurd h (by simp [TypeTerm.isGeneric])
  | .generic isGlobal path gap arguments, _ => by
    have hfront : Bare (globalMark isGlobal ++ path.written ++ gap.text) :=
      ((bare_globalMark isGlobal).append path.bare).append (bare_of_blanks gap.isBlank)
    cases hany : arguments.anyGeneric with
    | false =>
      obtain ⟨hbare, hlast, hne⟩ := TypeTerms.bare hany
      exact ⟨_, arguments.written, [], ⟨rfl, hfront.2, hbare, hne⟩, by
        rw [hlast, TypeTerm.innermost]⟩
    | true =>
      obtain ⟨front, inner, back, hb, hlast⟩ := TypeTerms.bracketed hany
      have hopen := (hb.append_left (List.not_mem_append hfront.2
        (show '>' ∉ ['<'] by decide))).append_right ['>']
      have hwritten : (TypeTerm.generic isGlobal path gap arguments).written =
          globalMark isGlobal ++ path.written ++ gap.text ++ ['<'] ++ arguments.written ++
            ['>'] := by
        rw [TypeTerm.written, List.append_assoc _ ['<'], List.singleton_append]
      exact ⟨_, inner, _, hwritten ▸ hopen, hlast⟩
  | .optional type, h => by
    have h : type.isGeneric = true := h
    obtain ⟨front, inner, back, hb, hlast⟩ := TypeTerm.bracketed h
    rw [TypeTerm.innermost, if_pos h]
    exact ⟨_, inner, _, hb.append_right ['?'], hlast⟩
  | .spaced before type behind, h => by
    have h : type.isGeneric = true := h
    obtain ⟨front, inner, back, hb, hlast⟩ := TypeTerm.bracketed h
    rw [TypeTerm.innermost, if_pos h]
    exact ⟨_, inner, _,
      (hb.append_left (bare_of_blanks before.isBlank).2).append_right behind.text, hlast⟩

theorem TypeTerms.bracketed : ∀ {a : TypeTerms}, a.anyGeneric = true →
    ∃ front inner back, Bracketed a.written front inner back ∧
      Text.trim (Text.afterLast ',' inner) = Text.trim a.innermost.written
  | .last type, h => TypeTerm.bracketed (t := type) h
  | .next type more, h => by
    rw [TypeTerms.innermost, TypeTerms.written]
    by_cases htype : type.isGeneric = true
    · obtain ⟨front, inner, back, hb, hlast⟩ := TypeTerm.bracketed htype
      rw [if_pos htype]
      exact ⟨_, inner, _, hb.append_right (',' :: more.written), hlast⟩
    · have hmore : more.anyGeneric = true := by simpa [TypeTerms.anyGeneric, htype] using h
      obtain ⟨front, inner, back, hb, hlast⟩ := TypeTerms.bracketed hmore
      rw [if_neg htype, ← List.singleton_append, ← List.append_assoc]
      have hopen := List.not_mem_append (TypeTerm.bare (Bool.eq_false_iff.2 htype)).2
        (show '>' ∉ [','] by decide)
      exact ⟨_, inner, _, hb.append_left hopen, hlast⟩

end

theorem Bracketed.trim {t front inner back : Text} (h : Bracketed t front inner back) :
    Bracketed (Text.trim t) (Text.trimLeft front) inner (Text.trimRight back) where
  eq := by
    rw [h.eq, List.append_assoc, List.cons_append, Text.trim_append_cons (by decide),
      Text.trimRight_append_cons (by decide), List.append_assoc, List.cons_append]
  open_front hmem := h.open_front ((List.dropWhile_suffix _).subset hmem)
  bare := h.bare
  ne_nil := h.ne_nil

/-- A type is unwrapped to its innermost type. -/
theorem TypeTerm.lastArgument_written (t : TypeTerm) :
    lastArgument (Text.trim t.written) = Text.trim t.innermost.written := by
  cases hgeneric : t.isGeneric with
  | false =>
    have hbare := TypeTerm.bare hgeneric
    have hsub := (Text.trim_isInfix t.written).subset
    rw [innermost_of_not_generic hgeneric]
    exact lastArgument_of_bare ⟨fun h => hbare.1 (hsub h), fun h => hbare.2 (hsub h)⟩
  | true =>
    obtain ⟨front, inner, back, hb, hlast⟩ := TypeTerm.bracketed hgeneric
    rw [lastArgument_of_bracketed hb.trim, hlast]

/-! ## The class of the innermost type -/

/-- The class that a text without type arguments is about. -/
def classOf (t : Text) : Text :=
  Text.trim (Text.afterLast '.' (Text.stripFront "global::".toList (dropMarks t)))

theorem TypeTerm.className_eq (t : TypeTerm) :
    className t.written = classOf (Text.trim t.innermost.written) := by
  rw [className, t.lastArgument_written, classOf]

theorem stripFront_globalMark {t : Text} (ht : ':' ∉ t) (isGlobal : Bool) :
    Text.stripFront "global::".toList (globalMark isGlobal ++ t) = t := by
  cases isGlobal with
  | true =>
    have hstrip : Text.stripFront? "global::".toList (globalMark true ++ t) = some t :=
      stripFront?_eq_some_iff.2 rfl
    rw [Text.stripFront, hstrip]
    rfl
  | false =>
    rcases eq_append_of_stripFront_eq (rfl : Text.stripFront "global::".toList t = _) with h | h
    · exact h.symm
    · exact absurd (h ▸ by simp) ht

theorem DottedPath.afterLast_written (p : DottedPath) :
    Text.afterLast '.' p.written = p.lastStep.text := by
  have hdot : ∀ w : Word, '.' ∉ w.text := by
    intro w hmem
    exact absurd (w.isWord '.' hmem) (by decide)
  rw [written, lastStep]
  rcases List.eq_nil_or_concat' p.steps with hsteps | ⟨front, w, hsteps⟩
  · rw [hsteps]
    simpa using Text.afterLast_eq_self (hdot p.head)
  · rw [hsteps, List.flatMap_append, ← List.append_assoc, List.flatMap_singleton,
      Text.afterLast_append_cons (hdot w)]
    simp

theorem DottedPath.not_isBlank (p : DottedPath) : ∀ c ∈ p.written, Text.isBlank c = false :=
  fun c hc => Text.not_isBlank_of_dotted (p.isWord_or_dot c hc)

/-- The class of a type without arguments is its last identifier, and what is left of its tail. -/
theorem TypeTerm.classOf_written {t : TypeTerm} (h : t.isGeneric = false) :
    classOf (Text.trim t.written) =
      t.named ++ Text.trimRight (dropMarks (Text.trimRight t.tail)) := by
  obtain ⟨b, isGlobal, p, hwritten, hnamed⟩ := exists_written h
  have hglobal : ∀ c ∈ globalMark isGlobal, Text.isBlank c = false := by
    intro c hc
    rcases mem_globalMark hc with hletter | rfl
    · exact Text.not_isBlank_of_isWord hletter
    · decide
  have htrim : Text.trim t.written =
      globalMark isGlobal ++ p.written ++ Text.trimRight t.tail := by
    rw [hwritten]
    exact Text.trim_between b.isBlank (List.forall_mem_append.2 ⟨hglobal, p.not_isBlank⟩)
      (List.append_ne_nil_of_right_ne_nil _ p.written_ne_nil) t.tail
  -- the path ends with a character that is no question mark
  have hmarks : ∀ s : Text, dropMarks (globalMark isGlobal ++ p.written ++ s) =
      globalMark isGlobal ++ p.written ++ dropMarks s := by
    intro s
    obtain ⟨u, c, hp⟩ := (List.eq_nil_or_concat' p.written).resolve_left p.written_ne_nil
    have hc : c ≠ '?' := by
      rintro rfl
      exact p.notMem (c := '?') (by decide) (hp ▸ by simp)
    rw [hp]
    simpa using dropMarks_append_cons hc (globalMark isGlobal ++ u) s
  generalize hrest : dropMarks (Text.trimRight t.tail) = rest at *
  have hsub : ∀ c ∈ rest, c ∈ t.tail := by
    intro c hc
    have hfront : rest <+: Text.trimRight t.tail := by
      rw [← hrest]
      exact List.rdropWhile_prefix _ _
    exact (Text.trimRight_isPrefix t.tail).subset (hfront.subset hc)
  have hcolon : ':' ∉ p.written ++ rest :=
    List.not_mem_append (p.notMem (by decide))
      fun hc => notMem_tail (by decide) (by decide) (hsub ':' hc)
  have hdot : '.' ∉ rest := fun hc => notMem_tail (by decide) (by decide) (hsub '.' hc)
  have hword : ∀ c ∈ p.lastStep.text, Text.isBlank c = false :=
    fun c hc => Text.not_isBlank_of_isWord (p.lastStep.isWord c hc)
  rw [classOf, htrim, hmarks, hrest, List.append_assoc, stripFront_globalMark hcolon,
    Text.afterLast_append_of_notMem hdot, p.afterLast_written, hnamed]
  exact Text.trim_between (b := []) (by simp) hword p.lastStep.ne_nil rest

/-- Nothing is left of the tail exactly if its question marks stand together. -/
theorem TypeTerm.isTidy_iff {t : TypeTerm} :
    t.IsTidy ↔ Text.trimRight (dropMarks (Text.trimRight t.tail)) = [] := by
  constructor
  · rintro ⟨b, b', n, htail⟩
    have hmarks : dropMarks (Text.trimRight (b.text ++ List.replicate n '?')) = dropMarks b.text ∨
        dropMarks (Text.trimRight (b.text ++ List.replicate n '?')) = [] := by
      cases n with
      | zero =>
        have hblank : Text.trimRight b.text = [] := List.rdropWhile_eq_nil_iff.2 b.isBlank
        rw [List.replicate_zero, List.append_nil, hblank]
        exact .inr rfl
      | succ n =>
        have hkept : Text.trimRight (b.text ++ List.replicate (n + 1) '?') =
            b.text ++ List.replicate (n + 1) '?' := by
          refine Text.trimRight_eq_self ?_
          rw [List.replicate_succ', ← List.append_assoc, List.getLast?_concat]
          rintro c ⟨⟩
          decide
        rw [hkept]
        exact .inl (dropMarks_append_marks b.text (n + 1))
    rw [htail, Text.trimRight_append_blanks b'.isBlank]
    refine List.rdropWhile_eq_nil_iff.2 fun c hc => ?_
    rcases hmarks with h | h
    · exact b.isBlank c ((List.rdropWhile_prefix _ _).subset (h ▸ hc))
    · exact absurd (h ▸ hc) List.not_mem_nil
  · intro h
    -- behind the last mark stands white space, in front of the marks at the end there is no other
    have hback := List.rdropWhile_append_rtakeWhile (p := Text.isBlank) (l := t.tail)
    have hmarks := List.rdropWhile_append_rtakeWhile (p := (· == '?')) (l := Text.trimRight t.tail)
    have hreplicate : (Text.trimRight t.tail).rtakeWhile (· == '?') =
        List.replicate ((Text.trimRight t.tail).rtakeWhile (· == '?')).length '?' :=
      List.eq_replicate_of_mem fun c hc =>
        beq_iff_eq.1 (List.mem_rtakeWhile_imp (p := (· == '?')) hc)
    refine ⟨⟨dropMarks (Text.trimRight t.tail), List.rdropWhile_eq_nil_iff.1 h⟩,
      ⟨t.tail.rtakeWhile Text.isBlank, fun c hc => List.mem_rtakeWhile_imp hc⟩,
      ((Text.trimRight t.tail).rtakeWhile (· == '?')).length, ?_⟩
    show t.tail = List.rdropWhile (· == '?') (Text.trimRight t.tail) ++ _ ++ _
    rw [← hreplicate, hmarks]
    exact hback.symm

/-! ## Unwrapping comes to an end -/

theorem unwrapped?_of_bare {t : Text} (h : Bare t) : unwrapped? t = none := by
  rw [unwrapped?, find?_of_bare h]
  rfl

/-- What is unwrapped once holds no brackets. -/
theorem bare_unwrapped {t u : Text} (h : unwrapped? t = some u) : Bare u := by
  obtain ⟨kept, hkept, rfl⟩ := Option.map_eq_some_iff.1 h
  obtain ⟨f, hf, hkept⟩ := Option.bind_eq_some_iff.1 hkept
  obtain ⟨_, _, -, hfound, -⟩ := find?_eq_some_iff.1 hf
  obtain ⟨_, arguments, _, -, hkept', hbare, -⟩ := typeArguments_found hfound
  obtain rfl : arguments = kept := Option.some.inj (hkept'.symm.trans hkept)
  have hsub : Text.trim (Text.afterLast ',' arguments) ⊆ arguments := by
    intro c hc
    have hmem := List.mem_reverse.1 ((Text.trim_isInfix _).subset hc)
    exact List.mem_reverse.1 ((List.takeWhile_sublist _).subset hmem)
  exact ⟨fun hmem => hbare.1 (hsub hmem), fun hmem => hbare.2 (hsub hmem)⟩

/-- **Unwrapping comes to an end** on every text, after one turn at most, with the last argument. -/
theorem unwraps_iff {t v : Text} : Unwraps t v ↔ v = lastArgument t := by
  have hlast : lastArgument t = (unwrapped? t).getD t := by
    rw [lastArgument, unwrapped?]
    cases (typeArguments.find? t).bind (·.kept? "arguments") <;> rfl
  rw [hlast]
  cases hturn : unwrapped? t with
  | none =>
    constructor
    · rintro (_ | ⟨hsome, -⟩)
      · rfl
      · exact absurd (hturn.symm.trans hsome) (by simp)
    · rintro rfl
      exact .done hturn
  | some u =>
    have hend : unwrapped? u = none := unwrapped?_of_bare (bare_unwrapped hturn)
    constructor
    · rintro (hnone | ⟨hsome, hmore⟩)
      · exact absurd (hturn.symm.trans hnone) (by simp)
      · obtain rfl := Option.some.inj (hturn.symm.trans hsome)
        cases hmore with
        | done => rfl
        | turn hsome => exact absurd (hend.symm.trans hsome) (by simp)
    · rintro rfl
      exact .turn hturn (.done hend)

/-! ## The class of a type -/

mutual

theorem TypeTerm.isGeneric_innermost : ∀ t : TypeTerm, t.innermost.isGeneric = false
  | .path .. => rfl
  | .generic _ _ _ arguments => arguments.isGeneric_innermost
  | .optional type => by
    rw [TypeTerm.innermost]
    split
    · exact type.isGeneric_innermost
    · exact Bool.eq_false_iff.2 ‹_›
  | .spaced _ type _ => by
    rw [TypeTerm.innermost]
    split
    · exact type.isGeneric_innermost
    · exact Bool.eq_false_iff.2 ‹_›

theorem TypeTerms.isGeneric_innermost : ∀ a : TypeTerms, a.innermost.isGeneric = false
  | .last type => type.isGeneric_innermost
  | .next type more => by
    rw [TypeTerms.innermost]
    split
    · exact type.isGeneric_innermost
    · exact more.isGeneric_innermost

end

mutual

theorem TypeTerm.isWord_named : ∀ (t : TypeTerm), ∀ c ∈ t.named, Text.isWord c = true
  | .path _ p => p.lastStep.isWord
  | .generic _ _ _ arguments => arguments.isWord_named
  | .optional type => type.isWord_named
  | .spaced _ type _ => type.isWord_named

theorem TypeTerms.isWord_named : ∀ (a : TypeTerms), ∀ c ∈ a.named, Text.isWord c = true
  | .last type => type.isWord_named
  | .next _ more => more.isWord_named

end

/-- What is left of a tail is not part of a class. -/
theorem TypeTerm.rest_eq_nil {t : TypeTerm}
    (h : ∀ c ∈ Text.trimRight (dropMarks (Text.trimRight t.tail)), Text.isWord c = true) :
    Text.trimRight (dropMarks (Text.trimRight t.tail)) = [] := by
  refine List.eq_nil_iff_forall_not_mem.2 fun c hc => ?_
  have hfront : Text.trimRight (dropMarks (Text.trimRight t.tail)) <+: t.tail :=
    (Text.trimRight_isPrefix _).trans
      ((List.rdropWhile_prefix _ _).trans (Text.trimRight_isPrefix t.tail))
  rcases mem_tail c (hfront.subset hc) with hblank | rfl
  · rw [Text.not_isBlank_of_isWord (h c hc)] at hblank
    exact absurd hblank (by simp)
  · exact absurd (h '?' hc) (by decide)

/-- **The class of a type is that of its innermost type**, if the question marks of that stand
together; so it is the one that its last arguments lead to exactly if the innermost type leads to
the same one.  Unwrapping comes to an end on every text. -/
theorem className_written (t : TypeTerm) :
    (t.innermost.IsTidy → className t.written = t.innermost.named) ∧
      (className t.written = t.named ↔ t.innermost.IsTidy ∧ t.innermost.named = t.named) ∧
      ∀ s v, Unwraps s v ↔ v = lastArgument s := by
  have hclass := t.className_eq.trans (TypeTerm.classOf_written t.isGeneric_innermost)
  have htidy : t.innermost.IsTidy → className t.written = t.innermost.named := by
    intro h
    rw [hclass, TypeTerm.isTidy_iff.1 h, List.append_nil]
  refine ⟨htidy, ?_, fun _ _ => unwraps_iff⟩
  constructor
  · intro h
    have hrest := TypeTerm.rest_eq_nil (t := t.innermost) fun c hc =>
      t.isWord_named c (h ▸ hclass ▸ List.mem_append_right _ hc)
    refine ⟨TypeTerm.isTidy_iff.2 hrest, ?_⟩
    rw [← h, hclass, hrest, List.append_nil]
  · rintro ⟨h, hnamed⟩
    rw [htidy h, hnamed]

/-- A list of lists in front of the last argument. -/
def pairOfLists : TypeTerm :=
  .generic false ⟨⟨"Dictionary".toList, by decide, List.all_eq_true.1 (by decide)⟩, []⟩ .none
    (.next
      (.generic false ⟨⟨"List".toList, by decide, List.all_eq_true.1 (by decide)⟩, []⟩ .none
        (.last (.path false ⟨⟨"A".toList, by decide, List.all_eq_true.1 (by decide)⟩, []⟩)))
      (.last (.spaced ⟨[' '], Text.isBlank_space⟩
        (.path false ⟨⟨"B".toList, by decide, List.all_eq_true.1 (by decide)⟩, []⟩) .none)))

/-- The first argument with arguments decides, and not the last argument. -/
theorem not_className_named_pairOfLists :
    pairOfLists.written = "Dictionary<List<A>, B>".toList ∧
      className pairOfLists.written = "A".toList ∧
      className pairOfLists.written ≠ pairOfLists.named := by
  have hwritten : pairOfLists.written = "Dictionary<List<A>, B>".toList := by decide
  have hclass : className pairOfLists.written = "A".toList := by
    rw [hwritten]
    decide +kernel
  refine ⟨hwritten, hclass, ?_⟩
  rw [hclass]
  decide

end TypeName

end RazorViews
