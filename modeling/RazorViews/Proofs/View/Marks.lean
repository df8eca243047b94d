import Mathlib.Data.List.Infix
import RazorViews.Proofs.Text.Seam
import RazorViews.Proofs.Text.Trim
import RazorViews.Proofs.TypeName.ClassName
import RazorViews.Proofs.TypeName.Clean
import RazorViews.View.Form

/-!
# Reading names off a page

The names on a page are read off its text, as a browser or a server would find them: an input is
bound to the name in its attribute `asp-for` (`boundNames`), and a property is shown by a call of a
helper, in the cell that the tag in front of the call opens (`shown`).  So what is said of pages is
said of texts, and not of what they were made from.

Both begin at a mark, `<input` and `@Html`.  A text is silent about a mark if no reading begins in
it, whatever stands behind (`Silent`); silence is kept when texts are put together, and a text that
does not hold the mark is silent if what stands behind it cannot complete one (`Silent.between`).

* What is silent is passed over, so the fixed parts of a page count for nothing
  (`boundNames_append`, `shown_append`).  Of a fixed text silence can be computed in one pass
  (`isSilent_iff`).
* An input is bound to its name, behind other attributes or none (`boundNames_input`).
* A cell shows its property and nothing else (`shown_written`).
-/

namespace RazorViews.Markup

open Text

/-! ## Inputs -/

/-- The value of an attribute of a tag, from what stands behind the name of the tag.  The attribute
is told by its beginning up to the opening quote.  Other values are passed over. -/
def attribute? (opening : Text) : (quoted : Bool) → Text → Option Text
  | _, [] => none
  | true, c :: rest => attribute? opening (c != '"') rest
  | false, c :: rest =>
    if c == '>' then none
    else
      match if isBlank c then stripFront? opening rest else none with
      | some value => some (value.takeWhile (· != '"'))
      | none => attribute? opening (c == '"') rest

/-- What inputs begin with. -/
def inputMark : Text := "<input".toList

/-- The name that the input at the front of a text is bound to. -/
def boundName? (t : Text) : Option Text :=
  (stripFront? inputMark t).bind (attribute? "asp-for=\"".toList false)

/-- The names that the inputs of a text are bound to, in order. -/
def boundNames : Text → List Text
  | [] => []
  | c :: rest => (boundName? (c :: rest)).toList ++ boundNames rest

/-! ## Shown properties -/

/-- A property that is shown. -/
structure Shown where
  /-- The name of the tag in front. -/
  cell : Text
  /-- The helper that is called. -/
  helper : Text
  /-- The name of the property. -/
  name : Text
deriving DecidableEq, Repr

/-- What calls of helpers begin with. -/
def callMark : Text := "@Html".toList

/-- The helper that is called at the front of a text, and the property that its argument leads
to. -/
def call? (t : Text) : Option (Text × Text) :=
  (stripFront? (callMark ++ ['.']) t).map fun rest =>
    (rest.takeWhile (· != '('), afterLast '.' ((rest.dropWhile (· != '(')).takeWhile (· != ')')))

/-- The name of the tag in front, given what stands in front, last character first. -/
def tagBefore (before : Text) : Text :=
  match before.dropWhile isBlank with
  | '>' :: inside => (inside.takeWhile (· != '<')).reverse.takeWhile (!isBlank ·)
  | _ => []

/-- The properties that a text shows, in order, given what stands in front of it. -/
def shown (before : Text) : Text → List Shown
  | [] => []
  | c :: rest =>
    (((call? (c :: rest)).map fun (helper, name) => ⟨tagBefore before, helper, name⟩).toList) ++
      shown (c :: before) rest

/-! ## Silence -/

variable {mark a b x y name before : Text} {c : Char}

/-- No mark begins in the text, whatever stands behind it. -/
def Silent (mark a : Text) : Prop := ∀ s, s <:+ a → s ≠ [] → ¬ mark <+: s ∧ ¬ s <+: mark

theorem silent_nil (mark : Text) : Silent mark [] := by
  intro s hs hne
  exact absurd (List.eq_nil_of_suffix_nil hs) hne

theorem Silent.tail (h : Silent mark (c :: a)) : Silent mark a :=
  fun s hs => h s (hs.trans (List.suffix_cons c a))

theorem silent_cons : Silent mark (c :: a) ↔
    (¬ mark <+: c :: a ∧ ¬ c :: a <+: mark) ∧ Silent mark a := by
  constructor
  · intro h
    exact ⟨h (c :: a) List.suffix_rfl (List.cons_ne_nil c a), h.tail⟩
  · rintro ⟨hhere, ha⟩ s hs hne
    rcases List.suffix_cons_iff.1 hs with rfl | hs
    · exact hhere
    · exact ha s hs hne

/-- Whether a text is silent, found in one pass over it. -/
def isSilent (mark : Text) : Text → Bool
  | [] => true
  | c :: a => !mark.isPrefixOf (c :: a) && !(c :: a).isPrefixOf mark && isSilent mark a

theorem isSilent_iff : isSilent mark a = true ↔ Silent mark a := by
  induction a with
  | nil => exact ⟨fun _ => silent_nil mark, fun _ => rfl⟩
  | cons c a ih =>
    rw [isSilent, Bool.and_eq_true, Bool.and_eq_true, ih, silent_cons]
    simp only [Bool.not_eq_true', ← Bool.not_eq_true, List.isPrefixOf_iff_prefix]

instance (mark a : Text) : Decidable (Silent mark a) := decidable_of_iff _ isSilent_iff

theorem Silent.not_prefix (h : Silent mark (c :: a)) (b : Text) : ¬ mark <+: c :: a ++ b := by
  obtain ⟨⟨hlong, hshort⟩, -⟩ := silent_cons.1 h
  intro hmark
  rcases List.prefix_or_prefix_of_prefix hmark (List.prefix_append (c :: a) b) with hle | hle
  · exact hlong hle
  · exact hshort hle

/-- A suffix of two texts lies in the second or takes in all of it. -/
theorem Silent.append (ha : Silent mark a) (hb : Silent mark b) : Silent mark (a ++ b) := by
  induction a with
  | nil => exact hb
  | cons c a ih =>
    obtain ⟨⟨-, hshort⟩, htail⟩ := silent_cons.1 ha
    rw [List.cons_append, silent_cons]
    refine ⟨⟨ha.not_prefix b, fun hle => hshort ?_⟩, ih htail⟩
    exact (List.prefix_append (c :: a) b).trans hle

theorem Silent.flatMap {α : Type} {xs : List α} {write : α → Text}
    (h : ∀ x ∈ xs, Silent mark (write x)) : Silent mark (xs.flatMap write) := by
  induction xs with
  | nil => exact silent_nil mark
  | cons x xs ih =>
    obtain ⟨hx, hxs⟩ := List.forall_mem_cons.1 h
    exact hx.append (ih hxs)

/-- A text without the first character of a mark is silent. -/
theorem silent_of_notMem (h : c ∉ a) : Silent (c :: mark) a := by
  intro s hs hne
  obtain ⟨d, s, rfl⟩ := List.exists_cons_of_ne_nil hne
  have hd : c ≠ d := fun heq => h (heq ▸ hs.subset List.mem_cons_self)
  exact ⟨fun hle => hd (List.cons_prefix_cons.1 hle).1,
    fun hle => hd (List.cons_prefix_cons.1 hle).1.symm⟩

/-- A text that does not hold a mark is silent if a character stands behind it that cannot come
later in the mark. -/
theorem Silent.between (hx : ¬ mark <:+: x) (hc : c ∉ mark.tail) (hy : Silent mark (c :: y)) :
    Silent mark (x ++ c :: y) := by
  induction x with
  | nil => exact hy
  | cons d x ih =>
    intro s hs hne
    rcases List.suffix_cons_iff.1 hs with rfl | hs
    · have hstops : ∀ t, mark ++ t ≠ d :: x ++ c :: y ∨ mark <+: d :: x := by
        intro t
        by_cases heq : mark ++ t = d :: x ++ c :: y
        · right
          rcases append_cons_cases heq.symm with ⟨w, hw, -⟩ | ⟨w, hw, -⟩
          · exact ⟨w, hw.symm⟩
          · exact absurd (by rw [hw]; simp) hc
        · exact .inl heq
      constructor
      · rintro ⟨t, ht⟩
        rcases hstops t with hne | hle
        · exact hne ht
        · exact hx hle.isInfix
      · rintro ⟨t, ht⟩
        exact hc (by rw [← ht]; simp)
    · exact ih (fun hle => hx (hle.trans (List.suffix_cons d x).isInfix)) s hs hne

/-! ## Silent texts are passed over -/

theorem boundName?_eq_none {t : Text} (h : ¬ inputMark <+: t) : boundName? t = none := by
  rw [boundName?]
  cases hstrip : stripFront? inputMark t with
  | none => rfl
  | some rest =>
    exact absurd ⟨rest, (TypeName.stripFront?_eq_some_iff.1 hstrip).symm⟩ h

theorem boundNames_append (h : Silent inputMark a) (b : Text) :
    boundNames (a ++ b) = boundNames b := by
  induction a with
  | nil => rfl
  | cons c a ih =>
    rw [List.cons_append, boundNames, ← List.cons_append, boundName?_eq_none (h.not_prefix b),
      ih h.tail]
    rfl

theorem call?_eq_none {t : Text} (h : ¬ callMark <+: t) : call? t = none := by
  rw [call?]
  cases hstrip : stripFront? (callMark ++ ['.']) t with
  | none => rfl
  | some rest =>
    have heq := TypeName.stripFront?_eq_some_iff.1 hstrip
    exact absurd ⟨'.' :: rest, by rw [heq, List.append_assoc]; rfl⟩ h

theorem shown_append (h : Silent callMark a) (before b : Text) :
    shown before (a ++ b) = shown (a.reverse ++ before) b := by
  induction a generalizing before with
  | nil => rfl
  | cons c a ih =>
    rw [List.cons_append, shown, ← List.cons_append, call?_eq_none (h.not_prefix b), ih h.tail,
      List.reverse_cons, List.append_assoc]
    rfl

theorem shown_silent (h : Silent callMark a) (before : Text) : shown before a = [] := by
  have := shown_append h before []
  rwa [List.append_nil] at this

/-! ## Names -/

/-- A name as identifiers are: word characters, one at least. -/
structure IsName (name : Text) : Prop where
  ne_nil : name ≠ []
  isWord : ∀ c ∈ name, Text.isWord c = true

theorem IsName.notMem (h : IsName name) (hc : Text.isWord c = false) : c ∉ name := by
  intro hmem
  rw [h.isWord c hmem] at hc
  exact absurd hc (by simp)

theorem IsName.silent (h : IsName name) : Silent inputMark name ∧ Silent callMark name :=
  ⟨silent_of_notMem (h.notMem (by decide)), silent_of_notMem (h.notMem (by decide))⟩

theorem takeWhile_append_cons {p : Char → Bool} (hx : ∀ d ∈ x, p d = true) (hc : p c = false)
    (y : Text) : (x ++ c :: y).takeWhile p = x ∧ (x ++ c :: y).dropWhile p = c :: y := by
  constructor
  · rw [List.takeWhile_append_of_pos hx, List.takeWhile_cons_of_neg (by simp [hc]), List.append_nil]
  · rw [List.dropWhile_append_of_pos hx, List.dropWhile_cons_of_neg (by simp [hc])]

/-- The name that an input is bound to, behind other attributes or none. -/
theorem boundNames_input {front indent back : Text} (hname : IsName name)
    (hindent : Silent inputMark indent)
    (hfront : ∀ more, attribute? "asp-for=\"".toList false (front ++ " asp-for=\"".toList ++ more) =
      some (more.takeWhile (· != '"')))
    (hsilent : Silent inputMark ("input".toList ++ front ++ " asp-for=\"".toList))
    (hback : Silent inputMark back) (b : Text) :
    boundNames (indent ++
      (inputMark ++ front ++ " asp-for=\"".toList ++ (name ++ '"' :: (back ++ b)))) =
      name :: boundNames b := by
  have hquote : ∀ d ∈ name, (d != '"') = true := by
    intro d hd
    rw [bne_iff_ne]
    rintro rfl
    exact hname.notMem (by decide) hd
  have hbound : boundName? (inputMark ++ front ++ " asp-for=\"".toList ++
      (name ++ '"' :: (back ++ b))) = some name := by
    have hstrip : stripFront? inputMark
        (inputMark ++ front ++ " asp-for=\"".toList ++ (name ++ '"' :: (back ++ b))) =
        some (front ++ " asp-for=\"".toList ++ (name ++ '"' :: (back ++ b))) :=
      TypeName.stripFront?_eq_some_iff.2 (by simp only [List.append_assoc])
    rw [boundName?, hstrip, Option.bind_some, hfront,
      (takeWhile_append_cons hquote (by decide) _).1]
  have hcons : inputMark ++ front ++ " asp-for=\"".toList ++ (name ++ '"' :: (back ++ b)) =
      '<' :: ("input".toList ++ front ++ " asp-for=\"".toList ++
        (name ++ ('"' :: back ++ b))) := rfl
  have hclose : Silent inputMark ('"' :: back) :=
    Silent.append (a := ['"']) (by decide) hback
  rw [boundNames_append hindent, hcons, boundNames, ← hcons, hbound, boundNames_append hsilent,
    boundNames_append hname.silent.1, boundNames_append hclose]
  rfl

/-! ## Cells -/

/-- A cell that shows a property: a tag, and a call of a helper with an argument that leads to the
property. -/
structure Cell where
  /-- What stands in front of the tag. -/
  front : Text
  /-- The tag without its angle brackets. -/
  tag : Text
  /-- White space between the tag and the call. -/
  gap : Text
  helper : Text
  /-- The argument up to the point in front of the property. -/
  argument : Text
  /-- What stands behind the call. -/
  back : Text
  tag_eq : '<' ∉ tag := by decide
  gap_eq : gap.all isBlank = true := by decide
  helper_eq : '(' ∉ helper := by decide
  argument_eq : ')' ∉ argument := by decide
  silent_front : Silent callMark (front ++ '<' :: tag ++ '>' :: gap) := by
    repeat rw [String.toList_ofList]
    decide
  silent_call : Silent callMark ("Html.".toList ++ helper ++ '(' :: argument ++ ['.']) := by
    repeat rw [String.toList_ofList]
    decide
  silent_back : Silent callMark (')' :: back) := by
    repeat rw [String.toList_ofList]
    decide

namespace Cell

/-- What stands in front of the call. -/
def lead (cell : Cell) : Text := cell.front ++ '<' :: cell.tag ++ '>' :: cell.gap

/-- The call up to the name of the property. -/
def call (cell : Cell) : Text :=
  callMark ++ '.' :: cell.helper ++ '(' :: cell.argument ++ ['.']

/-- The cell for a property. -/
def written (cell : Cell) (name : Text) : Text :=
  cell.lead ++ (cell.call ++ (name ++ ')' :: cell.back))

/-- What the cell shows. -/
def shows (cell : Cell) (name : Text) : Shown :=
  ⟨cell.tag.takeWhile (!isBlank ·), cell.helper, name⟩

theorem call?_written (cell : Cell) (hname : IsName name) (b : Text) :
    call? (cell.call ++ (name ++ ')' :: b)) = some (cell.helper, name) := by
  have hstrip : stripFront? (callMark ++ ['.']) (cell.call ++ (name ++ ')' :: b)) =
      some (cell.helper ++ '(' :: (cell.argument ++ '.' :: name ++ ')' :: b)) := by
    refine TypeName.stripFront?_eq_some_iff.2 ?_
    simp [call]
  have hhelper : ∀ d ∈ cell.helper, (d != '(') = true := by
    intro d hd
    rw [bne_iff_ne]
    rintro rfl
    exact cell.helper_eq hd
  have hargument : ∀ d ∈ '(' :: (cell.argument ++ '.' :: name), (d != ')') = true := by
    intro d hd
    rw [bne_iff_ne]
    rintro rfl
    have hnot := hname.notMem (c := ')') (by decide)
    simp [cell.argument_eq, hnot] at hd
  have hcut := takeWhile_append_cons hhelper (c := '(') (by decide)
    (cell.argument ++ '.' :: name ++ ')' :: b)
  rw [call?, hstrip, Option.map_some, hcut.1, hcut.2, ← List.cons_append,
    (takeWhile_append_cons hargument (by decide) b).1, ← List.cons_append,
    afterLast_append_cons (hname.notMem (by decide))]

theorem tagBefore_lead (cell : Cell) (before : Text) :
    tagBefore (cell.lead.reverse ++ before) = cell.tag.takeWhile (!isBlank ·) := by
  have hreverse : cell.lead.reverse ++ before =
      cell.gap.reverse ++ '>' :: (cell.tag.reverse ++ '<' :: (cell.front.reverse ++ before)) := by
    simp [lead]
  have hgap : ∀ c ∈ cell.gap.reverse, isBlank c = true :=
    fun c hc => List.all_eq_true.1 cell.gap_eq c (List.mem_reverse.1 hc)
  have htag : ∀ c ∈ cell.tag.reverse, (c != '<') = true := by
    intro c hc
    rw [bne_iff_ne]
    rintro rfl
    exact cell.tag_eq (List.mem_reverse.1 hc)
  rw [tagBefore, hreverse, (takeWhile_append_cons hgap (by decide) _).2]
  change ((cell.tag.reverse ++ '<' :: (cell.front.reverse ++ before)).takeWhile
    (· != '<')).reverse.takeWhile (!isBlank ·) = _
  rw [(takeWhile_append_cons htag (by decide) _).1, List.reverse_reverse]

/-- A cell shows its property and nothing else. -/
theorem shown_written (cell : Cell) (hname : IsName name) (before b : Text) :
    shown before (cell.written name ++ b) =
      cell.shows name :: shown ((cell.written name).reverse ++ before) b := by
  have hcall := cell.call?_written hname (cell.back ++ b)
  have hcons : cell.call ++ (name ++ ')' :: (cell.back ++ b)) =
      '@' :: ("Html.".toList ++ cell.helper ++ '(' :: cell.argument ++ ['.'] ++
        (name ++ (')' :: cell.back ++ b))) := by
    simp [call, callMark]
  have hreverse : (')' :: cell.back).reverse ++ (name.reverse ++
      (("Html.".toList ++ cell.helper ++ '(' :: cell.argument ++ ['.']).reverse ++
        '@' :: (cell.lead.reverse ++ before))) = (cell.written name).reverse ++ before := by
    simp [written, call, callMark]
  rw [written, List.append_assoc, List.append_assoc, List.append_assoc, List.cons_append,
    shown_append (a := cell.lead) cell.silent_front, hcons, shown, ← hcons, hcall,
    Option.map_some, tagBefore_lead, shown_append cell.silent_call, shown_append hname.silent.2,
    shown_append cell.silent_back, hreverse]
  rfl

/-- Several cells for a property. -/
def writtenAll (cells : List Cell) (name : Text) : Text := cells.flatMap (·.written name)

theorem shown_writtenAll (cells : List Cell) (hname : IsName name) (before b : Text) :
    ∃ more, shown before (writtenAll cells name ++ b) =
      cells.map (·.shows name) ++ shown more b := by
  induction cells generalizing before with
  | nil => exact ⟨before, rfl⟩
  | cons cell cells ih =>
    obtain ⟨more, hmore⟩ := ih ((cell.written name).reverse ++ before)
    refine ⟨more, ?_⟩
    rw [writtenAll, List.flatMap_cons, ← writtenAll, List.append_assoc, shown_written cell hname,
      hmore]
    rfl

end Cell

end RazorViews.Markup
