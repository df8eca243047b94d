import RazorViews.Proofs.Pattern.Seam
import RazorViews.Proofs.Property.Bounds

/-!
# What annotations give

Four fields are taken from annotations: two captions and two bounds of lengths.  Each has patterns
of its own, the preferred one first, and each pattern keeps a text of an annotation.

Of several annotations the last one that gives a field decides: `ofAttributes_readable`.  It is
stated for lists of annotations in which no bound has too many digits, since reading them fails
otherwise; for such lists it says what the answer is, field by field, by `lastGiven`.

An annotation here is the body of a group, which may be several of them with commas between.  What
the patterns find in such a body is said in `valueBy?_merged`, and which digits are a bound in
`lengths_iff`.
-/

namespace RazorViews.Metadata

open Pattern

/-! ## Named arguments -/

variable {value : Pattern} {p q : Place}

/-- The name of an argument and the equals sign behind it. -/
def assignment (argument : String) : Pattern := lit argument ++ blanks ++ lit "=" ++ blanks

theorem takes_assignment {argument : String} {t : Text} (h : (assignment argument).Takes t) :
    ∃ s s', (∀ c ∈ s, Text.isBlank c = true) ∧ (∀ c ∈ s', Text.isBlank c = true) ∧
      t = argument.toList ++ s ++ '=' :: s' := by
  obtain ⟨_, s', ⟨_, _, ⟨_, s, hargument, hs, rfl⟩, hequals, rfl⟩, hs', rfl⟩ := h
  obtain rfl := takes_lit.1 hargument
  obtain rfl := takes_lit.1 hequals
  exact ⟨s, s', hs, hs', by simp⟩

/-- A named argument is a call, arguments in front of it, its assignment and its value. -/
theorem leads_namedArgument {name argument : String}
    (h : (namedArgument name argument value).Leads p q) :
    ∃ m₁ m₂ m₃, (call (lit name)).Leads p m₁ ∧ (run (· != ')') .least).Leads m₁ m₂ ∧
      onWordEdge m₂ = true ∧ (assignment argument).Leads m₂ m₃ ∧ value.Leads m₃ q := by
  obtain ⟨m₃, ⟨_, ⟨_, ⟨_, ⟨m₂, ⟨_, ⟨m₁, hcall, hrun⟩, hedge, rfl⟩, hlit⟩, hblank⟩, hequals⟩,
    hblank'⟩, hvalue⟩ := h
  exact ⟨m₁, m₂, m₃, hcall, hrun, hedge, ⟨_, ⟨_, ⟨_, hlit, hblank⟩, hequals⟩, hblank'⟩, hvalue⟩

/-! ## Annotations by themselves -/

theorem valueBy?_cons (P : Pattern) (patterns : List Pattern) (t : Text) :
    valueBy? (P :: patterns) t = (keptIn? "value" P t).or (valueBy? patterns t) := by
  rw [valueBy?, List.findSome?_cons, keptIn?]
  cases (P.find? t).bind (·.kept? "value") with
  | none => rfl
  | some x => rfl

/-- The last of the values that the annotations give. -/
def lastGiven {α : Type} (given : Text → Option α) (bodies : List Text) : Option α :=
  (bodies.filterMap given).getLast?

theorem lastGiven_append {α : Type} (given : Text → Option α) (as bs : List Text) :
    lastGiven given (as ++ bs) = (lastGiven given bs).or (lastGiven given as) := by
  rw [lastGiven, List.filterMap_append, List.getLast?_append]
  rfl

theorem lastGiven_singleton {α : Type} (given : Text → Option α) (t : Text) :
    lastGiven given [t] = given t := by
  rw [lastGiven, List.filterMap_cons]
  cases given t with
  | none => rfl
  | some x => rfl

theorem lastGiven_cons {α : Type} (given : Text → Option α) (t : Text) (bodies : List Text) :
    lastGiven given (t :: bodies) = (lastGiven given bodies).or (given t) := by
  rw [← List.singleton_append, lastGiven_append, lastGiven_singleton]

theorem isSome_lastGiven {α : Type} {given : Text → Option α} {bodies : List Text} :
    (lastGiven given bodies).isSome = true ↔ ∃ t ∈ bodies, (given t).isSome = true := by
  induction bodies with
  | nil => simp [lastGiven]
  | cons t bodies ih =>
    rw [lastGiven_cons, Option.isSome_or, Bool.or_eq_true, ih]
    simp only [List.mem_cons, exists_eq_or_imp, or_comm]

/-- The number that a numeral stands for, if it has no more digits than are read. -/
def number? (digits : Text) : Option Nat := (Number.readInt? digits).map Int.toNat

/-- What the patterns give in an annotation. -/
def given? {α : Type} (patterns : List Pattern) (read : Text → Option α) (t : Text) : Option α :=
  (valueBy? patterns t).bind read

theorem isSome_number? {patterns : List Pattern} (hpatterns : ∀ P ∈ patterns, KeepsNumeral P)
    {t digits : Text} (hvalue : valueBy? patterns t = some digits)
    (hlen : digits.length ≤ Number.maxDigits) : (number? digits).isSome = true := by
  obtain ⟨hne, hall⟩ := valueBy?_decimals hpatterns hvalue
  rw [number?, Number.readInt?_decimals hne hall, if_pos hlen]
  rfl

theorem bound?_readable {patterns : List Pattern} (hpatterns : ∀ P ∈ patterns, KeepsNumeral P)
    {t : Text} (h : ∀ digits, valueBy? patterns t = some digits →
      digits.length ≤ Number.maxDigits) :
    bound? patterns t = .ok (given? patterns number? t) := by
  rw [bound?, given?]
  cases hvalue : valueBy? patterns t with
  | none => rfl
  | some digits =>
    obtain ⟨n, hn⟩ := Option.isSome_iff_exists.1 (isSome_number? hpatterns hvalue (h digits hvalue))
    obtain ⟨i, hi, rfl⟩ := Option.map_eq_some_iff.1 hn
    rw [Option.bind_some, hn]
    simp only [hi]

/-- What annotations say after `m`, if they can be read. -/
theorem foldlM_add_readable {bodies : List Text} (h : ∀ t ∈ bodies, IsReadable t) (m : Metadata) :
    bodies.foldlM add m = .ok {
      displayName := (lastGiven (given? displayNames some) bodies).or m.displayName
      description := (lastGiven (given? descriptions some) bodies).or m.description
      maxLength := (lastGiven (given? maxLengths number?) bodies).or m.maxLength
      minLength := (lastGiven (given? minLengths number?) bodies).or m.minLength } := by
  induction bodies generalizing m with
  | nil => rfl
  | cons t bodies ih =>
    obtain ⟨ht, hbodies⟩ := List.forall_mem_cons.1 h
    have hmax := bound?_readable keepsNumeral_maxLengths fun digits hd => ht digits (.inl hd)
    have hmin := bound?_readable keepsNumeral_minLengths fun digits hd => ht digits (.inr hd)
    have hadd : m.add t = .ok {
        displayName := (given? displayNames some t).or m.displayName
        description := (given? descriptions some t).or m.description
        maxLength := (given? maxLengths number? t).or m.maxLength
        minLength := (given? minLengths number? t).or m.minLength } := by
      rw [add, hmax, hmin]
      simp only [given?, Option.bind_fun_some]
      rfl
    rw [List.foldlM_cons, hadd]
    simp only [lastGiven_cons, Option.or_assoc]
    exact ih hbodies _

/-- **The last annotation that gives a field decides.** -/
theorem ofAttributes_readable {bodies : List Text} (h : ∀ t ∈ bodies, IsReadable t) :
    ofAttributes bodies = .ok {
      displayName := lastGiven (given? displayNames some) bodies
      description := lastGiven (given? descriptions some) bodies
      maxLength := lastGiven (given? maxLengths number?) bodies
      minLength := lastGiven (given? minLengths number?) bodies } := by
  have hfold := foldlM_add_readable h empty
  simp only [empty, Option.or_none] at hfold
  exact hfold

end RazorViews.Metadata
