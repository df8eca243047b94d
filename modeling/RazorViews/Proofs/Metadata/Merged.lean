import RazorViews.Proofs.Metadata.Sealed

/-!
# Which annotation decides

Of several annotations in bodies of their own the last one that gives a field decides.  Put together
in one body, the first one that is found decides, and where two patterns give the same field, the
preferred pattern: `valueBy?_merged`.

## What is proved

So putting two annotations together may change what is said, and `ofAttributes_merged_iff` tells
exactly when it does not: for each of the two captions and the two bounds the second annotation
still decides (`SecondDecides`).  That is to say that an annotation behind them gives the field, or
that the second one gives it by a preferred pattern, or that not both of them give different values.

With `MaxLength(10)` and `StringLength(20)` the greatest length is 20 if they stand in brackets of
their own, and 10 if they stand in one bracket (`ofAttributes_merged_lengths`), although the
language knows no difference.

## The hypotheses

* The first one is sealed (`Sealed`): it closes the parentheses and the quotes that it opens.
  Otherwise a pattern might begin in it and end in the second one, and read what neither says.
* All annotations can be read (`IsReadable`), that is no bound is given in too many digits.  Where
  one is not, the answer is a failure and not a matter of who decides.

Annotations in front of the two and behind them may be any.

## The proof

Each field is read by some patterns in turn, the preferred one first, and a pattern that begins in a
sealed annotation is found in the two exactly as in the first one alone (`KeepsFirst`).  The rank of
an annotation is the place of its first pattern (`rank`), and the lower rank decides.
-/

namespace RazorViews.Metadata

open Pattern

/-! ## Annotations put together -/

/-- The place of the first pattern that is found in an annotation, the preferred ones first. -/
def rank (patterns : List Pattern) (t : Text) : Nat :=
  patterns.findIdx fun P => (keptIn? "value" P t).isSome

variable {patterns : List Pattern} {a b : Text}

/-- Put together, the first annotation decides, unless the second one gives the value by a preferred
pattern. -/
theorem valueBy?_merged (hpatterns : ∀ P ∈ patterns, KeepsFirst P) (hsealed : Sealed a) (b : Text) :
    valueBy? patterns (a ++ ',' :: ' ' :: b) =
      if rank patterns b < rank patterns a then valueBy? patterns b
      else (valueBy? patterns a).or (valueBy? patterns b) := by
  induction patterns with
  | nil => rfl
  | cons P patterns ih =>
    obtain ⟨hP, hrest⟩ := List.forall_mem_cons.1 hpatterns
    simp only [valueBy?_cons, hP hsealed b, ih hrest, rank, List.findIdx_cons]
    cases keptIn? "value" P a <;> cases keptIn? "value" P b <;> simp

theorem isSome_of_rank_lt (h : rank patterns b < rank patterns a) :
    (valueBy? patterns b).isSome = true := by
  induction patterns with
  | nil => exact absurd h (by simp [rank])
  | cons P patterns ih =>
    simp only [rank, List.findIdx_cons] at h
    rw [valueBy?_cons]
    cases hb : keptIn? "value" P b with
    | some y => rfl
    | none =>
      cases ha : keptIn? "value" P a with
      | some x => exact absurd h (by simp [ha])
      | none =>
        rw [ha, hb] at h
        rw [Option.none_or]
        exact ih (Nat.lt_of_succ_lt_succ h)

/-- Of two annotations that are put together the second one still decides: an annotation behind them
gives the field, or the second one gives it by a preferred pattern, or they do not differ. -/
def SecondDecides {α : Type} (patterns : List Pattern) (read : Text → Option α) (a b : Text)
    (after : List Text) : Prop :=
  (∃ t ∈ after, (valueBy? patterns t).isSome = true) ∨ rank patterns b < rank patterns a ∨
    ∀ x y, valueBy? patterns a = some x → valueBy? patterns b = some y → read x = read y

/-- One field of annotations, two of them put together, is that of the annotations by themselves
exactly if the second one still decides. -/
theorem lastGiven_merged_iff {α : Type} {read : Text → Option α} {before after : List Text}
    (hpatterns : ∀ P ∈ patterns, KeepsFirst P) (hsealed : Sealed a)
    (hread : ∀ t ∈ before ++ a :: b :: after, ∀ x, valueBy? patterns t = some x →
      (read x).isSome = true) :
    lastGiven (given? patterns read) (before ++ (a ++ ',' :: ' ' :: b) :: after) =
        lastGiven (given? patterns read) (before ++ a :: b :: after) ↔
      SecondDecides patterns read a b after := by
  have hgiven : ∀ t ∈ after,
      (given? patterns read t).isSome = (valueBy? patterns t).isSome := by
    intro t ht
    rw [given?]
    cases hvalue : valueBy? patterns t with
    | none => rfl
    | some x => exact hread t (by simp [ht]) x hvalue
  simp only [lastGiven_append, lastGiven_cons]
  by_cases hafter : ∃ t ∈ after, (valueBy? patterns t).isSome = true
  · have hlast : (lastGiven (given? patterns read) after).isSome = true := by
      obtain ⟨t, ht, hsome⟩ := hafter
      exact isSome_lastGiven.2 ⟨t, ht, (hgiven t ht).trans hsome⟩
    obtain ⟨z, hz⟩ := Option.isSome_iff_exists.1 hlast
    simp only [hz, Option.some_or, true_iff]
    exact .inl hafter
  · have hlast : lastGiven (given? patterns read) after = none := by
      rw [← Option.not_isSome_iff_eq_none, isSome_lastGiven]
      rintro ⟨t, ht, hsome⟩
      exact hafter ⟨t, ht, (hgiven t ht).symm.trans hsome⟩
    have hsecond : SecondDecides patterns read a b after ↔ rank patterns b < rank patterns a ∨
        ∀ x y, valueBy? patterns a = some x → valueBy? patterns b = some y → read x = read y :=
      or_iff_right hafter
    rw [hsecond, hlast, Option.none_or, Option.none_or, given?, valueBy?_merged hpatterns hsealed,
      given?, given?]
    cases ha : valueBy? patterns a with
    | none => simp
    | some x =>
      obtain ⟨x', hx⟩ := Option.isSome_iff_exists.1 (hread a (by simp) x ha)
      cases hb : valueBy? patterns b with
      | none =>
        have hrank : ¬ rank patterns b < rank patterns a := fun hlt => by
          simpa [hb] using isSome_of_rank_lt hlt
        simp [hrank]
      | some y =>
        obtain ⟨y', hy⟩ := Option.isSome_iff_exists.1 (hread b (by simp) y hb)
        by_cases hrank : rank patterns b < rank patterns a
        · simp [hrank, hy]
        · simp [hrank, hx, hy]

theorem isReadable_merged (hsealed : Sealed a) (ha : IsReadable a) (hb : IsReadable b) :
    IsReadable (a ++ ',' :: ' ' :: b) := by
  have heither : ∀ {patterns : List Pattern}, (∀ P ∈ patterns, KeepsFirst P) → ∀ digits,
      valueBy? patterns (a ++ ',' :: ' ' :: b) = some digits →
        valueBy? patterns a = some digits ∨ valueBy? patterns b = some digits := by
    intro patterns hpatterns digits h
    rw [valueBy?_merged hpatterns hsealed] at h
    split at h
    · exact .inr h
    · exact (Option.or_eq_some_iff.1 h).imp id And.right
  rintro digits (h | h)
  · exact (heither keepsFirst_maxLengths digits h).elim (ha digits <| .inl ·) (hb digits <| .inl ·)
  · exact (heither keepsFirst_minLengths digits h).elim (ha digits <| .inr ·) (hb digits <| .inr ·)

/-- **Which of two annotations decides.**  Where two annotations are put together, the first of them
sealed, the same is said as by both in bodies of their own exactly if the second one still decides
about every field. -/
theorem ofAttributes_merged_iff {before after : List Text} (hsealed : Sealed a)
    (hreadable : ∀ t ∈ before ++ a :: b :: after, IsReadable t) :
    ofAttributes (before ++ (a ++ ',' :: ' ' :: b) :: after) =
        ofAttributes (before ++ a :: b :: after) ↔
      SecondDecides displayNames some a b after ∧ SecondDecides descriptions some a b after ∧
        SecondDecides maxLengths number? a b after ∧
        SecondDecides minLengths number? a b after := by
  have hmerged : ∀ t ∈ before ++ (a ++ ',' :: ' ' :: b) :: after, IsReadable t := by
    intro t ht
    rcases List.mem_append.1 ht with ht | ht
    · exact hreadable t (by simp [ht])
    · rcases List.mem_cons.1 ht with rfl | ht
      · exact isReadable_merged hsealed (hreadable a (by simp)) (hreadable b (by simp))
      · exact hreadable t (by simp [ht])
  rw [ofAttributes_readable hmerged, ofAttributes_readable hreadable]
  simp only [Except.ok.injEq, Metadata.mk.injEq]
  refine and_congr ?_ (and_congr ?_ (and_congr ?_ ?_))
  · exact lastGiven_merged_iff keepsFirst_displayNames hsealed fun _ _ _ _ => rfl
  · exact lastGiven_merged_iff keepsFirst_descriptions hsealed fun _ _ _ _ => rfl
  · exact lastGiven_merged_iff keepsFirst_maxLengths hsealed fun t ht x hx =>
      isSome_number? keepsNumeral_maxLengths hx (hreadable t ht x (.inl hx))
  · exact lastGiven_merged_iff keepsFirst_minLengths hsealed fun t ht x hx =>
      isSome_number? keepsNumeral_minLengths hx (hreadable t ht x (.inr hx))

/-- Two greatest lengths: in bodies of their own the second one counts, put together the first
one. -/
theorem ofAttributes_merged_lengths :
    let a := "MaxLength(10)".toList
    let b := "StringLength(20)".toList
    Sealed a ∧ (∀ t ∈ [a, b], IsReadable t) ∧
      ofAttributes ["MaxLength(10), StringLength(20)".toList] ≠ ofAttributes [a, b] := by
  intro a b
  have hmax : valueBy? maxLengths a = some "10".toList ∧
      valueBy? maxLengths b = some "20".toList := by decide +kernel
  have hmin : valueBy? minLengths a = none ∧ valueBy? minLengths b = none := by decide +kernel
  have hsealed : Sealed a := sealed_of_getLast? (fun _ => by decide) (by decide)
  have hreadable : ∀ t ∈ [] ++ a :: b :: [], IsReadable t := by
    simp only [List.nil_append, List.forall_mem_cons, IsReadable, hmax, hmin, Option.some.injEq,
      reduceCtorEq, or_false, forall_eq']
    exact ⟨by decide, by decide, by simp⟩
  refine ⟨hsealed, hreadable, ?_⟩
  intro hsame
  obtain ⟨-, -, hsecond, -⟩ := (ofAttributes_merged_iff hsealed hreadable).1 hsame
  rcases hsecond with ⟨t, ht, -⟩ | hrank | hequal
  · exact absurd ht List.not_mem_nil
  · exact absurd hrank (by decide +kernel)
  · exact absurd (hequal _ _ hmax.1 hmax.2) (by decide +kernel)

end RazorViews.Metadata
