import RazorViews.Proofs.Pattern.Counts

/-!
# Replacing what is found

An exchange that alters no character of a kind within a match alters none in the whole text: the
matches are disjoint stretches of the text, and what stands between them is copied
(`filter_replaceAll`).  This is how it is known that spelling a type anew loses nothing but white
space.

Where the matches of a text are known one after another, so is the text that they are exchanged in:
`Yields`.  A stretch at none of whose characters the pattern is found is copied (`Yields.copied`),
and a match is exchanged for its image (`Yields.append`); a text is taken apart into such pieces
from the front.  What is found in front of a text may depend on what follows it, so this is said of
texts wherever they stand.
-/

namespace RazorViews.Pattern

/-- A match is a text that the pattern takes. -/
theorem foundAt?_takes {P : Pattern} {p : Place} {f : Found} (h : P.foundAt? p = some f) :
    P.Takes f.text := by
  obtain ⟨hleads, -, hread⟩ := foundAt?_eq_some h
  obtain ⟨u, hu, htake⟩ := hleads.takes
  rw [hread.unique hu]
  exact htake

/-- What is kept of a text is the same before and behind an exchange, if it is the same of every
match and of its image. -/
theorem filter_replaceFrom {P : Pattern} {image : Found → Text} {keeps : Char → Bool}
    (h : ∀ p f, P.foundAt? p = some f →
      f.text ≠ [] ∧ (image f).filter keeps = f.text.filter keeps)
    (covered : Nat) (previous : Option Char) (offset : Nat) (t : Text) :
    (P.replaceFrom image covered previous offset t).filter keeps =
      (t.drop covered).filter keeps := by
  induction t generalizing covered previous offset with
  | nil => simp [replaceFrom]
  | cons c rest ih =>
    cases covered with
    | succ n => exact ih n (some c) (offset + 1)
    | zero =>
      rw [replaceFrom]
      cases hfound : P.foundAt? ⟨offset, previous, c :: rest, []⟩ with
      | none =>
        show (c :: P.replaceFrom image 0 (some c) (offset + 1) rest).filter keeps = _
        rw [List.drop_zero, List.filter_cons, List.filter_cons, ih, List.drop_zero]
      | some f =>
        obtain ⟨hne, himage⟩ := h _ f hfound
        obtain ⟨-, -, hrest, -⟩ := foundAt?_eq_some hfound
        cases htext : f.text with
        | nil => exact absurd htext hne
        | cons d u =>
          rw [htext] at hrest himage
          obtain ⟨rfl, rfl⟩ : c = d ∧ rest = u ++ f.finish.rest := List.cons.inj hrest
          show (image f ++ P.replaceFrom image (f.text.length - 1) (some c) (offset + 1)
            _).filter keeps = _
          rw [List.filter_append, ih, himage, htext, List.length_cons, Nat.add_sub_cancel,
            List.drop_left, List.drop_zero, ← List.filter_append, List.cons_append]

theorem filter_replaceAll {P : Pattern} {image : Found → Text} {keeps : Char → Bool}
    (h : ∀ p f, P.foundAt? p = some f →
      f.text ≠ [] ∧ (image f).filter keeps = f.text.filter keeps) (t : Text) :
    (P.replaceAll image t).filter keeps = t.filter keeps :=
  filter_replaceFrom h 0 none 0 t

/-! ## One match after another -/

/-- Wherever the text stands, the exchange makes `r` of it. -/
def Yields (P : Pattern) (image : Found → Text) (t r : Text) : Prop :=
  ∀ previous offset, P.replaceFrom image 0 previous offset t = r

variable {P : Pattern} {image : Found → Text} {t r u v : Text}

theorem Yields.replaceAll (h : P.Yields image t r) : P.replaceAll image t = r := h none 0

theorem yields_nil : P.Yields image [] [] := fun _ _ => rfl

/-- A character at which the pattern is not found is copied. -/
theorem Yields.cons {c : Char} (h : P.Yields image t r)
    (hno : ∀ p q : Place, p.rest = c :: t → ¬ P.Leads p q) : P.Yields image (c :: t) (c :: r) := by
  intro previous offset
  rw [replaceFrom, foundAt?_eq_none_iff.2 fun q => hno _ q rfl]
  exact congrArg (c :: ·) (h (some c) (offset + 1))

/-- A stretch at none of whose characters the pattern is found is copied. -/
theorem Yields.copied {w : Text} (h : P.Yields image t r)
    (hw : ∀ c ∈ w, ∀ p q : Place, p.rest.head? = some c → ¬ P.Leads p q) :
    P.Yields image (w ++ t) (w ++ r) := by
  induction w with
  | nil => exact h
  | cons c w ih =>
    obtain ⟨hc, hw⟩ := List.forall_mem_cons.1 hw
    exact (ih hw).cons fun p q hp => hc p q (by rw [hp]; rfl)

theorem Yields.covered (h : P.Yields image t r) (u : Text) (previous : Option Char)
    (offset : Nat) : P.replaceFrom image u.length previous offset (u ++ t) = r := by
  induction u generalizing previous offset with
  | nil => exact h previous offset
  | cons c u ih => exact ih (some c) (offset + 1)

/-- A match is exchanged for its image. -/
theorem Yields.append (h : P.Yields image t r) (hne : u ≠ [])
    (hfound : ∀ p : Place, p.rest = u ++ t → p.kept = [] →
      ∃ f, P.foundAt? p = some f ∧ f.text = u ∧ image f = v) :
    P.Yields image (u ++ t) (v ++ r) := by
  intro previous offset
  obtain ⟨c, u, rfl⟩ := List.exists_cons_of_ne_nil hne
  obtain ⟨f, hf, htext, himage⟩ := hfound ⟨offset, previous, c :: (u ++ t), []⟩ rfl rfl
  rw [List.cons_append, replaceFrom, hf]
  show image f ++ P.replaceFrom image (f.text.length - 1) (some c) (offset + 1) (u ++ t) = v ++ r
  rw [himage, htext, List.length_cons, Nat.add_sub_cancel, h.covered]

/-- A text that the pattern is nowhere found in is copied. -/
theorem yields_self (hno : ∀ a b, t = a ++ b → ∀ p q : Place, p.rest = b → ¬ P.Leads p q) :
    P.Yields image t t := by
  induction t with
  | nil => exact yields_nil
  | cons c t ih =>
    refine (ih fun a b hab => ?_).cons (hno [] (c :: t) rfl)
    exact hno (c :: a) b (by rw [hab, List.cons_append])

end RazorViews.Pattern
