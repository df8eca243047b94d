import RazorViews.Proofs.Pattern.Find

/-!
# All matches in a text

The matches in a text are found from the left.  Each of them is a match at its place
(`mem_findAll`), and the next one begins behind its first character and not before its end
(`pairwise_findAll`); so no two matches begin at the same place, and their order in the list is
their order in the text.

Not every place from which the pattern leads somewhere gives a match: one within an earlier match is
passed over.  Which matches there are thus depends on where the first one begins, and for what is
said of actions near a cursor only their being apart is needed.
-/

namespace RazorViews.Pattern

variable {P : Pattern} {covered offset : Nat} {previous : Option Char} {t : Text} {f : Found}

/-- A match is one at a place behind the characters that belong to the match before. -/
theorem mem_findAllFrom (h : f ∈ P.findAllFrom covered previous offset t) :
    ∃ a b, t = a ++ b ∧ covered ≤ a.length ∧
      P.foundAt? (Place.after ⟨offset, previous, t, []⟩ a b) = some f := by
  induction t generalizing covered previous offset with
  | nil => exact absurd h List.not_mem_nil
  | cons c rest ih =>
    have hlater : ∀ {n}, covered ≤ n + 1 → f ∈ P.findAllFrom n (some c) (offset + 1) rest →
        ∃ a b, c :: rest = a ++ b ∧ covered ≤ a.length ∧
          P.foundAt? (Place.after ⟨offset, previous, c :: rest, []⟩ a b) = some f := by
      intro n hn hmem
      obtain ⟨a, b, rfl, ha, hfound⟩ := ih hmem
      have hplace : Place.after ⟨offset, previous, c :: (a ++ b), []⟩ (c :: a) b =
          Place.after ⟨offset + 1, some c, a ++ b, []⟩ a b :=
        (Place.after_after ⟨offset, previous, c :: (a ++ b), []⟩ [c] a b (a ++ b)).symm
      exact ⟨c :: a, b, rfl, Nat.le_trans hn (Nat.succ_le_succ ha), hplace ▸ hfound⟩
    cases covered with
    | succ n => exact hlater (Nat.le_refl _) h
    | zero =>
      rw [findAllFrom] at h
      cases hfirst : P.foundAt? ⟨offset, previous, c :: rest, []⟩ with
      | none =>
        rw [hfirst] at h
        exact hlater (Nat.zero_le _) h
      | some g =>
        rw [hfirst] at h
        rcases List.mem_cons.1 h with rfl | h
        · refine ⟨[], c :: rest, rfl, Nat.zero_le _, ?_⟩
          rw [Place.after_nil rfl, hfirst]
        · exact hlater (Nat.zero_le _) h

theorem start_of_mem_findAllFrom (h : f ∈ P.findAllFrom covered previous offset t) :
    offset + covered ≤ f.start := by
  obtain ⟨a, b, -, ha, hfound⟩ := mem_findAllFrom h
  rw [(foundAt?_eq_some hfound).2.1, Place.offset_after]
  exact Nat.add_le_add_left ha offset

/-- One match begins before another, and has ended where that begins. -/
def Precedes (f g : Found) : Prop := f.start < g.start ∧ f.start + f.text.length ≤ g.start

theorem pairwise_findAllFrom (P : Pattern) (covered : Nat) (previous : Option Char) (offset : Nat)
    (t : Text) : (P.findAllFrom covered previous offset t).Pairwise Precedes := by
  induction t generalizing covered previous offset with
  | nil => exact List.Pairwise.nil
  | cons c rest ih =>
    cases covered with
    | succ n => exact ih n (some c) (offset + 1)
    | zero =>
      rw [findAllFrom]
      cases hfirst : P.foundAt? ⟨offset, previous, c :: rest, []⟩ with
      | none => exact ih 0 (some c) (offset + 1)
      | some f =>
        refine List.pairwise_cons.2 ⟨fun g hg => ?_, ih _ _ _⟩
        have hbehind := start_of_mem_findAllFrom hg
        have hstart : f.start = offset := (foundAt?_eq_some hfirst).2.1
        constructor <;> omega

/-- A match in a text is one at a place of the text. -/
theorem mem_findAll (h : f ∈ P.findAll t) :
    ∃ a b, t = a ++ b ∧ P.foundAt? ((Place.start t).after a b) = some f := by
  obtain ⟨a, b, hab, -, hfound⟩ := mem_findAllFrom h
  exact ⟨a, b, hab, hfound⟩

/-- The matches in a text are disjoint and in order. -/
theorem pairwise_findAll (P : Pattern) (t : Text) : (P.findAll t).Pairwise Precedes :=
  pairwise_findAllFrom P 0 none 0 t

end RazorViews.Pattern
