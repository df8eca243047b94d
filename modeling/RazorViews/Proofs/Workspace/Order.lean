import Mathlib.Data.Char
import Mathlib.Data.List.Lex
import RazorViews.Workspace.Path

/-!
# The order of paths

Paths are put in the lexicographic order of their parts, and these in the order of their characters.
The order is linear (`partsBefore_iff`, `namesLe_total`), so the order of a list of paths does not
depend on how the list was gathered (`sortNames_congr`).

What two paths have in common in front has no part in their order (`partsBefore_append`).  So below
a folder it is the order of what leads there (`sort_below`), wherever the folder is; this is needed
to compare searches below two folders (`agree_iff`).
-/

namespace RazorViews

/-! ## Linear orders -/

theorem Text.before_iff {s t : Text} : Text.before s t = true ↔ s < t := by
  induction s generalizing t with
  | nil =>
    cases t with
    | nil => simp [Text.before]
    | cons d t => simp [Text.before]
  | cons c s ih =>
    cases t with
    | nil => simp [Text.before]
    | cons d t =>
      rw [Text.before, List.cons_lt_cons_iff]
      by_cases hcd : c = d
      · subst hcd
        rw [if_pos (beq_self_eq_true c), ih]
        simp
      · have hlt : c.toNat < d.toNat ↔ c < d := Iff.rfl
        rw [if_neg (by simpa using hcd), decide_eq_true_eq, hlt]
        simp [hcd]

namespace Path

theorem partsBefore_iff {p q : List Text} : partsBefore p q = true ↔ p < q := by
  induction p generalizing q with
  | nil =>
    cases q with
    | nil => simp [partsBefore]
    | cons b q => simp [partsBefore]
  | cons a p ih =>
    cases q with
    | nil => simp [partsBefore]
    | cons b q =>
      rw [partsBefore, List.cons_lt_cons_iff]
      by_cases hab : a = b
      · subst hab
        rw [if_pos (beq_self_eq_true a), ih]
        simp
      · rw [if_neg (by simpa using hab), Text.before_iff]
        simp [hab]

/-- What two lists have in common in front has no part in their order. -/
theorem partsBefore_append (front p q : List Text) :
    partsBefore (front ++ p) (front ++ q) = partsBefore p q := by
  induction front with
  | nil => rfl
  | cons a front ih => rw [List.cons_append, List.cons_append, partsBefore,
      if_pos (beq_self_eq_true a), ih]

/-! ## Sorting -/

/-- One list of names does not come behind the other. -/
def namesLe (p q : List Text) : Bool := !partsBefore q p

theorem namesLe_iff {p q : List Text} : namesLe p q = true ↔ p ≤ q := by
  rw [namesLe, Bool.not_eq_true', ← Bool.not_eq_true, partsBefore_iff, not_lt]

/-- Lists of names in order. -/
def sortNames (names : List (List Text)) : List (List Text) := names.mergeSort namesLe

theorem mem_sortNames {names : List (List Text)} {p : List Text} :
    p ∈ sortNames names ↔ p ∈ names :=
  (List.mergeSort_perm names namesLe).mem_iff

theorem namesLe_trans (p q r : List Text) (hpq : namesLe p q = true) (hqr : namesLe q r = true) :
    namesLe p r = true := by
  rw [namesLe_iff] at *
  exact hpq.trans hqr

theorem namesLe_total (p q : List Text) : (namesLe p q || namesLe q p) = true := by
  rw [Bool.or_eq_true, namesLe_iff, namesLe_iff]
  exact le_total p q

/-- The order in which names were gathered does not matter. -/
theorem sortNames_congr {names others : List (List Text)} (h : names.Perm others) :
    sortNames names = sortNames others := by
  have hsorted := List.pairwise_mergeSort namesLe_trans namesLe_total
  have hperm := (List.mergeSort_perm names namesLe).trans
    (h.trans (List.mergeSort_perm others namesLe).symm)
  refine hperm.eq_of_pairwise ?_ (hsorted names) (hsorted others)
  intro p q _ _ hpq hqp
  exact le_antisymm (namesLe_iff.1 hpq) (namesLe_iff.1 hqp)

/-- Names that are all different come one before another when they are put in order. -/
theorem pairwise_sortNames {names : List (List Text)} (h : names.Nodup) :
    (sortNames names).Pairwise fun p q => partsBefore p q = true := by
  have hnodup : (sortNames names).Nodup := (List.mergeSort_perm names namesLe).nodup_iff.2 h
  have hsorted := List.pairwise_mergeSort namesLe_trans namesLe_total names
  refine (hsorted.and hnodup).imp ?_
  rintro p q ⟨hle, hne⟩
  exact partsBefore_iff.2 (lt_of_le_of_ne (namesLe_iff.1 hle) hne)

theorem before_irrefl (p : Path) : before p p = false := by
  rw [before, ← Bool.not_eq_true, partsBefore_iff]
  exact lt_irrefl p.parts

/-! ## Below a folder -/

/-- The path that names lead to from a folder. -/
def below (root : Path) (names : List Text) : Path := root.append ⟨.here, names⟩

theorem below_nil (p : Path) : p.below [] = p := by
  obtain ⟨start, steps⟩ := p
  rw [below, append, if_pos (beq_self_eq_true PathRoot.here), List.append_nil]

theorem parts_below (root : Path) (names : List Text) :
    (root.below names).parts = root.parts ++ names := by
  obtain ⟨start, steps⟩ := root
  cases start <;> rfl

/-- Below a folder the order of paths is that of the names that lead to them. -/
theorem sort_below (root : Path) (names : List (List Text)) :
    sort (names.map root.below) = (sortNames names).map root.below := by
  refine (List.map_mergeSort ?_).symm
  intro p _ q _
  rw [namesLe, before, parts_below, parts_below, partsBefore_append]

end Path

end RazorViews
