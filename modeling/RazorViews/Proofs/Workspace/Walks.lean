import Mathlib.Data.List.Basic
import Mathlib.Data.List.Induction
import RazorViews.Proofs.Workspace.Tree

/-!
# Following paths

In a tree where every entry lies in a folder (`Rooted`) nothing stands below a place where nothing
is, and a folder lies in folders.

A walk follows the steps of a path from a location.  It is taken apart at its first or last step
(`walk_cons`, `walk_snoc`), or anywhere (`walk_append`), and on its way there are folders
(`walk_front`).  So it is the same in every tree that still has the folders it goes through
(`walk_of_folders`), whatever else has been made there meanwhile.

From a folder one gets along plain names as long as there are folders (`walk_names`), and no further
(`walk_missing`); a step upwards is one from a folder to the folder above, and from the top it leads
to the top.  Links are not among what a tree can hold.
-/

namespace RazorViews.Tree

variable {t made : Tree} {l L F : Location} {p : Path} {name : Text} {names : List Text} {n : Node}

/-! ## Trees that hang together -/

/-- Every entry lies in a folder. -/
def Rooted (t : Tree) : Prop :=
  ∀ l name, (t.get? (l ++ [name])).isSome = true → t.get? l = some .folder

theorem Rooted.folder (h : t.Rooted) (hne : names ≠ []) (hn : t.get? (l ++ names) = some n) :
    t.get? l = some .folder := by
  induction names using List.reverseRecOn generalizing n with
  | nil => exact absurd rfl hne
  | append_singleton names name ih =>
    rw [← List.append_assoc] at hn
    have habove := h (l ++ names) name (by rw [hn]; rfl)
    cases names with
    | nil => rwa [List.append_nil] at habove
    | cons x names => exact ih (List.cons_ne_nil x names) habove

theorem Rooted.folder_of_prefix (h : t.Rooted) (hF : t.get? F = some .folder) (hl : l <+: F) :
    t.get? l = some .folder := by
  obtain ⟨names, rfl⟩ := hl
  cases names with
  | nil => rwa [List.append_nil] at hF
  | cons x names => exact h.folder (List.cons_ne_nil x names) hF

theorem Rooted.none_below (h : t.Rooted) (hl : t.get? l = none) (names : List Text) :
    t.get? (l ++ names) = none := by
  cases names with
  | nil => rwa [List.append_nil]
  | cons x names =>
    cases hn : t.get? (l ++ x :: names) with
    | none => rfl
    | some n =>
      rw [h.folder (List.cons_ne_nil x names) hn] at hl
      exact absurd hl (by simp)

theorem rooted_of_entries (h : ∀ e ∈ t.entries, t.get? e.1.dropLast = some .folder) :
    t.Rooted := by
  intro l name hsome
  obtain ⟨n, hn⟩ := Option.isSome_iff_exists.1 hsome
  have hne : l ++ [name] ≠ [] := List.append_ne_nil_of_right_ne_nil l (List.cons_ne_nil name [])
  have hfolder := h _ ((get?_eq_some_iff hne).1 hn)
  rwa [List.dropLast_concat] at hfolder

/-! ## Walks -/

/-- A name that an entry can have. -/
structure IsPlain (name : Text) : Prop where
  not_up : name ≠ ['.', '.']
  size_le : Utf8.size name ≤ maxNameBytes

theorem walk_append (t : Tree) (l : Location) (a b : List Text) :
    t.walk l (a ++ b) = (t.walk l a).bind (t.walk · b) := by
  induction a generalizing l with
  | nil => rfl
  | cons step a ih =>
    rw [List.cons_append, walk, walk]
    cases t.get? l with
    | none => rfl
    | some n =>
      cases n with
      | file content => rfl
      | folder =>
        dsimp only
        split
        · exact ih _
        · split
          · rfl
          · exact ih _

theorem walk_plain (hl : t.get? l = some .folder) (hname : IsPlain name) (rest : List Text) :
    t.walk l (name :: rest) = t.walk (l ++ [name]) rest := by
  have hup : ¬ (name == ['.', '.']) = true := by simpa using hname.not_up
  rw [walk, hl]
  dsimp only
  rw [if_neg hup, if_neg (Nat.not_lt.2 hname.size_le)]

/-- From a folder one gets along plain names as long as there are folders. -/
theorem walk_names (hnames : ∀ name ∈ names, IsPlain name)
    (hfolders : ∀ front, front <+: names → front ≠ names → t.get? (l ++ front) = some .folder) :
    t.walk l names = .ok (l ++ names) := by
  induction names generalizing l with
  | nil => rw [walk, List.append_nil]
  | cons x names ih =>
    obtain ⟨hx, hnames⟩ := List.forall_mem_cons.1 hnames
    have hl := hfolders [] (List.nil_prefix) (by simp)
    rw [List.append_nil] at hl
    rw [walk_plain hl hx, ih hnames, List.append_assoc, List.singleton_append]
    intro front hfront hne
    have hmore := hfolders (x :: front) (List.cons_prefix_cons.2 ⟨rfl, hfront⟩) (by simpa using hne)
    rwa [← List.singleton_append, ← List.append_assoc] at hmore

theorem walk_missing (hl : t.get? l = some .folder) (hname : IsPlain name)
    (hnone : t.get? (l ++ [name]) = none) (hne : names ≠ []) :
    t.walk l (name :: names) = .error .missing := by
  obtain ⟨x, rest, rfl⟩ := List.exists_cons_of_ne_nil hne
  rw [walk_plain hl hname, walk, hnone]

/-- A walk is the same in a tree where all folders are still there. -/
theorem walk_of_folders (h : ∀ l, t.get? l = some .folder → made.get? l = some .folder)
    (hwalk : t.walk l names = .ok L) :
    made.walk l names = .ok L := by
  induction names generalizing l with
  | nil => exact hwalk
  | cons step names ih =>
    rw [walk] at hwalk ⊢
    cases hl : t.get? l with
    | none =>
      rw [hl] at hwalk
      exact absurd hwalk (by simp)
    | some n =>
      rw [hl] at hwalk
      cases n with
      | file content => exact absurd hwalk (by simp)
      | folder =>
        rw [h l hl]
        dsimp only at hwalk ⊢
        split
        · rename_i hup
          rw [if_pos hup] at hwalk
          exact ih hwalk
        · rename_i hup
          rw [if_neg hup] at hwalk
          split
          · rename_i hsize
            rw [if_pos hsize] at hwalk
            exact absurd hwalk (by simp)
          · rename_i hsize
            rw [if_neg hsize] at hwalk
            exact ih hwalk

/-- The first step of a walk leads up or down from a folder. -/
theorem walk_cons (h : t.walk l (name :: names) = .ok L) :
    t.get? l = some .folder ∧ (name = ['.', '.'] ∧ t.walk l.dropLast names = .ok L ∨
      IsPlain name ∧ t.walk (l ++ [name]) names = .ok L) := by
  rw [walk] at h
  cases hget : t.get? l with
  | none =>
    rw [hget] at h
    exact absurd h (by simp)
  | some n =>
    rw [hget] at h
    cases n with
    | file content => exact absurd h (by simp)
    | folder =>
      dsimp only at h
      refine ⟨rfl, ?_⟩
      split at h
      · rename_i hup
        exact .inl ⟨beq_iff_eq.1 hup, h⟩
      · rename_i hup
        split at h
        · exact absurd h (by simp)
        · rename_i hsize
          exact .inr ⟨⟨by simpa using hup, Nat.not_lt.1 hsize⟩, h⟩

/-- The last step of a walk leads up or down from a folder. -/
theorem walk_snoc (h : t.walk l (names ++ [name]) = .ok L) :
    ∃ above, t.walk l names = .ok above ∧ t.get? above = some .folder ∧
      (name = ['.', '.'] ∧ L = above.dropLast ∨ IsPlain name ∧ L = above ++ [name]) := by
  rw [walk_append] at h
  cases habove : t.walk l names with
  | error cause =>
    rw [habove] at h
    exact absurd h (by simp [Except.bind])
  | ok above =>
    rw [habove] at h
    obtain ⟨hfolder, hname⟩ := walk_cons h
    refine ⟨above, rfl, hfolder, hname.imp ?_ ?_⟩
    · exact fun hup => ⟨hup.1, (Except.ok.inj hup.2).symm⟩
    · exact fun hdown => ⟨hdown.1, (Except.ok.inj hdown.2).symm⟩

/-- On the way of a walk there are folders. -/
theorem walk_front {a b : List Text} (h : t.walk l (a ++ name :: b) = .ok L) :
    ∃ m, t.walk l a = .ok m ∧ t.get? m = some .folder := by
  rw [walk_append] at h
  cases ha : t.walk l a with
  | error cause =>
    rw [ha] at h
    exact absurd h (by simp [Except.bind])
  | ok m =>
    rw [ha] at h
    exact ⟨m, rfl, (walk_cons h).1⟩

theorem resolve_eq (hnul : ∀ step ∈ p.steps, '\x00' ∉ step) :
    t.resolve p = t.walk (t.origin p) p.steps := by
  rw [resolve, if_neg]
  rw [List.any_eq_true]
  rintro ⟨step, hmem, hcontains⟩
  exact hnul step hmem (List.contains_iff_mem.1 hcontains)

theorem resolve_ok (h : t.resolve p = .ok l) :
    (∀ step ∈ p.steps, '\x00' ∉ step) ∧ t.walk (t.origin p) p.steps = .ok l := by
  rw [resolve] at h
  split at h
  · exact absurd h (by simp)
  · rename_i hnul
    refine ⟨?_, h⟩
    intro step hmem hcontains
    exact hnul (List.any_eq_true.2 ⟨step, hmem, List.contains_iff_mem.2 hcontains⟩)

/-! ## Questions about what is there -/

theorem asks_ok_true_iff {holds : Node → Bool} :
    t.asks holds p = .ok true ↔
      ∃ l n, t.resolve p = .ok l ∧ t.get? l = some n ∧ holds n = true := by
  constructor
  · intro h
    cases hresolve : t.resolve p with
    | error cause =>
      rw [asks, status, hresolve] at h
      cases cause <;> exact absurd h (by simp [bind, Except.bind])
    | ok l =>
      rw [asks_of_resolve hresolve] at h
      obtain ⟨n, hget, hholds⟩ := (Option.any_eq_true _ _).1 (Except.ok.inj h)
      exact ⟨l, n, rfl, hget, hholds⟩
  · rintro ⟨l, n, hresolve, hget, hholds⟩
    rw [asks_of_resolve hresolve, hget, Option.any_some, hholds]

theorem isFolder_ok_true_iff :
    t.isFolder p = .ok true ↔ ∃ l, t.resolve p = .ok l ∧ t.get? l = some .folder := by
  rw [isFolder, asks_ok_true_iff]
  constructor
  · rintro ⟨l, n, hresolve, hget, hfolder⟩
    cases n with
    | folder => exact ⟨l, hresolve, hget⟩
    | file content => exact absurd hfolder (by simp [isFolderNode])
  · rintro ⟨l, hresolve, hget⟩
    exact ⟨l, .folder, hresolve, hget, rfl⟩

end RazorViews.Tree
