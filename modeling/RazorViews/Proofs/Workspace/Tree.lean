import RazorViews.Workspace.Tree

/-!
# What stands where in a tree

A tree has one entry at most for a location, so what stands there is what the entries say, in
whatever order they were made (`get?_eq_some_iff`); and an insertion changes what stands at one
location only (`get?_insert`).  At the top of a tree stands a folder, for which there is no entry.

Questions are asked of paths, and a path is first followed to a location.  Where it leads to one,
the answer is what stands there (`asks_of_resolve`, `contents_of_resolve`).
-/

namespace RazorViews.Tree

variable {t : Tree} {k l : Location} {n : Node}

/-! ## Entries -/

theorem get?_of_ne_nil (hl : l ≠ []) : t.get? l = t.entries.lookup l := by
  rw [get?, List.isEmpty_eq_false_iff.2 hl]
  rfl

theorem lookup_cons (j k : Location) (m : Node) (rest : List (Location × Node)) :
    ((j, m) :: rest).lookup k = if k = j then some m else rest.lookup k := by
  rw [List.lookup_cons]
  by_cases hk : k = j
  · rw [if_pos hk, beq_iff_eq.2 hk]
  · rw [if_neg hk, beq_eq_false_iff_ne.2 hk]

theorem lookup_eq_some_iff {entries : List (Location × Node)}
    (h : (entries.map Prod.fst).Nodup) : entries.lookup l = some n ↔ (l, n) ∈ entries := by
  induction entries with
  | nil => simp
  | cons e rest ih =>
    obtain ⟨k, m⟩ := e
    rw [List.map_cons, List.nodup_cons] at h
    rw [lookup_cons, List.mem_cons]
    by_cases hk : l = k
    · subst hk
      have hnot : (l, n) ∉ rest := fun hmem => h.1 (List.mem_map.2 ⟨_, hmem, rfl⟩)
      simp [hnot, eq_comm]
    · simp [hk, ih h.2]

/-- Below the top, what stands at a location is what the entry for it says. -/
theorem get?_eq_some_iff (hl : l ≠ []) : t.get? l = some n ↔ (l, n) ∈ t.entries := by
  rw [get?_of_ne_nil hl, lookup_eq_some_iff t.distinct]

/-! ## Insertions -/

theorem lookup_put (entries : List (Location × Node)) :
    (put l n entries).lookup k = if k = l then some n else entries.lookup k := by
  induction entries with
  | nil =>
    rw [put, lookup_cons]
  | cons e rest ih =>
    obtain ⟨j, m⟩ := e
    by_cases hj : j = l
    · subst hj
      rw [put, if_pos rfl, lookup_cons, lookup_cons]
      split
      · rfl
      · rfl
    · rw [put, if_neg hj, lookup_cons, ih, lookup_cons]
      by_cases hk : k = j
      · subst hk
        rw [if_pos rfl, if_pos rfl, if_neg hj]
      · rw [if_neg hk, if_neg hk]

/-- An insertion changes what stands at its own location only. -/
theorem get?_insert (hl : l ≠ []) :
    (t.insert l n).get? k = if k = l then some n else t.get? k := by
  by_cases hk : k = []
  · subst hk
    rw [if_neg (Ne.symm hl)]
    rfl
  · rw [get?_of_ne_nil hk, get?_of_ne_nil hk]
    exact lookup_put t.entries

/-! ## Questions -/

theorem asks_of_resolve {p : Path} (h : t.resolve p = .ok l) (holds : Node → Bool) :
    t.asks holds p = .ok ((t.get? l).any holds) := by
  cases hnode : t.get? l with
  | none =>
    have hstatus : t.status p = .error .missing := by simp [status, h, hnode, bind, Except.bind]
    rw [asks, hstatus]
    rfl
  | some n =>
    have hstatus : t.status p = .ok n := by simp [status, h, hnode, bind, Except.bind]
    rw [asks, hstatus]
    rfl

theorem contents_of_resolve {p : Path} {content : List UInt8} (h : t.resolve p = .ok l)
    (hl : t.get? l = some (.file content)) : t.contents p = .ok content := by
  have hstatus : t.status p = .ok (.file content) := by
    rw [status, h]
    simp only [bind, Except.bind, hl]
  rw [contents, hstatus]
  rfl

end RazorViews.Tree
