import RazorViews.Cache.Store

/-!
# The entries of a store

What each operation does to the entries of a store, as far as all that follows needs to know it.

* All operations but an insertion only take entries out (`Shrinks`), and leave the lifetime as it
  was.
* An insertion brings in one entry, which carries what was handed in (`mem_insert`, `mem_set`), and
  which is found under its name, however full the store was (`find?_insert`).
* A look-up serves an entry, and then leaves the store alone, or brings in none (`get_cases`).

An entry is served under its name alone (`served?_eq_some_iff`): of the file that is asked for only
its time counts, and that of the entry may be another file.  What follows from this is said in
`transparent_iff`.

Which entries an operation takes out, and in which order the others stand, is said for each where it
matters: by the history of a name (`get_answers_iff`) or of the whole store (`isQueue_after`).
-/

namespace RazorViews.Store

variable {s t u : Store} {e : Entry} {name path : Text} {fileTime : FileTime} {now : Number}

theorem mem_of_find? (h : s.find? name = some e) : e ∈ s.entries ∧ e.typeName = name := by
  have hname := List.find?_some h
  exact ⟨List.mem_of_find?_eq_some h, eq_of_beq hname⟩

/-! ## Taking entries out -/

/-- The second store is the first one with some entries taken out. -/
def Shrinks (s t : Store) : Prop :=
  ∃ kept, kept.Sublist s.entries ∧ t = { s with entries := kept }

theorem Shrinks.refl (s : Store) : s.Shrinks s := ⟨s.entries, List.Sublist.refl _, rfl⟩

theorem Shrinks.trans (h : s.Shrinks t) (h' : t.Shrinks u) : s.Shrinks u := by
  obtain ⟨kept, hkept, rfl⟩ := h
  obtain ⟨left, hleft, rfl⟩ := h'
  exact ⟨left, hleft.trans hkept, rfl⟩

theorem Shrinks.subset (h : s.Shrinks t) : t.entries ⊆ s.entries := by
  obtain ⟨kept, hkept, rfl⟩ := h
  exact hkept.subset

theorem Shrinks.lifetime (h : s.Shrinks t) : t.lifetime = s.lifetime := by
  obtain ⟨kept, -, rfl⟩ := h
  rfl

theorem shrinks_remove (s : Store) (name : Text) : s.Shrinks (s.remove name) :=
  ⟨_, List.filter_sublist, rfl⟩

theorem shrinks_discard (s : Store) (e : Entry) : s.Shrinks (s.discard e) := by
  rw [discard]
  split
  · split
    · exact shrinks_remove s e.typeName
    · exact .refl s
  · exact .refl s

theorem shrinks_removeStale (s : Store) (now : Number) (name : Text) :
    s.Shrinks (s.removeStale now name).1 := by
  rw [removeStale]
  split
  · split
    · exact shrinks_remove s name
    · exact .refl s
  · exact .refl s

theorem shrinks_removeAllStale (s : Store) (now : Number) (names : List Text) :
    s.Shrinks (s.removeAllStale now names).1 := by
  induction names generalizing s with
  | nil => exact .refl s
  | cons name rest ih => exact (shrinks_removeStale s now name).trans (ih _)

theorem shrinks_sweep (s : Store) (now : Number) : s.Shrinks (s.sweep now).1 :=
  shrinks_removeAllStale s now (s.staleNames now)

theorem shrinks_get (s : Store) (name path : Text) (fileTime : FileTime) (now : Number) :
    s.Shrinks (s.get name path fileTime now).1 := by
  rw [get]
  split
  · exact .refl s
  · split
    · exact shrinks_discard s _
    · exact .refl s

theorem shrinks_clear (s : Store) : s.Shrinks s.clear := ⟨[], List.nil_sublist _, rfl⟩

/-! ## Insertions -/

theorem mem_replace {new : Entry} {entries : List Entry} (h : e ∈ replace new entries) :
    e ∈ entries ∨ e = new := by
  obtain ⟨old, hold, rfl⟩ := List.mem_map.1 h
  split
  · exact .inr rfl
  · exact .inl hold

/-- Of the entries behind an insertion at most one was not there before. -/
theorem mem_insert {properties : List Property} {modified : Number}
    (h : e ∈ (s.insert name path properties modified now).1.entries) :
    e ∈ s.entries ∨ e = ⟨name, path, properties, modified, now, s.nextSerial⟩ := by
  rw [insert] at h
  split at h
  · exact mem_replace h
  · split at h
    · rename_i oldest rest hentries
      split at h
      · rcases List.mem_append.1 h with h | h
        · exact .inl (hentries ▸ List.mem_cons_of_mem oldest h)
        · exact .inr (List.mem_singleton.1 h)
      · rcases List.mem_append.1 h with h | h
        · exact .inl h
        · exact .inr (List.mem_singleton.1 h)
    · exact .inr (List.mem_singleton.1 h)

theorem find?_replace (new : Entry) {entries : List Entry}
    (h : (entries.find? fun e => e.typeName == new.typeName).isSome = true) :
    (replace new entries).find? (fun e => e.typeName == new.typeName) = some new := by
  induction entries with
  | nil => exact absurd h (by simp)
  | cons old rest ih =>
    rw [replace, List.map_cons]
    by_cases hname : (old.typeName == new.typeName) = true
    · rw [if_pos hname]
      simp only [List.find?_cons, beq_self_eq_true]
    · rw [if_neg hname]
      rw [Bool.not_eq_true] at hname
      simp only [List.find?_cons, hname] at h ⊢
      exact ih h

theorem find?_append_new (new : Entry) {entries : List Entry}
    (h : (entries.find? fun e => e.typeName == new.typeName) = none) :
    (entries ++ [new]).find? (fun e => e.typeName == new.typeName) = some new := by
  simp only [List.find?_append, h, List.find?_cons, beq_self_eq_true, Option.none_or]

/-- What has been put in is found under its name, however full the store was. -/
theorem find?_insert (s : Store) (name path : Text) (properties : List Property)
    (modified now : Number) :
    (s.insert name path properties modified now).1.find? name =
      some ⟨name, path, properties, modified, now, s.nextSerial⟩ := by
  let new : Entry := ⟨name, path, properties, modified, now, s.nextSerial⟩
  rw [insert]
  split
  · rename_i hcontains
    exact find?_replace new hcontains
  · rename_i hcontains
    have hnone : s.entries.find? (fun e => e.typeName == name) = none := by
      simpa [contains, find?] using hcontains
    split
    · rename_i oldest rest hentries
      rw [hentries] at hnone
      split
      · refine find?_append_new new ?_
        rw [List.find?_cons] at hnone
        split at hnone
        · exact absurd hnone (by simp)
        · exact hnone
      · rw [← hentries] at hnone
        exact find?_append_new new hnone
    · exact find?_append_new new (rfl : [].find? _ = none)

theorem mem_set {properties : List Property}
    (h : e ∈ (s.set name path properties fileTime now).1.entries) :
    e ∈ s.entries ∨ ∃ modified, fileTime = .ok modified ∧
      e = ⟨name, path, properties, modified, now, s.nextSerial⟩ := by
  cases fileTime with
  | error => exact .inl ((shrinks_remove s name).subset h)
  | ok modified => exact (mem_insert h).imp_right fun h => ⟨modified, rfl, h⟩

theorem lifetime_insert (s : Store) (name path : Text) (properties : List Property)
    (modified now : Number) :
    (s.insert name path properties modified now).1.lifetime = s.lifetime := by
  rw [insert]
  split
  · rfl
  · split
    · split <;> rfl
    · rfl

theorem lifetime_set (s : Store) (name path : Text) (properties : List Property)
    (fileTime : FileTime) (now : Number) :
    (s.set name path properties fileTime now).1.lifetime = s.lifetime := by
  cases fileTime with
  | error => rfl
  | ok modified => exact lifetime_insert s name path properties modified now

/-! ## Serving -/

/-- The entry that a look-up serves. -/
def served? (s : Store) (name path : Text) (fileTime : FileTime) (now : Number) : Option Entry :=
  (s.find? name).filter fun e => (s.dropReason? e path fileTime now).isNone

theorem dropReason?_eq_none_iff : s.dropReason? e path fileTime now = none ↔
    ∃ modified, fileTime = .ok modified ∧ e.modified.lt modified = false ∧
      s.isExpired now e = false := by
  cases fileTime with
  | error => simp [dropReason?]
  | ok modified =>
    cases hlater : e.modified.lt modified <;> cases hold : s.isExpired now e <;>
      simp [dropReason?, hlater, hold]

/-- What is served is found under its name, is no older than the file that is asked for, and has not
outlived its time. -/
theorem served?_eq_some_iff : s.served? name path fileTime now = some e ↔
    s.find? name = some e ∧ ∃ modified, fileTime = .ok modified ∧ e.modified.lt modified = false ∧
      s.isExpired now e = false := by
  rw [served?, Option.filter_eq_some_iff, Option.isNone_iff_eq_none, dropReason?_eq_none_iff]

/-- A look-up leaves a store alone if it serves an entry, and brings in none otherwise. -/
theorem get_cases (s : Store) (name path : Text) (fileTime : FileTime) (now : Number) :
    (∃ e, s.served? name path fileTime now = some e ∧
      s.get name path fileTime now = (s, [], some e.properties)) ∨
    s.served? name path fileTime now = none ∧ ∃ kept events,
      s.get name path fileTime now = (kept, events, none) ∧ kept.entries ⊆ s.entries ∧
        kept.lifetime = s.lifetime := by
  cases hfind : s.find? name with
  | none =>
    exact .inr ⟨by rw [served?, hfind]; rfl, s, [], by rw [get, hfind], List.Subset.refl _, rfl⟩
  | some e =>
    cases hdrop : s.dropReason? e path fileTime now with
    | none =>
      refine .inl ⟨e, ?_, by simp only [get, hfind, hdrop]⟩
      simp [served?, hfind, hdrop]
    | some event =>
      have hshrinks := shrinks_discard s e
      refine .inr ⟨?_, s.discard e, [event], by simp only [get, hfind, hdrop], hshrinks.subset,
        hshrinks.lifetime⟩
      simp [served?, hfind, hdrop]

end RazorViews.Store
