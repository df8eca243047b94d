import Mathlib.Data.List.Nodup
import RazorViews.Proofs.Cache.History

/-!
# In which order entries make room

A name takes up residence in a store when something is put in under it that it does not lead to
anything yet, and stays resident until it is taken away; what is put in under a resident name takes
the place of what was there.  The entries stand in the order in which their names took up residence,
a name that left and came back counting from its return (`inOrder_after`).

## What is proved

So the store is a queue of bounded length, whatever was done to it: look-ups that hit or miss,
insertions, deletions, sweeps and clearances, in any order, with any times of files and any readings
of the clock (`isQueue_after`).

* No name leads to two entries, an entry is under its own name, which is so by construction, and
  there are not too many of them.
* What is put in under a resident name takes its place, and the order stays.
* What is put in under another name comes last.  If there is room nothing else changes; if there is
  none, exactly one entry goes, and its name is the one that has been resident longest.
* A sweep keeps the entries that are not too old, in their order; a look-up and a deletion keep
  those of all other names.

When a name became resident is read off the acts of the run (`ResidentSince`), and not off the
store, so that it cannot be the order of the entries by another word.

## What it is not

The order is not that of use: a look-up moves nothing, and an entry that is looked up all the time
makes room like any other.  Nor is it that of times: the clock may run backwards.

## The proof

All operations but a successful insertion only take entries out (`perform_cases`); what an insertion
does depends on whether its name is resident and whether there is room (`insert_resident`,
`insert_full`, `insert_room`).  An act at the end of a run leaves a name resident since it was, or
since then (`residentSince_concat_iff`).
-/

namespace RazorViews.Store

variable {s t u : Store} {e : Entry} {n name path : Text} {properties : List Property}
  {modified now : Number} {fileTime : FileTime}

/-! ## Putting an entry in -/

theorem contains_eq_false_iff : s.contains n = false ↔ n ∉ s.names := by
  rw [← contains_iff, Bool.not_eq_true]

/-- The entry that an insertion puts in. -/
def newEntry (s : Store) (name path : Text) (properties : List Property)
    (modified cachedAt : Number) : Entry :=
  ⟨name, path, properties, modified, cachedAt, s.nextSerial⟩

/-- The store behind an insertion, by its entries. -/
def inserted (s : Store) (entries : List Entry) : Store :=
  { s with entries, nextSerial := s.nextSerial + 1 }

theorem replace_of_notMem {new : Entry} {entries : List Entry}
    (h : new.typeName ∉ entries.map (·.typeName)) : replace new entries = entries := by
  rw [replace]
  refine (List.map_congr_left ?_).trans (List.map_id entries)
  intro old hold
  have hne : old.typeName ≠ new.typeName := fun he => h (he ▸ List.mem_map_of_mem hold)
  rw [if_neg (by simpa using hne)]
  rfl

theorem replace_split (new : Entry) {old : Entry} {front back : List Entry}
    (hfront : new.typeName ∉ front.map (·.typeName)) (hold : old.typeName = new.typeName)
    (hback : new.typeName ∉ back.map (·.typeName)) :
    replace new (front ++ old :: back) = front ++ new :: back := by
  have hfront' := replace_of_notMem hfront
  have hback' := replace_of_notMem hback
  rw [replace] at hfront' hback' ⊢
  rw [List.map_append, List.map_cons, hfront', hback', if_pos (beq_iff_eq.2 hold)]

/-- Under a resident name the new entry takes the place of the old one. -/
theorem insert_resident (h : s.Distinct) (hname : s.contains name = true) (path : Text)
    (properties : List Property) (modified now : Number) :
    ∃ front old back, s.entries = front ++ old :: back ∧ old.typeName = name ∧
      s.insert name path properties modified now =
        (s.inserted (front ++ s.newEntry name path properties modified now :: back), []) := by
  obtain ⟨old, hold, rfl⟩ := List.mem_map.1 (contains_iff.1 hname)
  obtain ⟨front, back, hentries⟩ := List.append_of_mem hold
  refine ⟨front, old, back, hentries, rfl, ?_⟩
  rw [Distinct, hentries, List.map_append, List.map_cons, List.nodup_append] at h
  obtain ⟨-, hback, hfront⟩ := h
  have hfront' : old.typeName ∉ front.map (·.typeName) := fun hmem =>
    hfront _ hmem _ List.mem_cons_self rfl
  rw [insert, if_pos hname, hentries]
  exact congrArg (fun entries => (s.inserted entries, []))
    (replace_split (s.newEntry old.typeName path properties modified now) hfront' rfl
      (List.nodup_cons.1 hback).1)

/-- If there is no room for a new name, the first entry goes. -/
theorem insert_full (hname : s.contains name = false) (hpos : 0 < s.maxEntries)
    (hfull : s.maxEntries ≤ s.size) (path : Text) (properties : List Property)
    (modified now : Number) :
    ∃ oldest rest, s.entries = oldest :: rest ∧
      s.insert name path properties modified now =
        (s.inserted (rest ++ [s.newEntry name path properties modified now]),
          [.evicted oldest.typeName]) := by
  cases hentries : s.entries with
  | nil =>
    rw [size, hentries] at hfull
    exact absurd hpos (Nat.not_lt.2 hfull)
  | cons oldest rest =>
    refine ⟨oldest, rest, rfl, ?_⟩
    rw [insert, hname]
    simp only [Bool.false_eq_true, if_false, hentries, if_pos hfull]
    rfl

/-- If there is room for a new name, its entry goes behind the others. -/
theorem insert_room (hname : s.contains name = false) (hroom : s.size < s.maxEntries) (path : Text)
    (properties : List Property) (modified now : Number) :
    s.insert name path properties modified now =
      (s.inserted (s.entries ++ [s.newEntry name path properties modified now]), []) := by
  rw [insert, hname]
  cases hentries : s.entries with
  | nil =>
    simp only [Bool.false_eq_true, if_false]
    rfl
  | cons oldest rest =>
    simp only [Bool.false_eq_true, if_false, if_neg (Nat.not_le.2 hroom)]
    rfl

/-! ## No more entries than there is room for -/

/-- There is room for at least one entry, and there are no more entries than there is room for. -/
structure Bounded (bound : Nat) (s : Store) : Prop where
  maxEntries : s.maxEntries = bound
  pos : 0 < bound
  size_le : s.size ≤ bound

variable {bound : Nat}

theorem Bounded.shrinks (h : s.Bounded bound) (hs : s.Shrinks t) : t.Bounded bound := by
  obtain ⟨kept, hkept, rfl⟩ := hs
  exact ⟨h.maxEntries, h.pos, Nat.le_trans hkept.length_le h.size_le⟩

theorem Bounded.insert (h : s.Bounded bound) (hdistinct : s.Distinct) (name path : Text)
    (properties : List Property) (modified now : Number) :
    (s.insert name path properties modified now).1.Bounded bound := by
  have hsize := h.size_le
  cases hname : s.contains name with
  | true =>
    obtain ⟨front, old, back, hentries, -, hinsert⟩ :=
      insert_resident hdistinct hname path properties modified now
    rw [hinsert]
    refine ⟨h.maxEntries, h.pos, ?_⟩
    simpa [size, inserted, hentries] using hsize
  | false =>
    by_cases hfull : s.maxEntries ≤ s.size
    · obtain ⟨oldest, rest, hentries, hinsert⟩ :=
        insert_full hname (h.maxEntries ▸ h.pos) hfull path properties modified now
      rw [hinsert]
      refine ⟨h.maxEntries, h.pos, ?_⟩
      simpa [size, inserted, hentries] using hsize
    · rw [Nat.not_le] at hfull
      rw [insert_room hname hfull]
      refine ⟨h.maxEntries, h.pos, ?_⟩
      rw [h.maxEntries, size] at hfull
      simpa [size, inserted] using Nat.succ_le_of_lt hfull

theorem Bounded.perform (h : s.Bounded bound) (hdistinct : s.Distinct) (a : Act) :
    (s.perform a).Bounded bound := by
  rcases perform_cases s a with hs | ⟨name, path, properties, modified, now, rfl⟩
  · exact h.shrinks hs
  · exact h.insert hdistinct name path properties modified now

theorem Bounded.after (h : s.Bounded bound) (hdistinct : s.Distinct) (acts : List Act) :
    (s.after acts).Bounded bound := by
  induction acts generalizing s with
  | nil => exact h
  | cons a acts ih => exact ih (h.perform hdistinct a) (hdistinct.perform a)

/-- An act takes some names away, and brings in at most one, which comes last. -/
theorem names_perform (h : s.Bounded bound) (hdistinct : s.Distinct) (a : Act) :
    ∃ kept, kept.Sublist s.names ∧
      ((s.perform a).names = kept ∨
        ∃ name, name ∉ s.names ∧ (s.perform a).names = kept ++ [name]) := by
  rcases perform_cases s a with ⟨kept, hkept, hs⟩ | ⟨name, path, properties, modified, now, rfl⟩
  · rw [hs]
    exact ⟨_, hkept.map _, .inl rfl⟩
  · show ∃ kept, _ ∧ ((s.insert name path properties modified now).1.names = kept ∨
      ∃ name', _ ∧ (s.insert name path properties modified now).1.names = kept ++ [name'])
    cases hname : s.contains name with
    | true =>
      obtain ⟨front, old, back, hentries, rfl, hinsert⟩ :=
        insert_resident hdistinct hname path properties modified now
      refine ⟨s.names, List.Sublist.refl _, .inl ?_⟩
      rw [hinsert]
      simp [names, inserted, newEntry, hentries]
    | false =>
      have hnew := contains_eq_false_iff.1 hname
      by_cases hfull : s.maxEntries ≤ s.size
      · obtain ⟨oldest, rest, hentries, hinsert⟩ :=
          insert_full hname (h.maxEntries ▸ h.pos) hfull path properties modified now
        refine ⟨rest.map (·.typeName), ?_, .inr ⟨name, hnew, ?_⟩⟩
        · rw [names, hentries]
          exact List.sublist_cons_self _ _
        · rw [hinsert]
          simp [names, inserted, newEntry]
      · rw [insert_room hname (Nat.not_le.1 hfull)]
        refine ⟨s.names, List.Sublist.refl _, .inr ⟨name, hnew, ?_⟩⟩
        simp [names, inserted, newEntry]

/-! ## Since when a name has been resident -/

/-- Behind some acts a name is resident, and has been since the act with this number. -/
def ResidentSince (s : Store) (acts : List Act) (n : Text) (k : Nat) : Prop :=
  k < acts.length ∧ n ∉ (s.after (acts.take k)).names ∧
    ∀ j, k < j → j ≤ acts.length → n ∈ (s.after (acts.take j)).names

variable {acts : List Act} {a : Act} {k k' : Nat}

theorem ResidentSince.mem_names (h : ResidentSince s acts n k) : n ∈ (s.after acts).names := by
  have hlast := h.2.2 acts.length h.1 (Nat.le_refl _)
  rwa [List.take_length] at hlast

/-- Behind one more act a name that is resident has been so before, or has just come in. -/
theorem residentSince_concat_iff :
    ResidentSince s (acts ++ [a]) n k ↔ n ∈ (s.after (acts ++ [a])).names ∧
      (ResidentSince s acts n k ∨ k = acts.length ∧ n ∉ (s.after acts).names) := by
  have htake : ∀ j ≤ acts.length, (acts ++ [a]).take j = acts.take j := fun j hj =>
    List.take_append_of_le_length hj
  have hlength : (acts ++ [a]).length = acts.length + 1 := List.length_append
  constructor
  · intro h
    refine ⟨h.mem_names, ?_⟩
    obtain ⟨hk, hout, hin⟩ := h
    rw [hlength] at hk hin
    rw [htake k (Nat.le_of_lt_succ hk)] at hout
    rcases Nat.lt_or_eq_of_le (Nat.le_of_lt_succ hk) with hlt | rfl
    · refine .inl ⟨hlt, hout, ?_⟩
      intro j hj hle
      have := hin j hj (Nat.le_succ_of_le hle)
      rwa [htake j hle] at this
    · rw [List.take_length] at hout
      exact .inr ⟨rfl, hout⟩
  · rintro ⟨hmem, h⟩
    have hlast : ∀ j, j = acts.length + 1 → n ∈ (s.after ((acts ++ [a]).take j)).names := by
      rintro j rfl
      rwa [← hlength, List.take_length]
    rw [ResidentSince, hlength]
    rcases h with ⟨hk, hout, hin⟩ | ⟨rfl, hout⟩
    · refine ⟨Nat.lt_succ_of_lt hk, by rwa [htake k (Nat.le_of_lt hk)], ?_⟩
      intro j hj hle
      rcases Nat.lt_or_eq_of_le hle with hlt | heq
      · rw [htake j (Nat.le_of_lt_succ hlt)]
        exact hin j hj (Nat.le_of_lt_succ hlt)
      · exact hlast j heq
    · refine ⟨Nat.lt_succ_self _, by rwa [htake _ (Nat.le_refl _), List.take_length], ?_⟩
      intro j hj hle
      exact hlast j (Nat.le_antisymm hle hj)

/-- In a run from an empty store, every resident name has come in with some act. -/
theorem exists_residentSince (hempty : s.entries = []) (h : n ∈ (s.after acts).names) :
    ∃ k, ResidentSince s acts n k := by
  induction acts using List.reverseRecOn with
  | nil =>
    rw [after, List.foldl_nil, names, hempty] at h
    cases h
  | append_singleton acts a ih =>
    simp only [residentSince_concat_iff, h, true_and]
    by_cases hbefore : n ∈ (s.after acts).names
    · obtain ⟨k, hk⟩ := ih hbefore
      exact ⟨k, .inl hk⟩
    · exact ⟨acts.length, .inr ⟨rfl, hbefore⟩⟩

/-- The entries stand in the order in which their names came in. -/
theorem inOrder_after (hempty : s.entries = []) (h : s.Bounded bound) (acts : List Act) :
    (s.after acts).names.Pairwise fun m n =>
      ∀ k k', ResidentSince s acts m k → ResidentSince s acts n k' → k < k' := by
  have hdistinct : s.Distinct := by
    rw [Distinct, hempty]
    exact List.nodup_nil
  induction acts using List.reverseRecOn with
  | nil =>
    rw [after, List.foldl_nil, names, hempty]
    exact .nil
  | append_singleton acts a ih =>
    have hold : ∀ m ∈ (s.after acts).names, ∀ k, ResidentSince s (acts ++ [a]) m k →
        ResidentSince s acts m k := by
      intro m hm k hk
      rcases (residentSince_concat_iff.1 hk).2 with hk | ⟨-, hout⟩
      · exact hk
      · exact absurd hm hout
    obtain ⟨kept, hkept, hnames⟩ :=
      names_perform (h.after hdistinct acts) (hdistinct.after acts) a
    have hpairs : kept.Pairwise fun m n => ∀ k k', ResidentSince s (acts ++ [a]) m k →
        ResidentSince s (acts ++ [a]) n k' → k < k' := by
      refine (ih.sublist hkept).imp_of_mem ?_
      intro m n hm hn hlt k k' hk hk'
      exact hlt k k' (hold m (hkept.mem hm) k hk) (hold n (hkept.mem hn) k' hk')
    rw [after_concat]
    rcases hnames with hnames | ⟨name, hnew, hnames⟩
    · rw [hnames]
      exact hpairs
    · rw [hnames, List.pairwise_append]
      refine ⟨hpairs, List.pairwise_singleton _ _, ?_⟩
      intro m hm n hn k k' hk hk'
      obtain rfl := List.mem_singleton.1 hn
      have hbefore := (hold m (hkept.mem hm) k hk).1
      rcases (residentSince_concat_iff.1 hk').2 with hk' | ⟨rfl, -⟩
      · exact absurd hk'.mem_names hnew
      · exact hbefore

/-! ## What a sweep takes -/

theorem Distinct.eq_of_typeName {e' : Entry} (h : s.Distinct) (he : e ∈ s.entries)
    (he' : e' ∈ s.entries) (heq : e.typeName = e'.typeName) : e = e' :=
  List.inj_on_of_nodup_map h he he' heq

theorem entries_removeStale (h : s.Distinct) (now : Number) (name : Text) :
    (s.removeStale now name).1.entries =
      s.entries.filter fun e => !(e.typeName == name && s.isExpired now e) := by
  rw [removeStale]
  split
  · rename_i e hfind
    obtain ⟨hmem, rfl⟩ := mem_of_find? hfind
    have hsame : ∀ e' ∈ s.entries, (e'.typeName == e.typeName) = true → e' = e := by
      intro e' he' heq
      exact h.eq_of_typeName he' hmem (beq_iff_eq.1 heq)
    split
    · rename_i hold
      refine List.filter_congr ?_
      intro e' he'
      cases heq : e'.typeName == e.typeName with
      | false => simp [bne, heq]
      | true => simp [bne, hsame e' he' heq, hold]
    · rename_i hfresh
      refine (List.filter_eq_self.2 ?_).symm
      intro e' he'
      cases heq : e'.typeName == e.typeName with
      | false => rfl
      | true => simpa [hsame e' he' heq] using hfresh
  · rename_i hfind
    refine (List.filter_eq_self.2 ?_).symm
    intro e' he'
    have hne := List.find?_eq_none.1 hfind e' he'
    rw [Bool.not_eq_true] at hne
    rw [hne]
    rfl

theorem entries_removeAllStale (h : s.Distinct) (now : Number) (names : List Text) :
    (s.removeAllStale now names).1.entries =
      s.entries.filter fun e => !(names.contains e.typeName && s.isExpired now e) := by
  induction names generalizing s with
  | nil => exact (List.filter_eq_self.2 fun _ _ => rfl).symm
  | cons name rest ih =>
    show ((s.removeStale now name).1.removeAllStale now rest).1.entries = _
    rw [ih (h.shrinks (shrinks_removeStale s now name)), isExpired_removeStale,
      entries_removeStale h, List.filter_filter]
    refine List.filter_congr ?_
    intro e _
    rw [List.contains_cons]
    cases rest.contains e.typeName <;> cases e.typeName == name <;>
      cases s.isExpired now e <;> rfl

/-- A sweep takes exactly the entries that are too old, and leaves the others in their order. -/
theorem entries_sweep (h : s.Distinct) (now : Number) :
    (s.sweep now).1.entries = s.entries.filter fun e => !s.isExpired now e := by
  show (s.removeAllStale now (s.staleNames now)).1.entries = _
  rw [entries_removeAllStale h]
  refine List.filter_congr ?_
  intro e he
  cases hold : s.isExpired now e with
  | false => rw [Bool.and_false]
  | true =>
    have hmem : e.typeName ∈ s.staleNames now :=
      List.mem_map_of_mem (List.mem_filter.2 ⟨he, hold⟩)
    rw [List.contains_iff_mem.2 hmem]
    rfl

/-! ## A queue of bounded length -/

/-- The entries under all names but one. -/
def others (s : Store) (name : Text) : List Entry := s.entries.filter fun e => e.typeName != name

theorem others_remove (s : Store) (name : Text) : (s.remove name).others name = s.others name := by
  rw [others, remove, List.filter_filter, others]
  simp only [Bool.and_self]

theorem others_get (s : Store) (name path : Text) (fileTime : FileTime) (now : Number) :
    (s.get name path fileTime now).1.others name = s.others name := by
  rw [get]
  split
  · rfl
  · rename_i e hfind
    obtain ⟨-, rfl⟩ := mem_of_find? hfind
    split
    · rw [discard]
      split
      · split
        · exact others_remove s e.typeName
        · rfl
      · rfl
    · rfl

/-- The store is a queue of at most so many entries, in the order in which their names have become
resident.  A name that is put in again keeps its place, a new one comes last and makes the first one
go if there is no room for both, and nothing else changes the order. -/
structure IsQueue (bound : Nat) (lifetime : Number) (since : Text → Nat → Prop) (s : Store) :
    Prop where
  distinct : s.names.Nodup
  /-- This holds by construction, since an entry is looked up by the name that it carries itself. -/
  own : ∀ n e, s.find? n = some e → e.typeName = n
  size_le : s.size ≤ bound
  set_resident : ∀ name path properties modified now, s.contains name = true →
    ∃ front old back, s.entries = front ++ old :: back ∧ old.typeName = name ∧
      s.set name path properties (.ok modified) now =
        (s.inserted (front ++ s.newEntry name path properties modified now :: back), [])
  /-- All other names have become resident later than the one that makes room. -/
  set_full : ∀ name path properties modified now, s.contains name = false → s.size = bound →
    ∃ oldest rest k, s.entries = oldest :: rest ∧
      s.set name path properties (.ok modified) now =
        (s.inserted (rest ++ [s.newEntry name path properties modified now]),
          [.evicted oldest.typeName]) ∧
      since oldest.typeName k ∧ ∀ n k', since n k' → n ≠ oldest.typeName → k < k'
  set_room : ∀ name path properties modified now, s.contains name = false → s.size < bound →
    s.set name path properties (.ok modified) now =
      (s.inserted (s.entries ++ [s.newEntry name path properties modified now]), [])
  sweep : ∀ now, (s.sweep now).1.entries =
    s.entries.filter fun e => !lifetime.lt (now.sub e.cachedAt)
  get : ∀ name path fileTime now, (s.get name path fileTime now).1.others name = s.others name
  delete : ∀ name, (s.delete name).1.others name = s.others name
  set_failed : ∀ name path properties error now,
    (s.set name path properties (.error error) now).1.others name = s.others name

theorem make?_bounded {maxEntries : Int} {lifetime : Number}
    (h : make? maxEntries lifetime = .ok s) : s.Bounded maxEntries.toNat := by
  rw [make?] at h
  split at h
  · cases h
  · rename_i hpos
    split at h
    · cases h
    · cases h
      exact ⟨rfl, by omega, Nat.zero_le _⟩

/-- **A store is a bounded queue.**  Every run from an empty store leaves one, and of the names in
it the one makes room that has been resident since the earliest act. -/
theorem isQueue_after {maxEntries : Int} {lifetime : Number}
    (hs : make? maxEntries lifetime = .ok s) (acts : List Act) :
    (s.after acts).IsQueue maxEntries.toNat lifetime (ResidentSince s acts) := by
  obtain ⟨hempty, hlifetime⟩ := make?_eq_ok hs
  have hdistinct : s.Distinct := by
    rw [Distinct, hempty]
    exact List.nodup_nil
  have hbounded := (make?_bounded hs).after hdistinct acts
  have horder := inOrder_after hempty (make?_bounded hs) acts
  refine ⟨hdistinct.after acts, fun _ _ hfind => (mem_of_find? hfind).2, hbounded.size_le,
    ?_, ?_, ?_, ?_, others_get _, others_remove _, ?_⟩
  · intro name path properties modified now hname
    exact insert_resident (hdistinct.after acts) hname path properties modified now
  · intro name path properties modified now hname hsize
    have hfull : (s.after acts).maxEntries ≤ (s.after acts).size :=
      Nat.le_of_eq (hbounded.maxEntries.trans hsize.symm)
    obtain ⟨oldest, rest, hentries, hinsert⟩ :=
      insert_full hname (hbounded.maxEntries ▸ hbounded.pos) hfull path properties modified now
    rw [names, hentries, List.map_cons, List.pairwise_cons] at horder
    have hnames : (s.after acts).names = oldest.typeName :: rest.map (·.typeName) := by
      rw [names, hentries, List.map_cons]
    obtain ⟨k, hk⟩ : ∃ k, ResidentSince s acts oldest.typeName k :=
      exists_residentSince hempty (hnames ▸ List.mem_cons_self)
    refine ⟨oldest, rest, k, hentries, hinsert, hk, ?_⟩
    intro n k' hk' hn
    have hmem := hk'.mem_names
    rw [hnames] at hmem
    exact horder.1 n ((List.mem_cons.1 hmem).resolve_left hn) k k' hk hk'
  · intro name path properties modified now hname hsize
    exact insert_room hname (hbounded.maxEntries ▸ hsize) path properties modified now
  · intro now
    rw [entries_sweep (hdistinct.after acts)]
    simp only [isExpired, lifetime_after, hlifetime]
  · intro name path properties error now
    exact others_remove _ name

/-- The first type is dropped and put in again, so the second one has been resident longer. -/
def returning : List Act :=
  [.set ['A'] "a.cs".toList [] (.ok (.whole 1)) (.whole 0),
   .set ['B'] "b.cs".toList [] (.ok (.whole 1)) (.whole 1),
   .get ['A'] "a.cs".toList (.ok (.whole 2)) (.whole 2),
   .set ['A'] "a.cs".toList [] (.ok (.whole 2)) (.whole 3)]

theorem isQueue_after_returning :
    make? 2 (.whole 10) = .ok pair ∧ (pair.after returning).contains ['C'] = false ∧
      (pair.after returning).size = 2 ∧
      ((pair.after returning).set ['C'] "c.cs".toList [] (.ok (.whole 1)) (.whole 4)).2 =
        [.evicted ['B']] ∧
      ∃ k, ResidentSince pair returning ['B'] k ∧
        ∀ n k', ResidentSince pair returning n k' → n ≠ ['B'] → k < k' := by
  have hpair : make? 2 (.whole 10) = .ok pair := rfl
  have hnew : (pair.after returning).contains ['C'] = false := rfl
  have hsize : (pair.after returning).size = 2 := rfl
  obtain ⟨oldest, rest, k, hentries, hset, hk, hfirst⟩ := (isQueue_after hpair returning).set_full
    ['C'] "c.cs".toList [] (.whole 1) (.whole 4) hnew hsize
  have hevicted : ((pair.after returning).set ['C'] "c.cs".toList [] (.ok (.whole 1))
      (.whole 4)).2 = [.evicted ['B']] := rfl
  rw [hset] at hevicted
  have holdest : oldest.typeName = ['B'] := by simpa using hevicted
  rw [holdest] at hk hfirst hset
  exact ⟨hpair, hnew, hsize, by rw [hset], k, hk, hfirst⟩

end RazorViews.Store
