import Mathlib.Data.List.Induction
import RazorViews.Proofs.Cache.Entries

/-!
# The history of a store

## What is proved

Whether a look-up is answered is decided by what has happened to the store before, and `Stands` says
how without speaking of entries: the last time that something was put in under the name it was kept,
and since then the name has not been deleted, cleared, evicted, swept or missed.  A look-up answers
exactly with what stands, if the file is not newer and the time not up (`get_answers_iff`).  So an
answer is never made up, and nothing that may be served is withheld.  A look-up that answers leaves
the store alone; behind one that does not, nothing is found under the name.

## What the runs are

A store begins empty, for any number of entries and any lifetime that the constructor allows.  An
act is any operation with any arguments: what a file answers when it is asked for its time and what
the clock reads are part of the act, so files may vanish and come back, and the clock may run in any
way, backwards included.  Acts are whole; their steps are taken apart in `no_fresh_entry_lost`.

Which name is evicted by an insertion is not a matter of this module, but one of order: it is the
name that has been in the store longest (`isQueue_after`).

## The proof

One lemma for each operation says what the names lead to behind it (`find?_remove` to
`find?_sweep`); from these a run is followed act by act (`find?_perform_of_sets`,
`find?_perform_of_not_sets`).
-/

namespace RazorViews.Store

variable {s t : Store} {e : Entry} {n name path : Text} {fileTime : FileTime} {now : Number}

/-! ## What a name leads to behind an operation -/

theorem find?_remove (s : Store) (name n : Text) :
    (s.remove name).find? n = if n = name then none else s.find? n := by
  show (s.entries.filter _).find? _ = _
  rw [List.find?_filter]
  by_cases hn : n = name
  · subst hn
    rw [if_pos rfl]
    refine List.find?_eq_none.2 ?_
    intro e _
    simp
  · rw [if_neg hn, find?]
    congr 1
    funext e
    by_cases he : e.typeName = n
    · simp [he, hn]
    · simp [he]

theorem find?_discard (h : s.find? name = some e) (n : Text) :
    (s.discard e).find? n = if n = name then none else s.find? n := by
  obtain ⟨-, rfl⟩ := mem_of_find? h
  rw [discard, h]
  simp only [beq_self_eq_true, if_true]
  exact find?_remove s e.typeName n

/-- A removal lets no name lead to anything else. -/
theorem find?_of_discard {dropped : Entry} (h : (s.discard dropped).find? n = some e) :
    s.find? n = some e := by
  rw [discard] at h
  split at h
  · split at h
    · rw [find?_remove] at h
      split at h
      · cases h
      · exact h
    · exact h
  · exact h

theorem find?_get (s : Store) (name path : Text) (fileTime : FileTime) (now : Number) (n : Text) :
    (s.get name path fileTime now).1.find? n =
      if n = name ∧ (s.get name path fileTime now).2.2 = none then none else s.find? n := by
  rw [get]
  cases hfind : s.find? name with
  | none =>
    by_cases hn : n = name
    · simp [hn, hfind]
    · simp [hn]
  | some e =>
    cases hdrop : s.dropReason? e path fileTime now with
    | none => simp [hdrop]
    | some event => simp [hdrop, find?_discard hfind]

/-- A sweep of some names takes those entries that are too old when their turn comes. -/
theorem find?_removeStale (s : Store) (now : Number) (name n : Text) :
    (s.removeStale now name).1.find? n =
      if n = name then (s.find? n).filter fun e => !s.isExpired now e else s.find? n := by
  rw [removeStale]
  cases hfind : s.find? name with
  | none =>
    by_cases hn : n = name
    · simp [hn, hfind]
    · simp [hn]
  | some e =>
    by_cases hn : n = name
    · subst hn
      cases hold : s.isExpired now e with
      | true => simp [find?_remove, hfind, hold, Option.filter]
      | false => simp [hfind, hold, Option.filter]
    · cases hold : s.isExpired now e <;> simp [find?_remove, hold, hn]

theorem isExpired_removeStale (s : Store) (now : Number) (name : Text) :
    (s.removeStale now name).1.isExpired = s.isExpired := by
  funext now' e
  rw [isExpired, isExpired, (shrinks_removeStale s now name).lifetime]

theorem find?_removeAllStale (s : Store) (now : Number) (names : List Text) (n : Text) :
    (s.removeAllStale now names).1.find? n =
      if n ∈ names then (s.find? n).filter fun e => !s.isExpired now e else s.find? n := by
  induction names generalizing s with
  | nil => rfl
  | cons name rest ih =>
    show ((s.removeStale now name).1.removeAllStale now rest).1.find? n = _
    rw [ih, find?_removeStale, isExpired_removeStale]
    by_cases hn : n = name
    · by_cases hrest : n ∈ rest
      · simp [hn]
      · simp [hn]
    · simp [hn]

theorem find?_sweep (s : Store) (now : Number) (n : Text) :
    (s.sweep now).1.find? n = (s.find? n).filter fun e => !s.isExpired now e := by
  show (s.removeAllStale now (s.staleNames now)).1.find? n = _
  rw [find?_removeAllStale]
  split
  · rfl
  · rename_i hn
    cases hfind : s.find? n with
    | none => rfl
    | some e =>
      obtain ⟨hmem, rfl⟩ := mem_of_find? hfind
      cases hold : s.isExpired now e with
      | true => exact absurd (List.mem_map.2 ⟨e, List.mem_filter.2 ⟨hmem, hold⟩, rfl⟩) hn
      | false => simp [hold, Option.filter]

/-! ## One entry for each name -/

/-- The names that lead to something, the one that has done so longest first. -/
def names (s : Store) : List Text := s.entries.map (·.typeName)

theorem contains_iff : s.contains n = true ↔ n ∈ s.names := by
  rw [contains, find?, List.find?_isSome, names, List.mem_map]
  simp only [beq_iff_eq]

/-- No two entries have the same name. -/
def Distinct (s : Store) : Prop := (s.entries.map (·.typeName)).Nodup

theorem Distinct.shrinks (h : s.Distinct) (hs : s.Shrinks t) : t.Distinct := by
  obtain ⟨kept, hkept, rfl⟩ := hs
  exact h.sublist (hkept.map _)

theorem typeName_replace (new : Entry) (entries : List Entry) :
    (replace new entries).map (·.typeName) = entries.map (·.typeName) := by
  rw [replace, List.map_map]
  apply List.map_congr_left
  intro old _
  by_cases hname : old.typeName = new.typeName
  · simp [hname]
  · simp [hname]

theorem nodup_append_new {entries : List Entry} (new : Entry)
    (h : (entries.map (·.typeName)).Nodup) (hnew : new.typeName ∉ entries.map (·.typeName)) :
    ((entries ++ [new]).map (·.typeName)).Nodup := by
  rw [List.map_append, List.map_singleton, List.nodup_append]
  refine ⟨h, by simp, ?_⟩
  intro a ha b hb hab
  obtain rfl := List.mem_singleton.1 hb
  exact hnew (hab ▸ ha)

theorem Distinct.insert (h : s.Distinct) (name path : Text) (properties : List Property)
    (modified now : Number) : (s.insert name path properties modified now).1.Distinct := by
  rw [Store.insert]
  split
  · rw [Distinct, typeName_replace]
    exact h
  · rename_i hnew
    have hnew : name ∉ s.entries.map (·.typeName) := fun hmem => hnew (contains_iff.2 hmem)
    split
    · rename_i oldest rest hentries
      split
      · rw [Distinct, hentries] at h
        rw [hentries] at hnew
        exact nodup_append_new _ (List.nodup_cons.1 h).2 fun hmem =>
          hnew (List.mem_cons_of_mem _ hmem)
      · exact nodup_append_new _ h hnew
    · show [name].Nodup
      simp

/-! ## What an insertion leaves under the other names -/

theorem find?_replace_of_ne (new : Entry) (entries : List Entry) (hn : n ≠ new.typeName) :
    (replace new entries).find? (fun e => e.typeName == n) =
      entries.find? fun e => e.typeName == n := by
  induction entries with
  | nil => rfl
  | cons old rest ih =>
    rw [replace] at ih
    rw [replace, List.map_cons, List.find?_cons, List.find?_cons, ih]
    by_cases hold : old.typeName = new.typeName
    · have hne : (new.typeName == n) = false := beq_false_of_ne (Ne.symm hn)
      simp [hold, hne]
    · simp [hold]

theorem find?_append_of_ne (new : Entry) (entries : List Entry) (hn : n ≠ new.typeName) :
    (entries ++ [new]).find? (fun e => e.typeName == n) =
      entries.find? fun e => e.typeName == n := by
  have hne : (new.typeName == n) = false := beq_false_of_ne (Ne.symm hn)
  simp [List.find?_append, hne]

/-- Another name leads to what it led to before, unless the insertion reports that it made room
there. -/
theorem find?_insert_of_ne (h : s.Distinct) (hn : n ≠ name) (path : Text)
    (properties : List Property) (modified now : Number) :
    (s.insert name path properties modified now).1.find? n =
      if .evicted n ∈ (s.insert name path properties modified now).2 then none
      else s.find? n := by
  let new : Entry := ⟨name, path, properties, modified, now, s.nextSerial⟩
  rw [insert]
  split
  · rw [if_neg List.not_mem_nil]
    exact find?_replace_of_ne new s.entries hn
  · split
    · rename_i oldest rest hentries
      split
      · show (rest ++ [new]).find? _ = _
        rw [find?_append_of_ne new rest hn, find?, hentries, List.find?_cons]
        by_cases holdest : n = oldest.typeName
        · -- the names are distinct, so nothing else is left under this one
          rw [Distinct, hentries, List.map_cons, List.nodup_cons] at h
          rw [if_pos (holdest ▸ List.mem_singleton_self _)]
          refine List.find?_eq_none.2 ?_
          intro e he hname
          exact h.1 (List.mem_map.2 ⟨e, he, (eq_of_beq hname).trans holdest⟩)
        · have hne : (oldest.typeName == n) = false := beq_false_of_ne (Ne.symm holdest)
          simp [holdest, hne]
      · rw [if_neg List.not_mem_nil]
        exact find?_append_of_ne new s.entries hn
    · rename_i hentries
      rw [if_neg List.not_mem_nil, find?, find?, hentries]
      exact find?_append_of_ne new [] hn

/-! ## Runs -/

/-- What a client does to a store, with what the file system and the clock answer to it. -/
inductive Act where
  | get (name path : Text) (fileTime : FileTime) (now : Number)
  | set (name path : Text) (properties : List Property) (fileTime : FileTime) (now : Number)
  | delete (name : Text)
  | clear
  | sweep (now : Number)

/-- The store that an act leaves. -/
def perform (s : Store) : Act → Store
  | .get name path fileTime now => (s.get name path fileTime now).1
  | .set name path properties fileTime now => (s.set name path properties fileTime now).1
  | .delete name => (s.delete name).1
  | .clear => s.clear
  | .sweep now => (s.sweep now).1

/-- The store after some acts. -/
def after (s : Store) (acts : List Act) : Store := acts.foldl perform s

theorem after_concat (s : Store) (acts : List Act) (a : Act) :
    s.after (acts ++ [a]) = (s.after acts).perform a := by
  simp [after]

/-- An act takes entries out, or puts one in. -/
theorem perform_cases (s : Store) (a : Act) :
    s.Shrinks (s.perform a) ∨
      ∃ name path properties modified now, a = .set name path properties (.ok modified) now := by
  cases a with
  | get name path fileTime now => exact .inl (shrinks_get s name path fileTime now)
  | set name path properties fileTime now =>
    cases fileTime with
    | error error => exact .inl (shrinks_remove s name)
    | ok modified => exact .inr ⟨name, path, properties, modified, now, rfl⟩
  | delete name => exact .inl (shrinks_remove s name)
  | clear => exact .inl (shrinks_clear s)
  | sweep now => exact .inl (shrinks_removeAllStale s now (s.staleNames now))

theorem Distinct.perform (h : s.Distinct) (a : Act) : (s.perform a).Distinct := by
  rcases perform_cases s a with hs | ⟨name, path, properties, modified, now, rfl⟩
  · exact h.shrinks hs
  · exact h.insert name path properties modified now

theorem Distinct.after (h : s.Distinct) (acts : List Act) : (s.after acts).Distinct := by
  induction acts generalizing s with
  | nil => exact h
  | cons a acts ih => exact ih (h.perform a)

theorem lifetime_perform (s : Store) (a : Act) : (s.perform a).lifetime = s.lifetime := by
  rcases perform_cases s a with hs | ⟨name, path, properties, modified, now, rfl⟩
  · exact hs.lifetime
  · exact lifetime_insert s name path properties modified now

theorem lifetime_after (s : Store) (acts : List Act) : (s.after acts).lifetime = s.lifetime := by
  induction acts generalizing s with
  | nil => rfl
  | cons a acts ih => exact (ih _).trans (lifetime_perform s a)

/-! ## What stands -/

/-- What has been put in, with the time of its file and the reading of the clock. -/
structure Deposit where
  path : Text
  properties : List Property
  modified : Number
  cachedAt : Number

/-- The act that puts something in under a name. -/
def Deposit.act (d : Deposit) (name : Text) : Act :=
  .set name d.path d.properties (.ok d.modified) d.cachedAt

def Deposit.ofEntry (e : Entry) : Deposit := ⟨e.path, e.properties, e.modified, e.cachedAt⟩

/-- The act puts something in under a name, or fails to. -/
def Act.Sets (name : Text) : Act → Prop
  | .set n .. => n = name
  | _ => False

/-- The act takes away what has been put in under a name at a reading of the clock: a look-up that
misses, another insertion that reports to have evicted it, a sweep that finds it too old, a deletion
or a clearance. -/
def Act.Takes (s : Store) (name : Text) (since : Number) : Act → Prop
  | .get n path fileTime now => n = name ∧ (s.get n path fileTime now).2.2 = none
  | .set n path properties fileTime now =>
    .evicted name ∈ (s.set n path properties fileTime now).2
  | .delete n => n = name
  | .clear => True
  | .sweep now => s.lifetime.lt (now.sub since) = true

/-- The last time that something was put in under the name it was this, and nothing has taken it
away since. -/
def Stands (s : Store) (acts : List Act) (name : Text) (d : Deposit) : Prop :=
  ∃ earlier later, acts = earlier ++ d.act name :: later ∧
    ∀ between a rest, later = between ++ a :: rest →
      ¬ a.Sets name ∧ ¬ a.Takes (s.after (earlier ++ d.act name :: between)) name d.cachedAt

/-- What stands after one more act has just been put in, or has stood before and is left alone. -/
theorem stands_concat_iff {acts : List Act} {a : Act} {d : Deposit} :
    Stands s (acts ++ [a]) name d ↔
      a = d.act name ∨
        ¬ a.Sets name ∧ ¬ a.Takes (s.after acts) name d.cachedAt ∧ Stands s acts name d := by
  constructor
  · rintro ⟨earlier, later, hacts, hlater⟩
    rcases List.eq_nil_or_concat later with hnil | ⟨later', a', hconcat⟩
    · subst hnil
      exact .inl (List.singleton_inj.1 (List.append_inj' hacts rfl).2)
    · rw [List.concat_eq_append] at hconcat
      subst hconcat
      rw [← List.cons_append, ← List.append_assoc] at hacts
      obtain ⟨rfl, hlast⟩ := List.append_inj' hacts rfl
      obtain rfl := List.singleton_inj.1 hlast
      obtain ⟨hsets, htakes⟩ := hlater later' a [] rfl
      refine .inr ⟨hsets, htakes, earlier, later', rfl, ?_⟩
      intro between b rest hrest
      exact hlater between b (rest ++ [a]) (by rw [hrest, List.append_assoc]; rfl)
  · rintro (rfl | ⟨hsets, htakes, earlier, later, rfl, hlater⟩)
    · refine ⟨acts, [], rfl, ?_⟩
      intro between a rest h
      exact absurd h (by simp)
    · refine ⟨earlier, later ++ [a], by simp, ?_⟩
      intro between b rest h
      rcases List.eq_nil_or_concat rest with hnil | ⟨rest', b', hconcat⟩
      · subst hnil
        obtain ⟨rfl, hlast⟩ := List.append_inj' h rfl
        obtain rfl := List.singleton_inj.1 hlast
        exact ⟨hsets, htakes⟩
      · rw [List.concat_eq_append] at hconcat
        subst hconcat
        rw [← List.cons_append, ← List.append_assoc] at h
        exact hlater between b rest' (List.append_inj' h rfl).1

/-- Behind an act that puts something in under a name, the name leads to just that. -/
theorem find?_perform_of_sets {a : Act} (ha : a.Sets name) (d : Deposit) :
    ((s.perform a).find? name).map Deposit.ofEntry = some d ↔ a = d.act name := by
  cases a with
  | set n path properties fileTime now =>
    obtain rfl : n = name := ha
    cases fileTime with
    | error error =>
      show ((s.remove n).find? n).map _ = _ ↔ _
      rw [find?_remove, if_pos rfl]
      simp [Deposit.act]
    | ok modified =>
      show ((s.insert n path properties modified now).1.find? n).map _ = _ ↔ _
      rw [find?_insert, Option.map_some, Option.some.injEq]
      constructor
      · rintro rfl
        rfl
      · intro h
        obtain ⟨-, rfl, rfl, hmodified, rfl⟩ := Act.set.inj h
        obtain rfl := Except.ok.inj hmodified
        rfl
  | get | delete | clear | sweep => exact absurd ha id

/-- Behind any other act a name leads to what it led to before, unless the act takes it away. -/
theorem find?_perform_of_not_sets (h : s.Distinct) {a : Act} (ha : ¬ a.Sets name) :
    (s.perform a).find? name = some e ↔
      s.find? name = some e ∧ ¬ a.Takes s name e.cachedAt := by
  cases a with
  | get n path fileTime now =>
    show (s.get n path fileTime now).1.find? name = some e ↔ _ ∧ ¬ (n = name ∧ _)
    rw [find?_get]
    split
    · rename_i hmissed
      simp [hmissed.1, hmissed.2]
    · rename_i hmissed
      have hleft : ¬ (n = name ∧ (s.get n path fileTime now).2.2 = none) :=
        fun hn => hmissed ⟨hn.1.symm, hn.2⟩
      simp only [hleft, not_false_eq_true, and_true]
  | set n path properties fileTime now =>
    have hn : name ≠ n := fun hn => ha hn.symm
    cases fileTime with
    | error error =>
      show (s.remove n).find? name = some e ↔ _ ∧ ¬ _ ∈ [Event.notCached n path error]
      rw [find?_remove, if_neg hn]
      simp
    | ok modified =>
      show (s.insert n path properties modified now).1.find? name = some e ↔
        _ ∧ ¬ _ ∈ (s.insert n path properties modified now).2
      rw [find?_insert_of_ne h hn]
      split
      · simp [*]
      · simp [*]
  | delete n =>
    show (s.remove n).find? name = some e ↔ _ ∧ ¬ n = name
    rw [find?_remove]
    by_cases hn : name = n
    · simp [hn]
    · simp [hn, Ne.symm hn]
  | clear => simp [perform, clear, find?, Act.Takes]
  | sweep now =>
    show (s.sweep now).1.find? name = some e ↔ _ ∧ ¬ s.lifetime.lt (now.sub e.cachedAt) = true
    rw [find?_sweep, Option.filter_eq_some_iff, isExpired]
    simp

/-- In a run from an empty store, a name leads to what stands under it. -/
theorem find?_after_iff (hempty : s.entries = []) {acts : List Act} {d : Deposit} :
    ((s.after acts).find? name).map Deposit.ofEntry = some d ↔ Stands s acts name d := by
  induction acts using List.reverseRecOn with
  | nil =>
    constructor
    · intro h
      exact absurd h (by simp [after, find?, hempty])
    · rintro ⟨earlier, later, hacts, -⟩
      exact absurd hacts (by simp)
  | append_singleton acts a ih =>
    have hdistinct : (s.after acts).Distinct := by
      refine Distinct.after ?_ acts
      rw [Distinct, hempty]
      exact List.nodup_nil
    rw [after_concat, stands_concat_iff]
    by_cases ha : a.Sets name
    · rw [find?_perform_of_sets ha]
      simp [ha]
    · have hact : a ≠ d.act name := by
        rintro rfl
        exact ha rfl
      simp only [hact, ha, not_false_eq_true, false_or, true_and, ← ih, Option.map_eq_some_iff,
        find?_perform_of_not_sets hdistinct ha]
      constructor
      · rintro ⟨e, ⟨he, htakes⟩, rfl⟩
        exact ⟨htakes, e, he, rfl⟩
      · rintro ⟨htakes, e, he, rfl⟩
        exact ⟨e, ⟨he, htakes⟩, rfl⟩

/-! ## Look-ups -/

theorem make?_eq_ok {maxEntries : Int} {lifetime : Number}
    (h : make? maxEntries lifetime = .ok s) : s.entries = [] ∧ s.lifetime = lifetime := by
  rw [make?] at h
  split at h
  · cases h
  · split at h
    · cases h
    · cases h
      exact ⟨rfl, rfl⟩

/-- What a look-up answers is what is served. -/
theorem get_eq_some_iff {properties : List Property} :
    (s.get name path fileTime now).2.2 = some properties ↔
      ∃ e, s.served? name path fileTime now = some e ∧ e.properties = properties := by
  rcases get_cases s name path fileTime now with ⟨e, he, hget⟩ | ⟨hnone, kept, events, hget, -⟩
  · simp [he, hget]
  · simp [hnone, hget]

/-- **Look-ups are sound and complete.**  In every run from an empty store a look-up answers with a
list exactly if that list is what stands under the name, its file is not newer now than it was then,
and its time is not up.  Then it leaves the store alone, and otherwise the name leads nowhere behind
it. -/
theorem get_answers_iff {maxEntries : Int} {lifetime : Number}
    (hs : make? maxEntries lifetime = .ok s) (acts : List Act) (name path : Text)
    (fileTime : FileTime) (now : Number) :
    (∀ properties, ((s.after acts).get name path fileTime now).2.2 = some properties ↔
      ∃ d, Stands s acts name d ∧ d.properties = properties ∧
        ∃ modified, fileTime = .ok modified ∧ d.modified.lt modified = false ∧
          lifetime.lt (now.sub d.cachedAt) = false) ∧
    (((s.after acts).get name path fileTime now).2.2 ≠ none →
      ((s.after acts).get name path fileTime now).1 = s.after acts) ∧
    (((s.after acts).get name path fileTime now).2.2 = none →
      ((s.after acts).get name path fileTime now).1.contains name = false) := by
  obtain ⟨hempty, hlifetime⟩ := make?_eq_ok hs
  refine ⟨?_, ?_, ?_⟩
  · intro properties
    simp only [get_eq_some_iff, served?_eq_some_iff, ← find?_after_iff hempty,
      Option.map_eq_some_iff, isExpired, lifetime_after, hlifetime]
    constructor
    · rintro ⟨e, ⟨hfind, hserved⟩, rfl⟩
      exact ⟨Deposit.ofEntry e, ⟨e, hfind, rfl⟩, rfl, hserved⟩
    · rintro ⟨d, ⟨e, hfind, rfl⟩, rfl, hserved⟩
      exact ⟨e, ⟨hfind, hserved⟩, rfl⟩
  · intro hanswer
    rcases get_cases (s.after acts) name path fileTime now with ⟨e, -, hget⟩ | ⟨-, _, _, hget, -⟩
    · rw [hget]
    · rw [hget] at hanswer
      exact absurd rfl hanswer
  · intro hanswer
    rw [contains, find?_get, if_pos ⟨rfl, hanswer⟩]
    rfl

/-! ## A run on a store for two entries -/

def pair : Store := ⟨2, .whole 10, [], 0⟩

/-- The second type is put in again, the third one takes the place of the first, and a sweep finds
nothing too old. -/
def pairActs : List Act :=
  [.set ['A'] "a.cs".toList [] (.ok (.whole 1)) (.whole 0),
   .set ['B'] "b.cs".toList [] (.ok (.whole 1)) (.whole 0),
   .set ['B'] "b.cs".toList [] (.ok (.whole 4)) (.whole 5),
   .set ['C'] "c.cs".toList [] (.ok (.whole 1)) (.whole 6),
   .get ['A'] "a.cs".toList (.ok (.whole 1)) (.whole 7),
   .sweep (.whole 12)]

theorem get_answers_pair :
    make? 2 (.whole 10) = .ok pair ∧
      (∃ d, Stands pair pairActs ['B'] d ∧ d.properties = [] ∧
        ∃ modified, (.ok (.whole 3) : FileTime) = .ok modified ∧
          d.modified.lt modified = false ∧
          Number.lt (.whole 10) ((Number.whole 15).sub d.cachedAt) = false) ∧
      ((pair.after pairActs).get ['A'] "a.cs".toList (.ok (.whole 1)) (.whole 12)).1.contains
        ['A'] = false := by
  have hpair : make? 2 (.whole 10) = .ok pair := rfl
  have hB := get_answers_iff hpair pairActs ['B'] "b.cs".toList (.ok (.whole 3)) (.whole 15)
  have hA := get_answers_iff hpair pairActs ['A'] "a.cs".toList (.ok (.whole 1)) (.whole 12)
  exact ⟨hpair, (hB.1 []).1 rfl, hA.2.2 rfl⟩

end RazorViews.Store
