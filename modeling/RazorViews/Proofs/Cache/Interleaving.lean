import RazorViews.Proofs.Cache.Residence

/-!
# Calls that interleave

Any number of clients call a store without excluding one another.  What a call does while it holds
the store is one step: a look-up, the removal of the entry that was looked up, an insertion, a
deletion, a clearance, and of a sweep the collection of names and the removal under each of them.
Between these steps a call asks a file for its time and reads the clock, which are steps of their
own and are answered in any way (`Phase.advance`).  A run is any sequence of steps of any calls.

## What is proved

A call decides on what it saw some steps ago, and by the time it acts another one may have put
something else in.  `no_fresh_entry_lost` says that this does no harm, of every run from an empty
store and at every moment of it:

* the store holds no more entries than it may;
* a look-up that takes something out takes the very entry that it looked up, and that has not been
  put in since;
* what a sweep takes out is too old at the reading of the clock that it took;
* the count that it returns is that of the entries which it took out itself, and not of the names
  which it had collected;
* the list that a look-up returns is that of the entry which it looked up.

That the steps are those of the operations is the last part: a call that is left alone ends as the
operation does, with the same store and the same answer.

## What it is not

Nothing is said of whether a list that is served is right.  An entry may be stale when it is served,
as its file may be written behind the look-up; `late_calls_current_iff` deals with that.  Nor is any
call promised to come to its end, which is up to who schedules the steps.

## The proof

Entries are told apart by their serials, and no serial is given twice (`Numbered`).  Hence an entry
of the serial that was looked up is the entry that was looked up (`LookedUp.eq_of_serial`), whatever
has happened to its name in between.  The rest is an invariant on runs: what a call holds is
explained by the steps that it has taken (`Explains`, `explains_after`), one case for each phase.
-/

namespace RazorViews.Store

/-! ## The steps of a call -/

/-- A call of a client. -/
inductive Call where
  | get (name path : Text)
  | set (name path : Text) (properties : List Property)
  | delete (name : Text)
  | clear
  | sweep

/-- How far a call has come. -/
inductive Phase where
  | lookingUp (name path : Text)
  /-- An entry has been looked up, and the file is to be asked for its time. -/
  | found (e : Entry) (path : Text)
  /-- The file is not newer than the entry, and the clock is to be read. -/
  | current (e : Entry)
  /-- The entry may not be served and is to be taken out. -/
  | refused (e : Entry)
  | answered (answer : Option (List Property))
  | storing (name path : Text) (properties : List Property)
  /-- The file has told its time, and the clock is to be read. -/
  | dated (name path : Text) (properties : List Property) (modified : Number)
  | stamped (name path : Text) (properties : List Property) (modified cachedAt : Number)
  /-- The file has not told its time, and what is there under the name is to go. -/
  | undated (name : Text)
  | deleting (name : Text)
  | deleted (existed : Bool)
  | clearing
  | finished
  | sweeping
  /-- The clock has been read, and the names of old entries are to be collected. -/
  | timed (now : Number)
  /-- Under these names old entries are to be taken out; so many have been so far. -/
  | removing (now : Number) (names : List Text) (count : Nat)
  | swept (count : Nat)

/-- How a call begins. -/
def Call.begin : Call → Phase
  | get name path => .lookingUp name path
  | set name path properties => .storing name path properties
  | delete name => .deleting name
  | clear => .clearing
  | sweep => .sweeping

/-- The next step of a call, with what the file or the clock answers if it is asked: what it leaves
in the store, and how far the call has come then. -/
def Phase.advance (s : Store) (fileTime : FileTime) (now : Number) : Phase → Store × Phase
  | lookingUp name path =>
    match s.find? name with
    | none => (s, answered none)
    | some e => (s, found e path)
  | found e _ =>
    match fileTime with
    | .error _ => (s, refused e)
    | .ok modified => if e.modified.lt modified then (s, refused e) else (s, current e)
  | current e =>
    if s.isExpired now e then (s, refused e) else (s, answered (some e.properties))
  | refused e => (s.discard e, answered none)
  | storing name path properties =>
    match fileTime with
    | .error _ => (s, undated name)
    | .ok modified => (s, dated name path properties modified)
  | dated name path properties modified => (s, stamped name path properties modified now)
  | stamped name path properties modified cachedAt =>
    ((s.insert name path properties modified cachedAt).1, finished)
  | undated name => (s.remove name, finished)
  | deleting name => ((s.delete name).1, deleted (s.delete name).2)
  | clearing => (s.clear, finished)
  | sweeping => (s, timed now)
  | timed now => (s, removing now (s.staleNames now) 0)
  | removing _ [] count => (s, swept count)
  | removing now (name :: rest) count =>
    ((s.removeStale now name).1,
      removing now rest (if (s.removeStale now name).2 then count + 1 else count))
  | answered answer => (s, answered answer)
  | deleted existed => (s, deleted existed)
  | finished => (s, finished)
  | swept count => (s, swept count)

variable {s t : Store} {e e' : Entry} {name path : Text} {fileTime : FileTime} {now : Number}
  {phase : Phase} {bound : Nat}

/-- A step takes entries out, or puts one in. -/
theorem advance_cases (s : Store) (fileTime : FileTime) (now : Number) (phase : Phase) :
    s.Shrinks (phase.advance s fileTime now).1 ∨
      ∃ name path properties modified cachedAt,
        phase = .stamped name path properties modified cachedAt ∧
          (phase.advance s fileTime now).1 =
            (s.insert name path properties modified cachedAt).1 := by
  cases phase with
  | stamped name path properties modified cachedAt =>
    exact .inr ⟨name, path, properties, modified, cachedAt, rfl, rfl⟩
  | refused e => exact .inl (shrinks_discard s e)
  | undated name => exact .inl (shrinks_remove s name)
  | deleting name => exact .inl (shrinks_remove s name)
  | clearing => exact .inl (shrinks_clear s)
  | removing now names count =>
    cases names with
    | nil => exact .inl (.refl s)
    | cons name rest => exact .inl (shrinks_removeStale s now name)
  | lookingUp name path =>
    left
    simp only [Phase.advance]
    split <;> exact .refl s
  | found e path =>
    left
    cases fileTime with
    | error error => exact .refl s
    | ok modified =>
      simp only [Phase.advance]
      split <;> exact .refl s
  | current e =>
    left
    simp only [Phase.advance]
    split <;> exact .refl s
  | storing name path properties =>
    left
    cases fileTime <;> exact .refl s
  | dated | sweeping | timed | answered | deleted | finished | swept => exact .inl (.refl s)

/-! ### A call that is left alone -/

/-- A call that is left alone goes from here to there, if file and clock do not change. -/
inductive Alone (fileTime : FileTime) (now : Number) : Store × Phase → Store × Phase → Prop
  | arrived (p : Store × Phase) : Alone fileTime now p p
  | step {p q : Store × Phase} (h : Alone fileTime now (p.2.advance p.1 fileTime now) q) :
      Alone fileTime now p q

/-- What a call leaves in the store, and what it answers, as an operation. -/
def Call.outcome (s : Store) (fileTime : FileTime) (now : Number) : Call → Store × Phase
  | get name path =>
    ((s.get name path fileTime now).1, .answered (s.get name path fileTime now).2.2)
  | set name path properties => ((s.set name path properties fileTime now).1, .finished)
  | delete name => ((s.delete name).1, .deleted (s.delete name).2)
  | clear => (s.clear, .finished)
  | sweep => ((s.sweep now).1, .swept (s.sweep now).2.2)

theorem alone_refused (s : Store) (e : Entry) (fileTime : FileTime) (now : Number) :
    Alone fileTime now (s, .refused e) (s.discard e, .answered none) :=
  .step (.arrived _)

theorem alone_get (s : Store) (name path : Text) (fileTime : FileTime) (now : Number) :
    Alone fileTime now (s, .lookingUp name path)
      ((s.get name path fileTime now).1, .answered (s.get name path fileTime now).2.2) := by
  refine .step ?_
  rw [get]
  simp only [Phase.advance]
  cases hfind : s.find? name with
  | none => exact .arrived _
  | some e =>
    refine .step ?_
    cases fileTime with
    | error error =>
      simp only [Phase.advance, dropReason?]
      exact alone_refused s e _ now
    | ok modified =>
      simp only [Phase.advance, dropReason?]
      split
      · exact alone_refused s e _ now
      · refine .step ?_
        simp only [Phase.advance]
        split
        · exact alone_refused s e _ now
        · exact .arrived _

theorem alone_removing (s : Store) (names : List Text) (count : Nat) (fileTime : FileTime)
    (now now' : Number) :
    Alone fileTime now (s, .removing now' names count)
      ((s.removeAllStale now' names).1, .swept (count + (s.removeAllStale now' names).2)) := by
  induction names generalizing s count with
  | nil => exact .step (.arrived _)
  | cons name rest ih =>
    refine .step ?_
    have hrest := ih (s.removeStale now' name).1
      (if (s.removeStale now' name).2 then count + 1 else count)
    simp only [removeAllStale, Phase.advance]
    cases hremoved : (s.removeStale now' name).2 with
    | true =>
      simp only [hremoved, if_true] at hrest ⊢
      rwa [Nat.add_assoc, Nat.add_comm 1] at hrest
    | false =>
      simp only [hremoved, Bool.false_eq_true, if_false] at hrest ⊢
      exact hrest

/-- A call that is left alone does what the operation does. -/
theorem alone_call (s : Store) (fileTime : FileTime) (now : Number) (call : Call) :
    Alone fileTime now (s, call.begin) (call.outcome s fileTime now) := by
  cases call with
  | get name path => exact alone_get s name path fileTime now
  | set name path properties =>
    refine .step ?_
    cases fileTime with
    | error error => exact .step (.arrived _)
    | ok modified => exact .step (.step (.arrived _))
  | delete name => exact .step (.arrived _)
  | clear => exact .step (.arrived _)
  | sweep =>
    have hremoving := alone_removing s (s.staleNames now) 0 fileTime now now
    rw [Nat.zero_add] at hremoving
    exact .step (.step hremoving)

/-! ## Serials -/

/-- Entries have different serials, and none has the next one. -/
structure Numbered (s : Store) : Prop where
  nodup : (s.entries.map (·.serial)).Nodup
  lt : ∀ e ∈ s.entries, e.serial < s.nextSerial

theorem Numbered.eq_of_serial (h : s.Numbered) (he : e ∈ s.entries) (he' : e' ∈ s.entries)
    (heq : e.serial = e'.serial) : e = e' :=
  List.inj_on_of_nodup_map h.nodup he he' heq

theorem Numbered.shrinks (h : s.Numbered) (hs : s.Shrinks t) : t.Numbered := by
  obtain ⟨kept, hkept, rfl⟩ := hs
  exact ⟨h.nodup.sublist (hkept.map _), fun e he => h.lt e (hkept.mem he)⟩

/-- Entries of which all but one are left, with a new one among them. -/
theorem Numbered.inserted (h : s.Numbered) {front back : List Entry} {new : Entry}
    (hkept : (front ++ back).Sublist s.entries) (hnew : new.serial = s.nextSerial) :
    (s.inserted (front ++ new :: back)).Numbered := by
  have hold : ∀ e ∈ front ++ back, e.serial < s.nextSerial := fun e he => h.lt e (hkept.mem he)
  refine ⟨?_, ?_⟩
  · show ((front ++ new :: back).map (·.serial)).Nodup
    rw [List.map_append, List.map_cons, List.nodup_middle, ← List.map_append, List.nodup_cons]
    refine ⟨?_, h.nodup.sublist (hkept.map _)⟩
    intro hmem
    obtain ⟨e, he, heq⟩ := List.mem_map.1 hmem
    exact absurd (heq.trans hnew) (Nat.ne_of_lt (hold e he))
  · intro e he
    show e.serial < s.nextSerial + 1
    rcases List.mem_append.1 he with he | he
    · exact Nat.lt_succ_of_lt (hold e (List.mem_append_left back he))
    · rcases List.mem_cons.1 he with rfl | he
      · exact Nat.lt_succ_of_le (Nat.le_of_eq hnew)
      · exact Nat.lt_succ_of_lt (hold e (List.mem_append_right front he))

theorem nextSerial_insert (s : Store) (name path : Text) (properties : List Property)
    (modified now : Number) :
    (s.insert name path properties modified now).1.nextSerial = s.nextSerial + 1 := by
  rw [insert]
  split
  · rfl
  · split
    · split <;> rfl
    · rfl

/-- A step gives no serial again: an entry that it brings in has the next one. -/
theorem serial_of_advance (fileTime : FileTime) (now : Number) (phase : Phase) :
    s.nextSerial ≤ (phase.advance s fileTime now).1.nextSerial ∧
      ∀ e ∈ (phase.advance s fileTime now).1.entries, e ∈ s.entries ∨ e.serial = s.nextSerial := by
  rcases advance_cases s fileTime now phase with ⟨kept, hkept, hs⟩ | ⟨name, path, ps, m, c, -, hs⟩
  · rw [hs]
    exact ⟨Nat.le_refl _, fun e he => .inl (hkept.mem he)⟩
  · rw [hs, nextSerial_insert]
    refine ⟨Nat.le_succ _, ?_⟩
    intro e he
    exact (mem_insert he).imp_right fun he => congrArg Entry.serial he

theorem Numbered.insert (h : s.Numbered) (hdistinct : s.Distinct) (hbounded : s.Bounded bound)
    (name path : Text) (properties : List Property) (modified now : Number) :
    (s.insert name path properties modified now).1.Numbered := by
  cases hname : s.contains name with
  | true =>
    obtain ⟨front, old, back, hentries, -, hinsert⟩ :=
      insert_resident hdistinct hname path properties modified now
    rw [hinsert]
    refine h.inserted ?_ rfl
    rw [hentries]
    exact (List.Sublist.refl front).append (List.sublist_cons_self old back)
  | false =>
    by_cases hfull : s.maxEntries ≤ s.size
    · obtain ⟨oldest, rest, hentries, hinsert⟩ :=
        insert_full hname (hbounded.maxEntries ▸ hbounded.pos) hfull path properties modified now
      rw [hinsert]
      refine h.inserted ?_ rfl
      rw [hentries, List.append_nil]
      exact List.sublist_cons_self oldest rest
    · rw [insert_room hname (Nat.not_le.1 hfull)]
      refine h.inserted ?_ rfl
      rw [List.append_nil]

/-- What every run keeps of a store. -/
structure Sound (bound : Nat) (window : Number) (s : Store) : Prop where
  bounded : s.Bounded bound
  lifetime : s.lifetime = window
  distinct : s.Distinct
  numbered : s.Numbered

variable {window : Number}

theorem Sound.advance (h : s.Sound bound window) (fileTime : FileTime) (now : Number)
    (phase : Phase) : (phase.advance s fileTime now).1.Sound bound window := by
  rcases advance_cases s fileTime now phase with hs | ⟨name, path, ps, m, c, -, hs⟩
  · exact ⟨h.bounded.shrinks hs, hs.lifetime.trans h.lifetime, h.distinct.shrinks hs,
      h.numbered.shrinks hs⟩
  · rw [hs]
    exact ⟨h.bounded.insert h.distinct name path ps m c,
      (lifetime_insert s name path ps m c).trans h.lifetime,
      h.distinct.insert name path ps m c, h.numbered.insert h.distinct h.bounded name path ps m c⟩

theorem make?_sound {maxEntries : Int} (h : make? maxEntries window = .ok s) :
    s.Sound maxEntries.toNat window := by
  obtain ⟨hempty, hlifetime⟩ := make?_eq_ok h
  refine ⟨make?_bounded h, hlifetime, ?_, ?_, ?_⟩
  · rw [Distinct, hempty]
    exact List.nodup_nil
  · rw [hempty]
    exact List.nodup_nil
  · rw [hempty]
    exact fun _ he => absurd he List.not_mem_nil

/-! ## What a step takes out -/

/-- The entries of a store that are not in another one any more. -/
def lost (s t : Store) : List Entry :=
  s.entries.filter fun e => !(t.entries.map (·.serial)).contains e.serial

theorem mem_of_lost (h : e ∈ s.lost t) : e ∈ s.entries ∧ e ∉ t.entries := by
  obtain ⟨hmem, hserial⟩ := List.mem_filter.1 h
  refine ⟨hmem, ?_⟩
  intro he
  rw [List.contains_iff_mem.2 (List.mem_map_of_mem he)] at hserial
  cases hserial

theorem lost_self (s : Store) : s.lost s = [] := by
  refine List.eq_nil_iff_forall_not_mem.2 ?_
  intro e he
  obtain ⟨hin, hout⟩ := mem_of_lost he
  exact hout hin

/-- A removal takes out what is there under the name. -/
theorem lost_remove (h : s.Numbered) (name : Text) :
    s.lost (s.remove name) = s.entries.filter fun e => e.typeName == name := by
  refine List.filter_congr ?_
  intro e he
  have hiff : e.serial ∈ (s.remove name).entries.map (·.serial) ↔ e.typeName ≠ name := by
    constructor
    · intro hmem
      obtain ⟨e', he', heq⟩ := List.mem_map.1 hmem
      obtain ⟨hin, hne⟩ := List.mem_filter.1 he'
      rw [← h.eq_of_serial hin he heq]
      exact bne_iff_ne.1 hne
    · intro hne
      exact List.mem_map_of_mem (List.mem_filter.2 ⟨he, bne_iff_ne.2 hne⟩)
  by_cases hname : e.typeName = name
  · rw [beq_iff_eq.2 hname, Bool.not_eq_true', ← Bool.not_eq_true, List.contains_iff_mem, hiff]
    exact fun hne => hne hname
  · rw [List.contains_iff_mem.2 (hiff.2 hname), beq_eq_false_iff_ne.2 hname]
    rfl

/-- Under a name that leads to an entry, that entry is taken out and no other. -/
theorem lost_remove_of_find? (h : s.Sound bound window) (hfind : s.find? name = some e) :
    s.lost (s.remove name) = [e] := by
  obtain ⟨hmem, rfl⟩ := mem_of_find? hfind
  rw [lost_remove h.numbered]
  obtain ⟨front, back, hentries⟩ := List.append_of_mem hmem
  have hnodup := h.distinct
  rw [Distinct, hentries, List.map_append, List.map_cons, List.nodup_middle, List.nodup_cons,
    ← List.map_append] at hnodup
  have hnone : ∀ e' ∈ front ++ back, ¬ (e'.typeName == e.typeName) = true := by
    intro e' he' heq
    exact hnodup.1 (List.mem_map.2 ⟨e', he', beq_iff_eq.1 heq⟩)
  rw [List.forall_mem_append] at hnone
  rw [hentries, List.filter_append, List.filter_eq_nil_iff.2 hnone.1, List.nil_append]
  simp only [List.filter_cons, beq_self_eq_true, if_true, List.filter_eq_nil_iff.2 hnone.2]

/-- A sweep takes out what is too old, and counts it. -/
theorem lost_removeStale (h : s.Sound bound window) (now : Number) (name : Text) :
    (∀ e ∈ s.lost (s.removeStale now name).1, e.typeName = name ∧ s.isExpired now e = true) ∧
      (s.lost (s.removeStale now name).1).length =
        if (s.removeStale now name).2 then 1 else 0 := by
  rw [removeStale]
  cases hfind : s.find? name with
  | none => simp [lost_self]
  | some e =>
    cases hold : s.isExpired now e with
    | true => simp [lost_remove_of_find? h hfind, hold, (mem_of_find? hfind).2]
    | false => simp [hold, lost_self]

/-! ## Runs -/

/-- The store, and the calls in the order in which they have begun. -/
structure World where
  store : Store
  calls : List Phase

/-- What happens next: a call begins, or a call takes a step. -/
inductive Turn where
  | begin (call : Call)
  | advance (i : Nat) (fileTime : FileTime) (now : Number)

def Turn.isStepOf (i : Nat) : Turn → Bool
  | begin _ => false
  | advance j _ _ => j == i

namespace World

/-- No call has begun. -/
def start (s : Store) : World := ⟨s, []⟩

def play (w : World) : Turn → World
  | .begin call => { w with calls := w.calls ++ [call.begin] }
  | .advance i fileTime now =>
    match w.calls[i]? with
    | none => w
    | some phase =>
      let (store, phase) := phase.advance w.store fileTime now
      ⟨store, w.calls.set i phase⟩

def after (w : World) (turns : List Turn) : World := turns.foldl play w

variable {w : World} {turn : Turn} {turns since : List Turn} {i : Nat}

theorem play_advance (h : w.calls[i]? = some phase) (fileTime : FileTime) (now : Number) :
    w.play (.advance i fileTime now) = ⟨(phase.advance w.store fileTime now).1,
      w.calls.set i (phase.advance w.store fileTime now).2⟩ := by
  simp only [play, h]

theorem play_advance_of_none (h : w.calls[i]? = none) (fileTime : FileTime) (now : Number) :
    w.play (.advance i fileTime now) = w := by
  simp only [play, h]

theorem after_append (w : World) (turns more : List Turn) :
    w.after (turns ++ more) = (w.after turns).after more :=
  List.foldl_append

theorem after_concat (w : World) (turns : List Turn) (turn : Turn) :
    w.after (turns ++ [turn]) = (w.after turns).play turn :=
  after_append w turns [turn]

/-- A turn leaves the store alone, or what it leaves there is left by a step of a call. -/
theorem store_play (w : World) (turn : Turn) :
    (w.play turn).store = w.store ∨ ∃ i fileTime now phase, turn = .advance i fileTime now ∧
      w.calls[i]? = some phase ∧ (w.play turn).store = (phase.advance w.store fileTime now).1 := by
  cases turn with
  | begin call => exact .inl rfl
  | advance i fileTime now =>
    cases hi : w.calls[i]? with
    | none => exact .inl (by rw [play_advance_of_none hi])
    | some phase =>
      exact .inr ⟨i, fileTime, now, phase, rfl, hi, by rw [play_advance hi]⟩

/-- A call has come one step further, or stands where it stood, or has just begun. -/
theorem getElem?_play (h : (w.play turn).calls[i]? = some phase) :
    (∃ fileTime now before, turn = .advance i fileTime now ∧ w.calls[i]? = some before ∧
      phase = (before.advance w.store fileTime now).2) ∨
    (turn.isStepOf i = false ∧ w.calls[i]? = some phase) ∨
    ∃ call, turn = .begin call ∧ i = w.calls.length ∧ phase = call.begin := by
  cases turn with
  | begin call =>
    rcases Nat.lt_or_ge i w.calls.length with hlt | hge
    · rw [play, List.getElem?_append_left hlt] at h
      exact .inr (.inl ⟨rfl, h⟩)
    · rw [play, List.getElem?_append_right hge, List.getElem?_singleton] at h
      split at h
      · rename_i hi
        obtain rfl := Option.some.inj h
        exact .inr (.inr ⟨call, rfl, Nat.le_antisymm (Nat.sub_eq_zero_iff_le.1 hi) hge, rfl⟩)
      · cases h
  | advance j fileTime now =>
    cases hj : w.calls[j]? with
    | none =>
      rw [play_advance_of_none hj] at h
      refine .inr (.inl ⟨?_, h⟩)
      refine beq_false_of_ne ?_
      rintro rfl
      rw [hj] at h
      cases h
    | some before =>
      rw [play_advance hj] at h
      by_cases hji : j = i
      · subst hji
        rw [List.getElem?_set_self (List.getElem?_eq_some_iff.1 hj).1] at h
        exact .inl ⟨fileTime, now, before, rfl, hj, (Option.some.inj h).symm⟩
      · rw [List.getElem?_set_ne hji] at h
        exact .inr (.inl ⟨beq_false_of_ne hji, h⟩)

theorem length_play (w : World) (turn : Turn) :
    w.calls.length ≤ (w.play turn).calls.length := by
  cases turn with
  | begin call => simp [play]
  | advance i fileTime now =>
    cases hi : w.calls[i]? with
    | none => exact Nat.le_of_eq (by rw [play_advance_of_none hi])
    | some phase => simp [play_advance hi]

theorem sound_play (h : w.store.Sound bound window) (turn : Turn) :
    (w.play turn).store.Sound bound window := by
  rcases store_play w turn with hs | ⟨i, fileTime, now, phase, -, -, hs⟩
  · rwa [hs]
  · rw [hs]
    exact h.advance fileTime now phase

theorem sound_after (h : w.store.Sound bound window) (turns : List Turn) :
    (w.after turns).store.Sound bound window := by
  induction turns generalizing w with
  | nil => exact h
  | cons turn turns ih => exact ih (sound_play h turn)

/-! ### Where what a call knows comes from -/

/-- In a run from here a call has looked an entry up, and these turns have come since. -/
def LookedUp (w : World) (turns : List Turn) (i : Nat) (e : Entry) (since : List Turn) : Prop :=
  ∃ before fileTime now name path, turns = before ++ .advance i fileTime now :: since ∧
    (w.after before).calls[i]? = some (.lookingUp name path) ∧
      (w.after before).store.find? name = some e

/-- In a run from here a sweep has read the clock, and this is what it gave. -/
def ReadClock (w : World) (turns : List Turn) (i : Nat) (reading : Number) : Prop :=
  ∃ before fileTime since, turns = before ++ .advance i fileTime reading :: since ∧
    (w.after before).calls[i]? = some .sweeping

/-- In a run from here an entry has come into the store with one of the last turns. -/
def PutIn (w : World) (turns since : List Turn) (e : Entry) : Prop :=
  ∃ before turn later, turns = before ++ turn :: later ∧ (turn :: later) <:+ since ∧
    e ∉ (w.after before).store.entries ∧ e ∈ ((w.after before).play turn).store.entries

/-- The entries that the steps of a call have taken out. -/
def takenOut (i : Nat) (w : World) : List Turn → List Entry
  | [] => []
  | turn :: rest =>
    (if turn.isStepOf i then w.store.lost (w.play turn).store else []) ++
      takenOut i (w.play turn) rest

theorem LookedUp.concat (h : w.LookedUp turns i e since) (turn : Turn) :
    w.LookedUp (turns ++ [turn]) i e (since ++ [turn]) := by
  obtain ⟨before, fileTime, now, name, path, rfl, hcall, hfind⟩ := h
  exact ⟨before, fileTime, now, name, path, by simp, hcall, hfind⟩

theorem ReadClock.concat {reading : Number} (h : w.ReadClock turns i reading) (turn : Turn) :
    w.ReadClock (turns ++ [turn]) i reading := by
  obtain ⟨before, fileTime, since, rfl, hcall⟩ := h
  exact ⟨before, fileTime, since ++ [turn], by simp, hcall⟩

theorem takenOut_concat (i : Nat) (w : World) (turns : List Turn) (turn : Turn) :
    w.takenOut i (turns ++ [turn]) = w.takenOut i turns ++
      if turn.isStepOf i then (w.after turns).store.lost ((w.after turns).play turn).store
      else [] := by
  induction turns generalizing w with
  | nil => simp [takenOut, after]
  | cons first turns ih => simp [takenOut, after, ih]

/-- A call that has not begun has taken nothing out. -/
theorem takenOut_eq_nil (h : (w.after turns).calls.length ≤ i) : w.takenOut i turns = [] := by
  induction turns using List.reverseRecOn with
  | nil => rfl
  | append_singleton turns turn ih =>
    rw [after_concat] at h
    have hbefore := Nat.le_trans (length_play (w.after turns) turn) h
    rw [takenOut_concat, ih hbefore, List.nil_append]
    split
    · rename_i hstep
      cases turn with
      | begin call => cases hstep
      | advance j fileTime now =>
        obtain rfl : j = i := beq_iff_eq.1 hstep
        rw [play_advance_of_none (List.getElem?_eq_none hbefore), lost_self]
    · rfl

/-- What the run up to now says about a call, by how far it has come. -/
def Explains (w : World) (turns : List Turn) (i : Nat) : Phase → Prop
  | .found e _ => ∃ since, w.LookedUp turns i e since
  | .current e => ∃ since, w.LookedUp turns i e since
  | .refused e => ∃ since, w.LookedUp turns i e since
  | .answered (some properties) =>
    ∃ e since, w.LookedUp turns i e since ∧ e.properties = properties
  | .sweeping => w.takenOut i turns = []
  | .timed reading => w.ReadClock turns i reading ∧ w.takenOut i turns = []
  | .removing reading _ count => w.ReadClock turns i reading ∧ (w.takenOut i turns).length = count
  | .swept count => (w.takenOut i turns).length = count
  | _ => True

theorem Explains.concat (h : w.Explains turns i phase) (hturn : turn.isStepOf i = false) :
    w.Explains (turns ++ [turn]) i phase := by
  have htaken : w.takenOut i (turns ++ [turn]) = w.takenOut i turns := by
    rw [takenOut_concat, hturn]
    exact List.append_nil _
  cases phase with
  | found e path =>
    obtain ⟨since, hlooked⟩ := h
    exact ⟨_, hlooked.concat turn⟩
  | current e =>
    obtain ⟨since, hlooked⟩ := h
    exact ⟨_, hlooked.concat turn⟩
  | refused e =>
    obtain ⟨since, hlooked⟩ := h
    exact ⟨_, hlooked.concat turn⟩
  | answered answer =>
    cases answer with
    | none => trivial
    | some properties =>
      obtain ⟨e, since, hlooked, heq⟩ := h
      exact ⟨e, _, hlooked.concat turn, heq⟩
  | sweeping => exact htaken.trans h
  | timed reading => exact ⟨h.1.concat turn, htaken.trans h.2⟩
  | removing reading names count => exact ⟨h.1.concat turn, by rw [htaken, h.2]⟩
  | swept count => exact (congrArg List.length htaken).trans h
  | lookingUp | storing | dated | stamped | undated | deleting | deleted | clearing | finished =>
    trivial

theorem Explains.advance (h : w.Explains turns i phase)
    (hi : (w.after turns).calls[i]? = some phase) (hs : (w.after turns).store.Sound bound window)
    (fileTime : FileTime) (now : Number) :
    w.Explains (turns ++ [.advance i fileTime now]) i
      (phase.advance (w.after turns).store fileTime now).2 := by
  have hstep : (Turn.advance i fileTime now).isStepOf i = true := beq_self_eq_true i
  have htaken : w.takenOut i (turns ++ [.advance i fileTime now]) = w.takenOut i turns ++
      (w.after turns).store.lost (phase.advance (w.after turns).store fileTime now).1 := by
    rw [takenOut_concat, hstep, if_pos rfl, play_advance hi]
  cases phase with
  | lookingUp name path =>
    simp only [Phase.advance]
    cases hfind : (w.after turns).store.find? name with
    | none => trivial
    | some e => exact ⟨[], turns, fileTime, now, name, path, rfl, hi, hfind⟩
  | found e path =>
    obtain ⟨since, hlooked⟩ := h
    have hnext := hlooked.concat (.advance i fileTime now)
    cases fileTime with
    | error error => exact ⟨_, hnext⟩
    | ok modified =>
      simp only [Phase.advance]
      split
      · exact ⟨_, hnext⟩
      · exact ⟨_, hnext⟩
  | current e =>
    obtain ⟨since, hlooked⟩ := h
    have hnext := hlooked.concat (.advance i fileTime now)
    simp only [Phase.advance]
    split
    · exact ⟨_, hnext⟩
    · exact ⟨e, _, hnext, rfl⟩
  | answered answer =>
    cases answer with
    | none => trivial
    | some properties =>
      obtain ⟨e, since, hlooked, heq⟩ := h
      exact ⟨e, _, hlooked.concat _, heq⟩
  | sweeping =>
    refine ⟨⟨turns, fileTime, [], rfl, hi⟩, ?_⟩
    rw [htaken, h]
    exact lost_self _
  | timed reading =>
    refine ⟨h.1.concat _, ?_⟩
    rw [htaken, h.2]
    exact congrArg List.length (lost_self _)
  | removing reading names count =>
    cases names with
    | nil =>
      show (w.takenOut i _).length = count
      rw [htaken, List.length_append, h.2]
      exact congrArg (count + ·) (congrArg List.length (lost_self _))
    | cons name rest =>
      refine ⟨h.1.concat _, ?_⟩
      have hlost := (lost_removeStale hs reading name).2
      rw [htaken, List.length_append, h.2]
      simp only [Phase.advance]
      rw [hlost]
      split <;> rfl
  | swept count =>
    show (w.takenOut i _).length = count
    rw [htaken, List.length_append, h]
    exact congrArg (count + ·) (congrArg List.length (lost_self _))
  | storing name path properties => cases fileTime <;> trivial
  | refused | dated | stamped | undated | deleting | deleted | clearing | finished => trivial

theorem explains_begin {call : Call} (hi : i = (w.after turns).calls.length) :
    w.Explains (turns ++ [.begin call]) i call.begin := by
  cases call with
  | sweep =>
    show w.takenOut i (turns ++ [.begin .sweep]) = []
    rw [takenOut_concat, takenOut_eq_nil (Nat.le_of_eq hi.symm)]
    rfl
  | get | set | delete | clear => trivial

/-- Every call of a run is where the run has brought it. -/
theorem explains_after (hs : s.Sound bound window) (turns : List Turn)
    (hi : ((start s).after turns).calls[i]? = some phase) : (start s).Explains turns i phase := by
  induction turns using List.reverseRecOn generalizing phase with
  | nil => cases hi
  | append_singleton turns turn ih =>
    rw [after_concat] at hi
    rcases getElem?_play hi with ⟨fileTime, now, before, rfl, hbefore, rfl⟩ | ⟨hturn, hbefore⟩ |
      ⟨call, rfl, hlength, rfl⟩
    · exact (ih hbefore).advance hbefore (sound_after hs turns) fileTime now
    · exact (ih hbefore).concat hturn
    · exact explains_begin hlength

/-! ### What is known of an entry that was looked up -/

theorem serial_of_play (w : World) (turn : Turn) :
    w.store.nextSerial ≤ (w.play turn).store.nextSerial ∧
      ∀ e ∈ (w.play turn).store.entries, e ∈ w.store.entries ∨ e.serial = w.store.nextSerial := by
  rcases store_play w turn with hs | ⟨i, fileTime, now, phase, -, -, hs⟩
  · rw [hs]
    exact ⟨Nat.le_refl _, fun e he => .inl he⟩
  · rw [hs]
    exact serial_of_advance fileTime now phase

/-- What is in the store under an old serial has been there all the time. -/
theorem mem_of_after (he : e ∈ (w.after turns).store.entries)
    (hserial : e.serial < w.store.nextSerial) : e ∈ w.store.entries := by
  induction turns generalizing w with
  | nil => exact he
  | cons turn turns ih =>
    obtain ⟨hle, hnew⟩ := serial_of_play w turn
    rcases hnew e (ih he (Nat.lt_of_lt_of_le hserial hle)) with he | heq
    · exact he
    · exact absurd heq (Nat.ne_of_lt hserial)

theorem nextSerial_le_after (w : World) (turns : List Turn) :
    w.store.nextSerial ≤ (w.after turns).store.nextSerial := by
  induction turns generalizing w with
  | nil => exact Nat.le_refl _
  | cons turn turns ih => exact Nat.le_trans (serial_of_play w turn).1 (ih _)

variable {s : Store}

/-- An entry of the store with the serial of one that was looked up is that one. -/
theorem LookedUp.eq_of_serial (h : (start s).LookedUp turns i e since) (hs : s.Sound bound window)
    (he' : e' ∈ ((start s).after turns).store.entries) (heq : e'.serial = e.serial) : e' = e := by
  obtain ⟨before, fileTime, now, name, path, rfl, -, hfind⟩ := h
  have hnumbered := (sound_after (w := start s) hs before).numbered
  have he := (mem_of_find? hfind).1
  rw [after_append] at he'
  exact hnumbered.eq_of_serial (mem_of_after he' (heq ▸ hnumbered.lt e he)) he heq

/-- What was looked up has not been put in since. -/
theorem LookedUp.not_putIn (h : (start s).LookedUp turns i e since) (hs : s.Sound bound window) :
    ¬ (start s).PutIn turns since e := by
  obtain ⟨before, fileTime, now, name, path, rfl, -, hfind⟩ := h
  rintro ⟨front, turn, later, hturns, ⟨between, rfl⟩, hout, hin⟩
  have hnumbered := (sound_after (w := start s) hs before).numbered
  have hserial := hnumbered.lt e (mem_of_find? hfind).1
  obtain rfl : before ++ .advance i fileTime now :: between = front := by
    rw [← List.cons_append, ← List.append_assoc] at hturns
    exact List.append_cancel_right hturns
  refine hout ((serial_of_play _ turn).2 e hin |>.resolve_right ?_)
  rw [after_append]
  exact Nat.ne_of_lt (Nat.lt_of_lt_of_le hserial (nextSerial_le_after _ _))

end World

/-- The removal of an entry takes out nothing else, if no other entry has its serial. -/
theorem lost_discard (h : s.Sound bound window)
    (hserial : ∀ e' ∈ s.entries, e'.serial = e.serial → e' = e) :
    ∀ e' ∈ s.lost (s.discard e), e' = e := by
  rw [discard]
  cases hfind : s.find? e.typeName with
  | none => simp [lost_self]
  | some present =>
    cases hsame : present.serial == e.serial with
    | false => simp [hsame, lost_self]
    | true =>
      have hpresent := hserial present (mem_of_find? hfind).1 (beq_iff_eq.1 hsame)
      simp [lost_remove_of_find? h hfind, hpresent]

open World

/-- **No fresh entry is lost to a stale decision.**  However the steps of any calls interleave in a
run from an empty store, it never holds more entries than it may; a look-up that takes something out
takes the entry that it looked up, which has not been put in since; what a sweep takes out is too
old at the reading that it took, and the count that it returns is that of the entries which it took
out itself; and a list that a look-up returns is that of the entry which it looked up.  A call that
is left alone from then on does what the operation does. -/
theorem no_fresh_entry_lost {maxEntries : Int} (hs : make? maxEntries window = .ok s)
    (turns : List Turn) (i : Nat) :
    let w := (start s).after turns
    w.store.size ≤ maxEntries.toNat ∧
    (∀ e, w.calls[i]? = some (.refused e) → ∃ since, (start s).LookedUp turns i e since ∧
      ∀ fileTime now, ∀ e' ∈ w.store.lost (w.play (.advance i fileTime now)).store,
        e' = e ∧ ¬ (start s).PutIn turns since e') ∧
    (∀ reading names count, w.calls[i]? = some (.removing reading names count) →
      (start s).ReadClock turns i reading ∧
      ∀ fileTime now, ∀ e' ∈ w.store.lost (w.play (.advance i fileTime now)).store,
        window.lt (reading.sub e'.cachedAt) = true) ∧
    (∀ count, w.calls[i]? = some (.swept count) → count = ((start s).takenOut i turns).length) ∧
    (∀ properties, w.calls[i]? = some (.answered (some properties)) →
      ∃ e since, (start s).LookedUp turns i e since ∧ e.properties = properties) ∧
    ∀ fileTime now (call : Call),
      Alone fileTime now (w.store, call.begin) (call.outcome w.store fileTime now) := by
  intro w
  have hsound := make?_sound hs
  have hw : w.store.Sound maxEntries.toNat window := sound_after hsound turns
  refine ⟨hw.bounded.size_le, ?_, ?_, ?_, ?_, alone_call w.store⟩
  · intro e hi
    obtain ⟨since, hlooked⟩ := explains_after hsound turns hi
    refine ⟨since, hlooked, ?_⟩
    intro fileTime now e' he'
    rw [play_advance hi] at he'
    obtain rfl := lost_discard hw (fun _ => hlooked.eq_of_serial hsound) e' he'
    exact ⟨rfl, hlooked.not_putIn hsound⟩
  · intro reading names count hi
    refine ⟨(explains_after hsound turns hi).1, ?_⟩
    intro fileTime now e' he'
    rw [play_advance hi] at he'
    cases names with
    | nil =>
      rw [Phase.advance, lost_self] at he'
      cases he'
    | cons name rest =>
      have hold := ((lost_removeStale hw reading name).1 e' he').2
      rwa [isExpired, hw.lifetime] at hold
  · intro count hi
    exact (explains_after hsound turns hi).symm
  · intro properties hi
    exact explains_after hsound turns hi

/-! ### A look-up and a sweep that are overtaken -/

def old : Entry := ⟨['A'], "a.cs".toList, [], .whole 1, .whole 0, 0⟩

/-- A look-up has refused the first entry, and a sweep has collected its name, when another one is
put in in its place. -/
def overtaken : List Turn :=
  [.begin (.set ['A'] "a.cs".toList []), .advance 0 (.ok (.whole 1)) (.whole 0),
   .advance 0 (.ok (.whole 1)) (.whole 0), .advance 0 (.ok (.whole 1)) (.whole 0),
   .begin (.get ['A'] "a.cs".toList), .advance 1 (.ok (.whole 2)) (.whole 18),
   .advance 1 (.ok (.whole 2)) (.whole 18),
   .begin .sweep, .advance 2 (.ok (.whole 2)) (.whole 20), .advance 2 (.ok (.whole 2)) (.whole 20),
   .begin (.set ['A'] "a.cs".toList []), .advance 3 (.ok (.whole 2)) (.whole 19),
   .advance 3 (.ok (.whole 2)) (.whole 19), .advance 3 (.ok (.whole 2)) (.whole 19)]

theorem no_fresh_entry_lost_overtaken :
    let w := (start pair).after overtaken
    make? 2 (.whole 10) = .ok pair ∧ w.store.entries.map (·.serial) = [1] ∧
      w.calls[1]? = some (.refused old) ∧
      w.calls[2]? = some (.removing (.whole 20) [['A']] 0) ∧
      ∀ fileTime now,
        (∀ e ∈ w.store.lost (w.play (.advance 1 fileTime now)).store, e = old) ∧
        ∀ e ∈ w.store.lost (w.play (.advance 2 fileTime now)).store,
          Number.lt (.whole 10) ((Number.whole 20).sub e.cachedAt) = true := by
  intro w
  have hpair : make? 2 (.whole 10) = .ok pair := rfl
  have hrefused : w.calls[1]? = some (.refused old) := rfl
  have hremoving : w.calls[2]? = some (.removing (.whole 20) [['A']] 0) := rfl
  obtain ⟨since, -, hdiscard⟩ := (no_fresh_entry_lost hpair overtaken 1).2.1 old hrefused
  have hsweep := ((no_fresh_entry_lost hpair overtaken 2).2.2.1 _ _ _ hremoving).2
  refine ⟨hpair, rfl, hrefused, hremoving, ?_⟩
  intro fileTime now
  refine ⟨?_, hsweep fileTime now⟩
  intro e he
  exact (hdiscard fileTime now e he).1

end RazorViews.Store
