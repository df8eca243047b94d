import RazorViews.Extraction
import RazorViews.Proofs.Cache.History

/-!
# Extractions that race with edits

Any number of calls extract the same class from the same file, through one store and without
exclusion, while the file is being written.  A call looks its type up, asks for the time of the file
to judge the entry, and on a miss reads the file, scans it, asks for the time again and puts its
list in under that time.  Each of these is a step of its own (`Stage.advance`), and a run is any
sequence of steps of any calls and of writes.

## What is proved

A later look-up judges an entry by the time that was asked for *behind* the reading.  If the file is
written in between, the entry carries the list of the old content under the time of the new one, and
no later call can tell.  So whether all calls that begin after the last write answer with what the
file holds is a matter of what is stored, and of what calls on their way will store, at that moment.
`late_calls_current_iff` has three parts.

* All such calls are right (`Current`) exactly if every list that is stored, or that a call is about
  to store, is what the file has to say or has too early a time to be served (`Harmless`).
* That is so if no write comes between the reading and the second asking of one call, and each gives
  the file a later time (`Clean`).
* A call that is left alone does what an extraction from the file does (`IsExtraction`), so the
  steps are the steps of that.

`lasting_stale_list` is a run with one such write, behind which every call answers with the old
list.

## The hypotheses

The clock gives some readings, of any number, between which no entry outlives its time: an entry
that is dropped for its age would be read anew, and hide what is wrong with it.  Times of the file
are compared as the store compares them, and nothing is assumed of these comparisons but, where runs
are clean, that they are transitive.

## What it is not

Calls of other types and files have no part in these runs.  Which lists they may be served is said
in `transparent_iff`, and what interleaved calls do to the entries of a store in
`no_fresh_entry_lost`.

## The proof

What is on offer after a step without a write was on offer before, or is what the file has to say
(`Offers.of_play`), so a harmless world stays harmless and late calls come upon nothing false
(`Harmless.current`).  For the converse a list on offer is driven into the answer of a late call: at
once if it is stored already (`Current.says_of_find?`), else when the call that has it has put it in
(`Current.says_of_pending`).
-/

namespace RazorViews.Extraction

/-- A file at some moment. -/
structure Revision where
  bytes : List UInt8
  time : Number

/-- What the calls have in common. -/
structure Race where
  skipIdentity : Bool
  typeName : Text
  className : Text
  path : Text

/-- What a content has to say. -/
def Race.scan (r : Race) (bytes : List UInt8) : Except Failure (List Property) :=
  (Property.extract r.skipIdentity (sourceOfBytes bytes) r.className).2

/-- The list is what a file has to say. -/
def Race.Says (r : Race) (file : Revision) (properties : List Property) : Prop :=
  r.scan file.bytes = .ok properties

/-! ## The steps of a call -/

/-- How far a call has come. -/
inductive Stage where
  | called
  | found (e : Entry)
  | refused (e : Entry)
  | missed
  | loaded (bytes : List UInt8)
  | scanned (properties : List Property)
  | stamped (properties : List Property) (modified : Number)
  | done (result : Except Failure (List Property))

/-- The next step of a call, at a reading of the clock: what it leaves in the store, and how far the
call has come then. -/
def Stage.advance (r : Race) (s : Store) (file : Revision) (now : Number) : Stage → Store × Stage
  | called =>
    match s.find? r.typeName with
    | some e => (s, found e)
    | none => (s, missed)
  | found e =>
    match s.dropReason? e r.path (.ok file.time) now with
    | none => (s, done (.ok e.properties))
    | some _ => (s, refused e)
  | refused e => (s.discard e, missed)
  | missed => (s, loaded file.bytes)
  | loaded bytes =>
    match r.scan bytes with
    | .ok properties => (s, scanned properties)
    | .error failure => (s, done (.error failure))
  | scanned properties => (s, stamped properties file.time)
  | stamped properties modified =>
    ((s.insert r.typeName r.path properties modified now).1, done (.ok properties))
  | done result => (s, done result)

section Advance

variable {r : Race} {s : Store} {file : Revision} {now : Number} {e : Entry}

theorem advance_called_of_none (h : s.find? r.typeName = none) :
    Stage.called.advance r s file now = (s, .missed) := by
  simp only [Stage.advance, h]

theorem advance_called_of_some (h : s.find? r.typeName = some e) :
    Stage.called.advance r s file now = (s, .found e) := by
  simp only [Stage.advance, h]

theorem advance_found_of_none (h : s.dropReason? e r.path (.ok file.time) now = none) :
    (Stage.found e).advance r s file now = (s, .done (.ok e.properties)) := by
  simp only [Stage.advance, h]

theorem advance_found_of_some {event : Event}
    (h : s.dropReason? e r.path (.ok file.time) now = some event) :
    (Stage.found e).advance r s file now = (s, .refused e) := by
  simp only [Stage.advance, h]

theorem advance_loaded_of_ok {bytes : List UInt8} {properties : List Property}
    (h : r.scan bytes = .ok properties) :
    (Stage.loaded bytes).advance r s file now = (s, .scanned properties) := by
  simp only [Stage.advance, h]

theorem advance_loaded_of_error {bytes : List UInt8} {failure : Failure}
    (h : r.scan bytes = .error failure) :
    (Stage.loaded bytes).advance r s file now = (s, .done (.error failure)) := by
  simp only [Stage.advance, h]

end Advance

/-- A call that is left alone for some steps. -/
def Stage.steps (r : Race) (file : Revision) (now : Number) : Nat → Store × Stage → Store × Stage
  | 0, p => p
  | n + 1, p => steps r file now n (p.2.advance r p.1 file now)

section Alone

variable {r : Race} {revision : Revision} {now : Number}

theorem steps_add (m n : Nat) (p : Store × Stage) :
    Stage.steps r revision now (m + n) p =
      Stage.steps r revision now n (Stage.steps r revision now m p) := by
  induction m generalizing p with
  | zero => rw [Nat.zero_add, Stage.steps]
  | succ m ih => rw [Nat.succ_add, Stage.steps, Stage.steps, ih]

theorem steps_one (s : Store) (stage : Stage) :
    Stage.steps r revision now 1 (s, stage) = stage.advance r s revision now := rfl

theorem steps_done (n : Nat) (s : Store) (result : Except Failure (List Property)) :
    Stage.steps r revision now n (s, .done result) = (s, .done result) := by
  induction n with
  | zero => rfl
  | succ n ih => exact ih

theorem steps_of_served {s : Store} {e : Entry} (hfind : s.find? r.typeName = some e)
    (hserve : s.dropReason? e r.path (.ok revision.time) now = none) :
    Stage.steps r revision now 7 (s, .called) = (s, .done (.ok e.properties)) := by
  have hlookup : Stage.steps r revision now 1 (s, .called) = (s, .found e) :=
    (steps_one s .called).trans (advance_called_of_some hfind)
  have hreturn : Stage.steps r revision now 1 (s, .found e) = (s, .done (.ok e.properties)) :=
    (steps_one s (.found e)).trans (advance_found_of_none hserve)
  rw [steps_add 1 6, hlookup, steps_add 1 5, hreturn, steps_done]

variable {settings : SearchSettings} {around : Surroundings} {typeName className : Text}
  {file : Path}

/-- From a miss on, a call that is left alone does what a scan of the file does. -/
theorem steps_missed (hbytes : around.tree.contents file = .ok revision.bytes)
    (htime : around.timeOf file.toText = .ok revision.time) (s : Store) :
    Stage.steps ⟨settings.skipIdentity, typeName, className, file.toText⟩ revision around.now 4
        (s, .missed) =
      ((scanFile settings around s typeName className file).1,
        .done (scanFile settings around s typeName className file).2.2) := by
  rw [scanFile, readSource, hbytes]
  simp only [Stage.steps, Stage.advance, Race.scan]
  cases Property.extract settings.skipIdentity (sourceOfBytes revision.bytes) className with
  | mk events result =>
    cases result with
    | error failure => rfl
    | ok properties =>
      rw [htime]
      rfl

/-- A call that is left alone does what an extraction from the file does: `around` says what the
file holds and what time it has, and what the clock says. -/
def Race.IsExtraction (r : Race) : Prop :=
  ∀ (settings : SearchSettings) (around : Surroundings) (file : Path) (revision : Revision)
    (s : Store),
    settings.skipIdentity = r.skipIdentity → file.toText = r.path →
    around.tree.contents file = .ok revision.bytes →
    around.timeOf file.toText = .ok revision.time →
    Stage.steps r revision around.now 7 (s, .called) =
      ((fromFile settings around s r.typeName r.className file).1,
        .done (fromFile settings around s r.typeName r.className file).2.2)

theorem isExtraction (r : Race) : r.IsExtraction := by
  intro settings around file revision s hskip hpath hbytes htime
  obtain ⟨skipIdentity, typeName, className, path⟩ := r
  obtain rfl : settings.skipIdentity = skipIdentity := hskip
  obtain rfl : file.toText = path := hpath
  let r : Race := ⟨settings.skipIdentity, typeName, className, file.toText⟩
  rw [fromFile, htime]
  cases hfind : s.find? typeName with
  | none =>
    have hlookup : Stage.steps r revision around.now 1 (s, .called) = (s, .missed) :=
      (steps_one s .called).trans (advance_called_of_none hfind)
    rw [steps_add 1 6, hlookup, steps_add 4 2, steps_missed hbytes htime, steps_done]
    simp only [Store.get, hfind]
  | some e =>
    cases hdrop : s.dropReason? e file.toText (.ok revision.time) around.now with
    | none =>
      rw [steps_of_served hfind hdrop]
      simp only [Store.get, hfind, hdrop]
    | some event =>
      have hlookup : Stage.steps r revision around.now 1 (s, .called) = (s, .found e) :=
        (steps_one s .called).trans (advance_called_of_some hfind)
      have hrefuse : Stage.steps r revision around.now 1 (s, .found e) = (s, .refused e) :=
        (steps_one s (.found e)).trans (advance_found_of_some hdrop)
      have hdiscard : Stage.steps r revision around.now 1 (s, .refused e) =
          (s.discard e, .missed) := rfl
      rw [steps_add 1 6, hlookup, steps_add 1 5, hrefuse, steps_add 1 4, hdiscard,
        steps_missed hbytes htime]
      simp only [Store.get, hfind, hdrop]

end Alone

/-- The steps that a call still has to take at most. -/
def Stage.left : Stage → Nat
  | called => 7
  | found _ => 6
  | refused _ => 5
  | missed => 4
  | loaded _ => 3
  | scanned _ => 2
  | stamped _ _ => 1
  | done _ => 0

theorem left_advance (r : Race) (s : Store) (file : Revision) (now : Number) (stage : Stage) :
    (stage.advance r s file now).2.left ≤ stage.left - 1 := by
  cases stage with
  | called =>
    cases hfind : s.find? r.typeName with
    | none => simp [advance_called_of_none hfind, Stage.left]
    | some e => simp [advance_called_of_some hfind, Stage.left]
  | found e =>
    cases hdrop : s.dropReason? e r.path (.ok file.time) now with
    | none => simp [advance_found_of_none hdrop, Stage.left]
    | some event => simp [advance_found_of_some hdrop, Stage.left]
  | loaded bytes =>
    cases hscan : r.scan bytes with
    | error failure => simp [advance_loaded_of_error hscan, Stage.left]
    | ok properties => simp [advance_loaded_of_ok hscan, Stage.left]
  | refused | missed | scanned | stamped | done => simp [Stage.advance, Stage.left]

theorem exists_eq_done {stage : Stage} (h : stage.left = 0) : ∃ result, stage = .done result := by
  cases stage with
  | done result => exact ⟨result, rfl⟩
  | called | found | refused | missed | loaded | scanned | stamped => cases h

/-! ## What a call is going to put in -/

/-- The list that a call is going to put in, and the time that it will have if the file stays as it
is. -/
def Stage.pending (r : Race) (file : Revision) : Stage → Option (List Property × Number)
  | loaded bytes => (r.scan bytes).toOption.map (·, file.time)
  | scanned properties => some (properties, file.time)
  | stamped properties modified => some (properties, modified)
  | _ => none

section Pending

variable {r : Race} {s : Store} {file : Revision} {now : Number} {stage : Stage}
  {properties : List Property} {modified : Number}

/-- A step brings in no list but the one that the file has to say now. -/
theorem pending_advance
    (h : (stage.advance r s file now).2.pending r file = some (properties, modified)) :
    stage.pending r file = some (properties, modified) ∨
      r.Says file properties ∧ modified = file.time := by
  cases stage with
  | called =>
    cases hfind : s.find? r.typeName with
    | none =>
      rw [advance_called_of_none hfind] at h
      cases h
    | some e =>
      rw [advance_called_of_some hfind] at h
      cases h
  | found e =>
    cases hdrop : s.dropReason? e r.path (.ok file.time) now with
    | none =>
      rw [advance_found_of_none hdrop] at h
      cases h
    | some event =>
      rw [advance_found_of_some hdrop] at h
      cases h
  | missed =>
    have hpending : (r.scan file.bytes).toOption.map (·, file.time) =
        some (properties, modified) := h
    cases hscan : r.scan file.bytes with
    | error failure =>
      rw [hscan] at hpending
      cases hpending
    | ok ps =>
      rw [hscan] at hpending
      obtain ⟨rfl, rfl⟩ := Prod.mk.inj (Option.some.inj hpending)
      exact .inr ⟨hscan, rfl⟩
  | loaded bytes =>
    cases hscan : r.scan bytes with
    | error failure =>
      rw [advance_loaded_of_error hscan] at h
      cases h
    | ok ps =>
      rw [advance_loaded_of_ok hscan] at h
      rw [Stage.pending, hscan]
      exact .inl h
  | scanned ps => exact .inl h
  | refused | stamped | done => cases h

/-- A step leaves the store alone, or takes an entry out, or puts the list of its call in. -/
theorem store_advance (r : Race) (s : Store) (file : Revision) (now : Number) (stage : Stage) :
    (stage.advance r s file now).1 = s ∨
      (∃ e, (stage.advance r s file now).1 = s.discard e) ∨
        ∃ properties modified, stage = .stamped properties modified ∧
          (stage.advance r s file now).1 =
            (s.insert r.typeName r.path properties modified now).1 := by
  cases stage with
  | called =>
    cases hfind : s.find? r.typeName with
    | none => exact .inl (by rw [advance_called_of_none hfind])
    | some e => exact .inl (by rw [advance_called_of_some hfind])
  | found e =>
    cases hdrop : s.dropReason? e r.path (.ok file.time) now with
    | none => exact .inl (by rw [advance_found_of_none hdrop])
    | some event => exact .inl (by rw [advance_found_of_some hdrop])
  | refused e => exact .inr (.inl ⟨e, rfl⟩)
  | loaded bytes =>
    cases hscan : r.scan bytes with
    | error failure => exact .inl (by rw [advance_loaded_of_error hscan])
    | ok properties => exact .inl (by rw [advance_loaded_of_ok hscan])
  | stamped properties modified => exact .inr (.inr ⟨properties, modified, rfl, rfl⟩)
  | missed | scanned | done => exact .inl rfl

/-- A step stores no list but the one that its call has been going to put in. -/
theorem find?_advance {e : Entry} (h : (stage.advance r s file now).1.find? r.typeName = some e) :
    s.find? r.typeName = some e ∨ stage.pending r file = some (e.properties, e.modified) := by
  rcases store_advance r s file now stage with hs | ⟨dropped, hs⟩ | ⟨ps, m, rfl, hs⟩
  · rw [hs] at h
    exact .inl h
  · rw [hs] at h
    exact .inl (Store.find?_of_discard h)
  · rw [hs, Store.find?_insert] at h
    obtain rfl := Option.some.inj h
    exact .inr rfl

end Pending

/-! ## What a call has come upon -/

/-- A call has found, read or returned nothing that misleads it about the file. -/
def Stage.Faithful (r : Race) (file : Revision) : Stage → Prop
  | found e => e.modified.lt file.time = false → r.Says file e.properties
  | loaded bytes => bytes = file.bytes
  | scanned properties => r.Says file properties
  | stamped properties _ => r.Says file properties
  | done result => result = r.scan file.bytes
  | _ => True

theorem Stage.Faithful.advance {r : Race} {s : Store} {file : Revision} {stage : Stage}
    (h : stage.Faithful r file) (now : Number)
    (hstore : ∀ e, s.find? r.typeName = some e → e.modified.lt file.time = false →
      r.Says file e.properties) :
    (stage.advance r s file now).2.Faithful r file := by
  cases stage with
  | called =>
    cases hfind : s.find? r.typeName with
    | none => rw [advance_called_of_none hfind]; trivial
    | some e =>
      rw [advance_called_of_some hfind]
      exact hstore e hfind
  | found e =>
    cases hdrop : s.dropReason? e r.path (.ok file.time) now with
    | none =>
      rw [advance_found_of_none hdrop]
      obtain ⟨m, hm, hlt, -⟩ := Store.dropReason?_eq_none_iff.1 hdrop
      obtain rfl := Except.ok.inj hm
      exact (h hlt).symm
    | some event => rw [advance_found_of_some hdrop]; trivial
  | refused e => trivial
  | missed => exact rfl
  | loaded bytes =>
    obtain rfl : bytes = file.bytes := h
    cases hscan : r.scan file.bytes with
    | error failure =>
      rw [advance_loaded_of_error hscan]
      exact hscan.symm
    | ok ps =>
      rw [advance_loaded_of_ok hscan]
      exact hscan
  | scanned ps => exact h
  | stamped ps m => exact Eq.symm h
  | done result => exact h

/-! ## Runs -/

/-- The store and the file, and the calls in the order in which they have begun. -/
structure World where
  store : Store
  file : Revision
  calls : List Stage

/-- What happens next: a call begins, the file is written, or a call takes a step. -/
inductive Turn where
  | begin
  | write (file : Revision)
  | advance (i : Nat) (now : Number)

namespace Turn

def Quiet : Turn → Prop
  | write _ => False
  | _ => True

/-- The clock, if it is asked, gives one of some readings. -/
def Reads (readings : Number → Prop) : Turn → Prop
  | advance _ now => readings now
  | _ => True

def isStepOf (i : Nat) : Turn → Bool
  | advance j _ => i == j
  | _ => false

end Turn

namespace World

def start (s : Store) (file : Revision) : World := ⟨s, file, []⟩

def play (r : Race) (w : World) : Turn → World
  | .begin => { w with calls := w.calls ++ [.called] }
  | .write file => { w with file }
  | .advance i now =>
    match w.calls[i]? with
    | none => w
    | some stage =>
      let (store, stage) := stage.advance r w.store w.file now
      ⟨store, w.file, w.calls.set i stage⟩

def after (r : Race) (w : World) (turns : List Turn) : World := turns.foldl (play r) w

variable {r : Race} {w : World} {t : Turn} {turns : List Turn} {i : Nat} {now : Number}
  {stage : Stage}

theorem play_advance (h : w.calls[i]? = some stage) : w.play r (.advance i now) =
    ⟨(stage.advance r w.store w.file now).1, w.file,
      w.calls.set i (stage.advance r w.store w.file now).2⟩ := by
  simp only [play, h]

theorem play_advance_of_none (h : w.calls[i]? = none) : w.play r (.advance i now) = w := by
  simp only [play, h]

theorem after_append (w : World) (turns more : List Turn) :
    w.after r (turns ++ more) = (w.after r turns).after r more :=
  List.foldl_append

theorem file_play (h : t.Quiet) : (w.play r t).file = w.file := by
  cases t with
  | begin => rfl
  | write file => exact absurd h id
  | advance i now =>
    cases hi : w.calls[i]? with
    | none => rw [play_advance_of_none hi]
    | some stage => rw [play_advance hi]

theorem length_play (w : World) (t : Turn) : w.calls.length ≤ (w.play r t).calls.length := by
  cases t with
  | begin => simp [play]
  | write file => exact Nat.le_refl _
  | advance i now =>
    cases hi : w.calls[i]? with
    | none => exact Nat.le_of_eq (by rw [play_advance_of_none hi])
    | some stage => simp [play_advance hi]

/-- What a turn makes of a call that is on its way. -/
theorem getElem?_play (h : w.calls[i]? = some stage) (t : Turn) :
    (∃ now, t = .advance i now ∧
      (w.play r t).calls[i]? = some (stage.advance r w.store w.file now).2) ∨
    t.isStepOf i = false ∧ (w.play r t).calls[i]? = some stage := by
  obtain ⟨hlt, hget⟩ := List.getElem?_eq_some_iff.1 h
  cases t with
  | begin => exact .inr ⟨rfl, (List.getElem?_append_left hlt).trans h⟩
  | write file => exact .inr ⟨rfl, h⟩
  | advance j now =>
    by_cases hij : i = j
    · subst hij
      refine .inl ⟨now, rfl, ?_⟩
      rw [play_advance h]
      exact List.getElem?_set_self hlt
    · refine .inr ⟨beq_false_of_ne hij, ?_⟩
      cases hj : w.calls[j]? with
      | none => rw [play_advance_of_none hj, h]
      | some other =>
        rw [play_advance hj]
        exact (List.getElem?_set_ne (Ne.symm hij)).trans h

/-- A call comes nearer to its end with each of its steps, whatever happens between them. -/
theorem left_after (h : w.calls[i]? = some stage) (turns : List Turn) :
    ∃ last, (w.after r turns).calls[i]? = some last ∧
      last.left ≤ stage.left - turns.countP (·.isStepOf i) := by
  induction turns generalizing w stage with
  | nil => exact ⟨stage, h, Nat.le_refl _⟩
  | cons t turns ih =>
    rcases getElem?_play (r := r) h t with ⟨now, rfl, hplay⟩ | ⟨hother, hplay⟩
    · obtain ⟨last, hlast, hleft⟩ := ih hplay
      have hstep := left_advance r w.store w.file now stage
      refine ⟨last, hlast, ?_⟩
      rw [List.countP_cons_of_pos (by simp [Turn.isStepOf])]
      omega
    · obtain ⟨last, hlast, hleft⟩ := ih hplay
      refine ⟨last, hlast, ?_⟩
      rw [List.countP_cons_of_neg (by simp [hother])]
      exact hleft

/-! ## What is stored, or on its way into the store -/

/-- The list is stored under the time, or a call is going to put it in under that time. -/
def Offers (r : Race) (w : World) (properties : List Property) (modified : Number) : Prop :=
  (∃ e, w.store.find? r.typeName = some e ∧ e.properties = properties ∧ e.modified = modified) ∨
    ∃ stage ∈ w.calls, stage.pending r w.file = some (properties, modified)

variable {properties : List Property} {modified : Number}

/-- While the file stays as it is, nothing is on offer but what has been, and what it has to say. -/
theorem Offers.of_play (ht : t.Quiet) (h : (w.play r t).Offers r properties modified) :
    w.Offers r properties modified ∨ r.Says w.file properties ∧ modified = w.file.time := by
  cases t with
  | begin =>
    rcases h with h | ⟨stage, hmem, hpending⟩
    · exact .inl (.inl h)
    · rcases List.mem_append.1 hmem with hmem | hmem
      · exact .inl (.inr ⟨stage, hmem, hpending⟩)
      · obtain rfl := List.mem_singleton.1 hmem
        cases hpending
  | write file => exact absurd ht id
  | advance i now =>
    cases hi : w.calls[i]? with
    | none =>
      rw [play_advance_of_none hi] at h
      exact .inl h
    | some stage =>
      have hstage := List.mem_of_getElem? hi
      rw [play_advance hi] at h
      rcases h with ⟨e, hfind, rfl, rfl⟩ | ⟨other, hmem, hpending⟩
      · rcases find?_advance hfind with hfind | hpending
        · exact .inl (.inl ⟨e, hfind, rfl, rfl⟩)
        · exact .inl (.inr ⟨stage, hstage, hpending⟩)
      · rcases List.mem_or_eq_of_mem_set hmem with hmem | rfl
        · exact .inl (.inr ⟨other, hmem, hpending⟩)
        · rcases pending_advance hpending with hpending | hsaid
          · exact .inl (.inr ⟨stage, hstage, hpending⟩)
          · exact .inr hsaid

/-- Every list on offer is what the file has to say, or has too early a time to be served. -/
def Harmless (r : Race) (w : World) : Prop :=
  ∀ properties modified, w.Offers r properties modified → modified.lt w.file.time = false →
    r.Says w.file properties

theorem Harmless.play (h : w.Harmless r) (ht : t.Quiet) : (w.play r t).Harmless r := by
  intro properties modified hoffers hlt
  rw [file_play ht] at hlt ⊢
  rcases hoffers.of_play ht with hoffers | ⟨hsaid, -⟩
  · exact h properties modified hoffers hlt
  · exact hsaid

/-! ## Calls that begin late -/

/-- All calls from an index on are faithful. -/
def FaithfulFrom (r : Race) (k : Nat) (w : World) : Prop :=
  ∀ i stage, k ≤ i → w.calls[i]? = some stage → stage.Faithful r w.file

theorem FaithfulFrom.play {k : Nat} (h : w.FaithfulFrom r k) (hharmless : w.Harmless r)
    (ht : t.Quiet) : (w.play r t).FaithfulFrom r k := by
  intro i stage hk hi
  rw [file_play ht]
  cases hold : w.calls[i]? with
  | none =>
    cases t with
    | begin =>
      have hlen := List.getElem?_eq_none_iff.1 hold
      rw [play, List.getElem?_append_right hlen] at hi
      obtain rfl := List.mem_singleton.1 (List.mem_of_getElem? hi)
      trivial
    | write file => exact absurd ht id
    | advance j now =>
      have hlen := List.getElem?_eq_none_iff.1 hold
      cases hj : w.calls[j]? with
      | none =>
        rw [play_advance_of_none hj, hold] at hi
        cases hi
      | some other =>
        rw [play_advance hj] at hi
        have hlt := (List.getElem?_eq_some_iff.1 hi).1
        rw [List.length_set] at hlt
        exact absurd hlen (Nat.not_le.2 hlt)
  | some before =>
    have hbefore := h i before hk hold
    rcases getElem?_play (r := r) hold t with ⟨now, rfl, hplay⟩ | ⟨-, hplay⟩
    · obtain rfl := Option.some.inj (hplay.symm.trans hi)
      refine hbefore.advance now ?_
      intro e hfind hlt
      exact hharmless e.properties e.modified (.inl ⟨e, hfind, rfl, rfl⟩) hlt
    · obtain rfl := Option.some.inj (hplay.symm.trans hi)
      exact hbefore

theorem FaithfulFrom.after {k : Nat} (h : w.FaithfulFrom r k) (hharmless : w.Harmless r)
    (hturns : ∀ t ∈ turns, t.Quiet) :
    (w.after r turns).FaithfulFrom r k ∧ (w.after r turns).file = w.file := by
  induction turns generalizing w with
  | nil => exact ⟨h, rfl⟩
  | cons t turns ih =>
    have ht := hturns t List.mem_cons_self
    obtain ⟨hfaithful, hfile⟩ := ih (h.play hharmless ht) (hharmless.play ht)
      fun t' ht' => hturns t' (List.mem_cons_of_mem t ht')
    exact ⟨hfaithful, hfile.trans (file_play ht)⟩

/-! ## Which runs can go on well -/

/-- However the run goes on without a write, a call that begins from now on has returned what the
file has to say once it has taken its seven steps. -/
def Current (r : Race) (readings : Number → Prop) (w : World) : Prop :=
  ∀ before turns, (∀ t ∈ before ++ turns, t.Quiet ∧ t.Reads readings) →
    ∀ i, w.calls.length ≤ i → i < (w.after r before).calls.length →
      7 ≤ turns.countP (·.isStepOf i) →
        (w.after r (before ++ turns)).calls[i]? = some (.done (r.scan w.file.bytes))

variable {readings : Number → Prop}

theorem Harmless.current (h : w.Harmless r) : w.Current r readings := by
  intro before turns hturns i hi hbegun hsteps
  have hnone : w.FaithfulFrom r w.calls.length := by
    intro j stage hj hstage
    rw [List.getElem?_eq_none_iff.2 hj] at hstage
    cases hstage
  obtain ⟨hfaithful, hfile⟩ := hnone.after h fun t ht => (hturns t ht).1
  obtain ⟨last, hlast, hleft⟩ := left_after (r := r) (List.getElem?_eq_getElem hbegun) turns
  have hfresh : ∀ stage : Stage, stage.left ≤ 7 := by
    intro stage
    cases stage <;> simp [Stage.left]
  have hdone : last.left = 0 := by
    have := hfresh (w.after r before).calls[i]
    omega
  obtain ⟨result, rfl⟩ := exists_eq_done hdone
  rw [← after_append] at hlast
  have hresult := hfaithful i (.done result) hi hlast
  rw [hfile] at hresult
  obtain rfl : result = r.scan w.file.bytes := hresult
  exact hlast

theorem Current.play (h : w.Current r readings) (ht : t.Quiet) (hreads : t.Reads readings) :
    (w.play r t).Current r readings := by
  intro before turns hturns i hi hbegun hsteps
  rw [file_play ht]
  refine h (t :: before) turns ?_ i (Nat.le_trans (length_play w t) hi) hbegun hsteps
  intro t' ht'
  rcases List.mem_cons.1 ht' with rfl | ht'
  · exact ⟨ht, hreads⟩
  · exact hturns t' ht'

/-- A call that takes some steps in a row. -/
theorem after_replicate (h : w.calls[i]? = some stage) (n : Nat) :
    (w.after r (List.replicate n (.advance i now))).calls[i]? =
      some (Stage.steps r w.file now n (w.store, stage)).2 := by
  induction n generalizing w stage with
  | zero => exact h
  | succ n ih =>
    have hlt := (List.getElem?_eq_some_iff.1 h).1
    rw [List.replicate_succ, after, List.foldl_cons, play_advance h]
    exact ih (List.getElem?_set_self hlt)

/-- A new call is served what is stored, if the time of the file is not later. -/
theorem Current.says_of_find? (h : w.Current r readings) (hnow : readings now) {e : Entry}
    (hfind : w.store.find? r.typeName = some e) (hlt : e.modified.lt w.file.time = false)
    (hage : w.store.isExpired now e = false) : r.Says w.file e.properties := by
  let k := w.calls.length
  have hserve : w.store.dropReason? e r.path (.ok w.file.time) now = none :=
    Store.dropReason?_eq_none_iff.2 ⟨w.file.time, rfl, hlt, hage⟩
  have hbegun : (w.play r .begin).calls[k]? = some .called := by
    simp [World.play, k]
  have hrun : ((w.play r .begin).after r (List.replicate 7 (.advance k now))).calls[k]? =
      some (Stage.steps r w.file now 7 (w.store, .called)).2 := after_replicate hbegun 7
  rw [steps_of_served hfind hserve] at hrun
  have hreturn := h [.begin] (List.replicate 7 (.advance k now)) ?_ k (Nat.le_refl k) ?_ ?_
  · exact (Stage.done.inj (Option.some.inj (hrun.symm.trans hreturn))).symm
  · intro t ht
    rcases List.mem_append.1 ht with ht | ht
    · obtain rfl := List.mem_singleton.1 ht
      exact ⟨trivial, trivial⟩
    · obtain rfl := List.eq_of_mem_replicate ht
      exact ⟨trivial, hnow⟩
  · simp [World.after, World.play, k]
  · simp [Turn.isStepOf]

/-- The store keeps its lifetime, and its entries have been put in at some of the readings. -/
def Timed (lifetime : Number) (readings : Number → Prop) (w : World) : Prop :=
  w.store.lifetime = lifetime ∧ ∀ e ∈ w.store.entries, readings e.cachedAt

theorem Timed.play {lifetime : Number} (h : w.Timed lifetime readings) (ht : t.Reads readings) :
    (w.play r t).Timed lifetime readings := by
  obtain ⟨hlifetime, hentries⟩ := h
  cases t with
  | begin | write => exact ⟨hlifetime, hentries⟩
  | advance i now =>
    cases hi : w.calls[i]? with
    | none =>
      rw [play_advance_of_none hi]
      exact ⟨hlifetime, hentries⟩
    | some stage =>
      rw [play_advance hi, Timed]
      rcases store_advance r w.store w.file now stage with hs | ⟨e, hs⟩ | ⟨ps, m, -, hs⟩
      · rw [hs]
        exact ⟨hlifetime, hentries⟩
      · rw [hs]
        have hshrinks := Store.shrinks_discard w.store e
        exact ⟨hshrinks.lifetime.trans hlifetime, fun e' he' => hentries e' (hshrinks.subset he')⟩
      · rw [hs]
        refine ⟨(Store.lifetime_insert _ _ _ _ _ _).trans hlifetime, ?_⟩
        intro e he
        rcases Store.mem_insert he with he | rfl
        · exact hentries e he
        · exact ht

theorem Timed.after {lifetime : Number} (h : w.Timed lifetime readings)
    (hturns : ∀ t ∈ turns, t.Reads readings) : (w.after r turns).Timed lifetime readings := by
  induction turns generalizing w with
  | nil => exact h
  | cons t turns ih =>
    exact ih (h.play (hturns t List.mem_cons_self)) fun t' ht' =>
      hturns t' (List.mem_cons_of_mem t ht')

section Pending

variable {lifetime : Number}

theorem Current.says_of_stamped (h : w.Current r readings) (htimed : w.Timed lifetime readings)
    (hlive : ∀ a b, readings a → readings b → lifetime.lt (b.sub a) = false) (hnow : readings now)
    (hi : w.calls[i]? = some (.stamped properties modified))
    (hlt : modified.lt w.file.time = false) : r.Says w.file properties := by
  let new : Entry := ⟨r.typeName, r.path, properties, modified, now, w.store.nextSerial⟩
  have hnext : (w.play r (.advance i now)).Current r readings := h.play trivial hnow
  have hstore : (w.play r (.advance i now)).store =
      (w.store.insert r.typeName r.path properties modified now).1 := by
    rw [play_advance hi]
    rfl
  have hfile : (w.play r (.advance i now)).file = w.file := file_play trivial
  have hfind : (w.play r (.advance i now)).store.find? r.typeName = some new := by
    rw [hstore]
    exact Store.find?_insert w.store r.typeName r.path properties modified now
  have hage : (w.play r (.advance i now)).store.isExpired now new = false := by
    rw [hstore, Store.isExpired, Store.lifetime_insert, htimed.1]
    exact hlive now now hnow hnow
  have hsaid := hnext.says_of_find? hnow hfind (by rw [hfile]; exact hlt) hage
  rw [hfile] at hsaid
  exact hsaid

/-- The step of a call that has not stamped its list yet keeps what it is going to put in. -/
theorem pending_advance_of_pending (s : Store) {file : Revision} (now : Number)
    (h : stage.pending r file = some (properties, modified)) :
    stage = .stamped properties modified ∨
      (stage.advance r s file now).2.pending r file = some (properties, modified) ∧
        (stage.advance r s file now).2.left < stage.left := by
  cases stage with
  | loaded bytes =>
    rw [Stage.pending] at h
    cases hscan : r.scan bytes with
    | error failure =>
      rw [hscan] at h
      cases h
    | ok ps =>
      rw [hscan] at h
      rw [advance_loaded_of_ok hscan]
      exact .inr ⟨h, Nat.lt_succ_self 2⟩
  | scanned ps => exact .inr ⟨h, Nat.lt_succ_self 1⟩
  | stamped ps m =>
    obtain ⟨rfl, rfl⟩ := Prod.mk.inj (Option.some.inj h)
    exact .inl rfl
  | called | found | refused | missed | done => cases h

/-- What a call is going to put in is served to a later one. -/
theorem Current.says_of_pending (h : w.Current r readings) (htimed : w.Timed lifetime readings)
    (hlive : ∀ a b, readings a → readings b → lifetime.lt (b.sub a) = false) (hnow : readings now)
    (hi : w.calls[i]? = some stage)
    (hpending : stage.pending r w.file = some (properties, modified))
    (hlt : modified.lt w.file.time = false) : r.Says w.file properties := by
  induction hleft : stage.left using Nat.strongRecOn generalizing w stage with
  | ind n ih =>
    rcases pending_advance_of_pending w.store now hpending with rfl | ⟨hnext, hless⟩
    · exact h.says_of_stamped htimed hlive hnow hi hlt
    · have hfile : (w.play r (.advance i now)).file = w.file := file_play trivial
      have hcall : (w.play r (.advance i now)).calls[i]? =
          some (stage.advance r w.store w.file now).2 := by
        rw [play_advance hi]
        exact List.getElem?_set_self (List.getElem?_eq_some_iff.1 hi).1
      rw [hleft] at hless
      rw [← hfile] at hlt ⊢
      refine ih _ hless (h.play trivial hnow) (htimed.play hnow) hcall ?_ hlt rfl
      rw [hfile]
      exact hnext

end Pending

end World

/-! ## Writes that come between no reading and its asking -/

/-- A call has read the file and has not asked for its time yet. -/
def Stage.Between : Stage → Prop
  | loaded _ => True
  | scanned _ => True
  | _ => False

/-- A write gives the file a later time, and finds no call between reading and asking. -/
def Turn.Clean (times : Number → Prop) (w : World) : Turn → Prop
  | write file =>
    times file.time ∧ w.file.time.lt file.time = true ∧ ∀ stage ∈ w.calls, ¬ stage.Between
  | _ => True

namespace World

/-- All writes of a run are clean. -/
def Clean (r : Race) (times : Number → Prop) : World → List Turn → Prop
  | _, [] => True
  | w, t :: turns => t.Clean times w ∧ Clean r times (w.play r t) turns

/-- Every list on offer is what the file has to say, under its time, or has an earlier time. -/
def Dated (r : Race) (times : Number → Prop) (w : World) : Prop :=
  times w.file.time ∧ ∀ properties modified, w.Offers r properties modified → times modified ∧
    (modified.lt w.file.time = true ∨ r.Says w.file properties ∧ modified = w.file.time)

variable {r : Race} {w : World} {t : Turn} {turns : List Turn} {properties : List Property}
  {modified : Number} {times : Number → Prop}

theorem Dated.harmless (h : w.Dated r times) : w.Harmless r := by
  intro properties modified hoffers hlt
  rcases (h.2 properties modified hoffers).2 with hearlier | ⟨hsaid, -⟩
  · rw [hlt] at hearlier
    cases hearlier
  · exact hsaid

theorem Offers.of_write {file : Revision} (hcalls : ∀ stage ∈ w.calls, ¬ stage.Between)
    (h : (w.play r (.write file)).Offers r properties modified) :
    w.Offers r properties modified := by
  rcases h with hstored | ⟨stage, hmem, hpending⟩
  · exact .inl hstored
  · refine .inr ⟨stage, hmem, ?_⟩
    cases stage with
    | loaded | scanned => exact absurd trivial (hcalls _ hmem)
    | stamped ps m => exact hpending
    | called | found | refused | missed | done => cases hpending

theorem Dated.play_quiet (h : w.Dated r times) (ht : t.Quiet) : (w.play r t).Dated r times := by
  rw [Dated, file_play ht]
  refine ⟨h.1, ?_⟩
  intro properties modified hoffers
  rcases hoffers.of_play ht with hoffers | ⟨hsaid, rfl⟩
  · exact h.2 properties modified hoffers
  · exact ⟨h.1, .inr ⟨hsaid, rfl⟩⟩

theorem Dated.play (h : w.Dated r times)
    (htrans : ∀ a b c, times a → times b → times c → a.lt b = true → b.lt c = true →
      a.lt c = true)
    (ht : t.Clean times w) : (w.play r t).Dated r times := by
  cases t with
  | begin => exact h.play_quiet trivial
  | advance i now => exact h.play_quiet trivial
  | write file =>
    obtain ⟨htime, hlater, hcalls⟩ := ht
    refine ⟨htime, ?_⟩
    intro properties modified hoffers
    obtain ⟨hmodified, hdated⟩ := h.2 properties modified (hoffers.of_write hcalls)
    refine ⟨hmodified, .inl ?_⟩
    rcases hdated with hearlier | ⟨-, rfl⟩
    · exact htrans modified w.file.time file.time hmodified h.1 htime hearlier hlater
    · exact hlater

theorem Dated.after (h : w.Dated r times)
    (htrans : ∀ a b c, times a → times b → times c → a.lt b = true → b.lt c = true →
      a.lt c = true)
    (hturns : w.Clean r times turns) : (w.after r turns).Dated r times := by
  induction turns generalizing w with
  | nil => exact h
  | cons t turns ih => exact ih (h.play htrans hturns.1) hturns.2

/-- If no write comes between the reading and the asking of a call, nothing harmful is ever stored
or on its way into the store. -/
theorem harmless_of_clean {s : Store} (hs : s.entries = []) (r : Race) (file : Revision)
    (htrans : ∀ a b c, times a → times b → times c → a.lt b = true → b.lt c = true →
      a.lt c = true)
    (hfile : times file.time) (hturns : (start s file).Clean r times turns) :
    ((start s file).after r turns).Harmless r := by
  have hstart : (start s file).Dated r times := by
    refine ⟨hfile, ?_⟩
    rintro properties modified (⟨e, hfind, -⟩ | ⟨stage, hmem, -⟩)
    · simp [start, Store.find?, hs] at hfind
    · cases hmem
  exact (hstart.after htrans hturns).harmless

/-- **The calls that begin after the last write are right exactly if nothing harmful is stored or on
its way into the store by then.**  The clock gives readings between which no entry outlives its
time.  Nothing harmful is if every write gives the file a later time and falls between no reading
and its asking; and a call that is left alone does what an extraction from the file does. -/
theorem late_calls_current_iff {maxEntries : Int} {lifetime : Number} {s : Store}
    (hs : Store.make? maxEntries lifetime = .ok s) (r : Race) (file : Revision)
    (hlive : ∀ a b, readings a → readings b → lifetime.lt (b.sub a) = false) (hnow : readings now)
    (hturns : ∀ t ∈ turns, t.Reads readings) :
    (((start s file).after r turns).Current r readings ↔
      ((start s file).after r turns).Harmless r) ∧
    (∀ times : Number → Prop,
      (∀ a b c, times a → times b → times c → a.lt b = true → b.lt c = true → a.lt c = true) →
      times file.time → (start s file).Clean r times turns →
        ((start s file).after r turns).Harmless r) ∧
    r.IsExtraction := by
  obtain ⟨hempty, hlifetime⟩ := Store.make?_eq_ok hs
  refine ⟨?_, fun times htrans hfile => harmless_of_clean hempty r file htrans hfile,
    isExtraction r⟩
  have htimed : ((start s file).after r turns).Timed lifetime readings := by
    refine Timed.after ⟨hlifetime, ?_⟩ hturns
    intro e he
    rw [start, hempty] at he
    cases he
  constructor
  · rintro h properties modified (⟨e, hfind, rfl, rfl⟩ | ⟨stage, hmem, hpending⟩) hlt
    · refine h.says_of_find? hnow hfind hlt ?_
      rw [Store.isExpired, htimed.1]
      exact hlive e.cachedAt now (htimed.2 e (Store.mem_of_find? hfind).1) hnow
    · obtain ⟨i, hi⟩ := List.getElem?_of_mem hmem
      exact h.says_of_pending htimed hlive hnow hi hpending hlt
  · exact Harmless.current

end World

/-! ## A write between the reading and the asking -/

/-- The class has one property, whose name is rewritten while a call is busy with the file. -/
def revision (name : Char) (time : Int) : Revision where
  bytes := ("class P\n\x7b\nint ".toList ++ name :: " \x7b get; \x7d\n\x7d\n".toList).map
    fun c => c.toNat.toUInt8
  time := .whole time

def race : Race := ⟨false, ['P'], ['P'], "P.cs".toList⟩

/-- A store for one entry. -/
def single : Store := ⟨1, .whole 300, [], 0⟩

/-- The file is written when the call has read it and has not asked for its time yet. -/
def torn : List Turn :=
  [.begin, .advance 0 (.whole 0), .advance 0 (.whole 0), .write (revision 'Y' 2),
   .advance 0 (.whole 0), .advance 0 (.whole 0), .advance 0 (.whole 0)]

def nameList (properties : List Property) : List Text := properties.map Property.name

/-- The list of the old content stays in the store under the time of the new one, and calls that
begin behind the write are served it. -/
theorem lasting_stale_list :
    Store.make? 1 (.whole 300) = .ok single ∧
      (revision 'X' 1).bytes ≠ (revision 'Y' 2).bytes ∧
      (revision 'X' 1).time.lt (revision 'Y' 2).time = true ∧
      ¬ ((World.start single (revision 'X' 1)).after race torn).Current race (· = .whole 0) := by
  have hmake : Store.make? 1 (.whole 300) = .ok single := rfl
  refine ⟨hmake, by decide, by decide, ?_⟩
  intro hcurrent
  have hlive : ∀ a b : Number, a = .whole 0 → b = .whole 0 →
      Number.lt (.whole 300) (b.sub a) = false := by
    rintro _ _ rfl rfl
    rfl
  have hturns : ∀ t ∈ torn, t.Reads (· = .whole 0) := by
    simp [torn, Turn.Reads]
  have hharmless := (World.late_calls_current_iff hmake race (revision 'X' 1) hlive rfl hturns).1.1
    hcurrent
  have hstored : (((World.start single (revision 'X' 1)).after race torn).store.find? ['P']).map
      (fun e => (nameList e.properties, e.modified.lt (.whole 2))) = some ([['X']], false) := by
    decide +kernel
  have hsaid : (race.scan (revision 'Y' 2).bytes).toOption.map nameList = some [['Y']] := by
    decide +kernel
  obtain ⟨e, hfind, hpair⟩ := Option.map_eq_some_iff.1 hstored
  obtain ⟨hnames, hlt⟩ := Prod.mk.inj hpair
  have hclean : race.scan (revision 'Y' 2).bytes = .ok e.properties :=
    hharmless e.properties e.modified (.inl ⟨e, hfind, rfl, rfl⟩) hlt
  rw [hclean] at hsaid
  exact absurd (hnames.symm.trans (Option.some.inj hsaid)) (by decide)

end RazorViews.Extraction
