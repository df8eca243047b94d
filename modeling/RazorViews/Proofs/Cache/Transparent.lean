import RazorViews.Extraction
import RazorViews.Proofs.Cache.Entries

/-!
# When cached extraction is transparent

Extractors of any settings share a store; between their calls files come, go and change, and the
store may be swept or cleared.  Entries are kept under the name of a type, and the name does not
determine the list: that depends on the file that is selected below a root, on what the file holds,
and on the settings.  Of these only a later time of the selected file is noticed.

## What is proved

So a call may be confused with an earlier one.  Where no two calls are that have different lists,
and only there, every call of every run answers as it would with an empty store: this is the first
part of `transparent_iff`.  It is stated for any relation `may` between a call and a later one,
which says what can happen in between; to assume, for example, that a file which has changed has a
later time is to put `Dated` there.

* `Confusable` is the condition on two calls.  They name one type; the first one has put its list
  in; the file that is selected for the second one, whichever that is, has no later time than the
  entry; and the entry is not too old.
* The second part of `transparent_iff` is the use that is safe: calls that select the same file with
  the same settings are never confused, provided that a file which has changed has a later time.

## What it is not

The condition does not hold of all runs in which changed files have later times: two folders with a
class of one name are enough (`not_transparent_dated`).  Calls are whole here.  What happens when
the steps of several calls interleave is said in `late_calls_current_iff`, for one file, and in
`no_fresh_entry_lost`, for the store.

## The proof

A call either takes an entry and leaves the store alone, or answers as if there were none and puts
its own in at most (`run_cases`).  Hence whatever is in a store was put in by an earlier call, or
was there at the beginning (`after_entries`), and what a call is served is the list of that earlier
call (`result_eq_plain_iff`).
-/

namespace RazorViews.Extraction

/-! ## Calls -/

/-- A call to an extractor of some settings, with what it finds around it. -/
structure Call where
  settings : SearchSettings
  around : Surroundings
  typeName : Text
  root : Text

namespace Call

def type (c : Call) : Text := Text.trim c.typeName

def className (c : Call) : Text := TypeName.className c.type

/-- The file that is selected for a call. -/
def file? (c : Call) : Option Path :=
  if c.type.isEmpty then none
  else if c.className.isEmpty then none
  else (sourceFile? c.settings c.around.tree c.className c.root).2

def timeOf (c : Call) (file : Path) : FileTime := c.around.timeOf file.toText

def source (c : Call) (file : Path) : Except SystemError Text := readSource c.around.tree file

/-- What a call answers. -/
def result (c : Call) (s : Store) : Except Failure (List Property) :=
  (run c.settings c.around s c.typeName c.root).2.2

/-- The store that a call leaves. -/
def leave (c : Call) (s : Store) : Store := (run c.settings c.around s c.typeName c.root).1

/-- What a file has to say to a call. -/
def scanned (c : Call) (file : Path) : Except Failure (List Property) :=
  match c.source file with
  | .error _ => .ok []
  | .ok source => (Property.extract c.settings.skipIdentity source c.className).2

/-- What a call answers if no entry is served. -/
def plain (c : Call) : Except Failure (List Property) :=
  match c.file? with
  | some file => c.scanned file
  | none => if c.type.isEmpty then .error .blankTypeName else .ok []

/-- The entry that is served to a call. -/
def hit? (c : Call) (s : Store) : Option Entry :=
  c.file?.bind fun file => s.served? c.type file.toText (c.timeOf file) c.around.now

/-- The entry is one that a call puts in. -/
structure PutsIn (c : Call) (e : Entry) : Prop where
  typeName : e.typeName = c.type
  cachedAt : e.cachedAt = c.around.now
  file : ∃ file source, c.file? = some file ∧ e.path = file.toText ∧ c.source file = .ok source ∧
    c.timeOf file = .ok e.modified ∧
    (Property.extract c.settings.skipIdentity source c.className).2 = .ok e.properties

theorem PutsIn.plain {c : Call} {e : Entry} (h : c.PutsIn e) : c.plain = .ok e.properties := by
  obtain ⟨file, source, hfile, _, hsource, _, hextract⟩ := h.file
  rw [Call.plain, hfile]
  show c.scanned file = _
  rw [Call.scanned, hsource]
  exact hextract

end Call

/-! ## One call -/

theorem scanFile_result (c : Call) (s : Store) (file : Path) :
    (scanFile c.settings c.around s c.type c.className file).2.2 = c.scanned file := by
  rw [scanFile, Call.scanned, Call.source]
  cases readSource c.around.tree file with
  | error => rfl
  | ok source =>
    cases hextract : Property.extract c.settings.skipIdentity source c.className with
    | mk events result => cases result <;> simp [hextract]

theorem scanFile_entries {c : Call} {s : Store} {file : Path} {e : Entry}
    (hfile : c.file? = some file)
    (h : e ∈ (scanFile c.settings c.around s c.type c.className file).1.entries) :
    e ∈ s.entries ∨ c.PutsIn e := by
  rw [scanFile] at h
  cases hsource : readSource c.around.tree file with
  | error error =>
    rw [hsource] at h
    exact .inl h
  | ok source =>
    simp only [hsource] at h
    cases hextract : Property.extract c.settings.skipIdentity source c.className with
    | mk events result =>
      cases result with
      | error failure =>
        simp only [hextract] at h
        exact .inl h
      | ok properties =>
        simp only [hextract] at h
        rcases Store.mem_set h with h | ⟨modified, htime, rfl⟩
        · exact .inl h
        · exact .inr ⟨rfl, rfl, file, source, hfile, rfl, hsource, htime, by rw [hextract]⟩

theorem lifetime_scanFile (c : Call) (s : Store) (file : Path) :
    (scanFile c.settings c.around s c.type c.className file).1.lifetime = s.lifetime := by
  rw [scanFile]
  split
  · rfl
  · split
    · rfl
    · exact Store.lifetime_set s _ _ _ _ _

theorem run_eq (c : Call) (s : Store) :
    run c.settings c.around s c.typeName c.root =
      if c.type.isEmpty then (s, [], .error .blankTypeName)
      else if c.className.isEmpty then (s, [.noClassName c.type], .ok [])
      else
        match sourceFile? c.settings c.around.tree c.className c.root with
        | (events, none) => (s, events, .ok [])
        | (events, some file) =>
          let (kept, more, result) := fromFile c.settings c.around s c.type c.className file
          (kept, events ++ more, result) := rfl

/-- What a call leaves and answers is a matter of the file that is selected for it. -/
theorem run_eq_file? (c : Call) (s : Store) :
    (c.leave s, c.result s) =
      match c.file? with
      | none => (s, if c.type.isEmpty then .error .blankTypeName else .ok [])
      | some file =>
        ((fromFile c.settings c.around s c.type c.className file).1,
          (fromFile c.settings c.around s c.type c.className file).2.2) := by
  rw [Call.leave, Call.result, run_eq, Call.file?]
  by_cases htype : c.type.isEmpty = true
  · simp only [if_pos htype]
  · simp only [if_neg htype]
    by_cases hname : c.className.isEmpty = true
    · simp only [if_pos hname]
    · simp only [if_neg hname]
      cases sourceFile? c.settings c.around.tree c.className c.root with
      | mk events found => cases found <;> rfl

/-- Without a file the store does not count. -/
theorem run_noFile {c : Call} (h : c.file? = none) (s : Store) :
    c.leave s = s ∧ c.result s = c.plain := by
  have hrun := run_eq_file? c s
  rw [h] at hrun
  rw [Call.plain, h]
  exact Prod.mk.inj hrun

theorem run_file {c : Call} {file : Path} (h : c.file? = some file) (s : Store) :
    c.leave s = (fromFile c.settings c.around s c.type c.className file).1 ∧
      c.result s = (fromFile c.settings c.around s c.type c.className file).2.2 := by
  have hrun := run_eq_file? c s
  rw [h] at hrun
  exact Prod.mk.inj hrun

/-- A call either takes an entry and leaves the store alone, or answers as if there were none and
puts its own in at most. -/
theorem run_cases (c : Call) (s : Store) :
    (∃ e, c.hit? s = some e ∧ c.leave s = s ∧ c.result s = .ok e.properties) ∨
    c.hit? s = none ∧ c.result s = c.plain ∧
      ∀ e ∈ (c.leave s).entries, e ∈ s.entries ∨ c.PutsIn e := by
  cases hfile : c.file? with
  | none =>
    obtain ⟨hleave, hresult⟩ := run_noFile hfile s
    refine .inr ⟨by rw [Call.hit?, hfile]; rfl, hresult, fun e he => .inl ?_⟩
    rwa [hleave] at he
  | some file =>
    obtain ⟨hleave, hresult⟩ := run_file hfile s
    have hhit : c.hit? s = s.served? c.type file.toText (c.timeOf file) c.around.now := by
      rw [Call.hit?, hfile]
      rfl
    have hplain : c.plain = c.scanned file := by rw [Call.plain, hfile]
    rw [hleave, hresult, hhit, hplain, fromFile]
    rcases Store.get_cases s c.type file.toText (c.timeOf file) c.around.now with
      ⟨e, hserved, hget⟩ | ⟨hserved, kept, events, hget, hkept, _⟩
    · refine .inl ⟨e, hserved, ?_⟩
      rw [Call.timeOf] at hget
      rw [hget]
      exact ⟨rfl, rfl⟩
    · refine .inr ⟨hserved, ?_⟩
      rw [Call.timeOf] at hget
      rw [hget]
      refine ⟨scanFile_result c kept file, fun e he => ?_⟩
      exact (scanFile_entries hfile he).imp_left fun h => hkept h

theorem lifetime_leave (c : Call) (s : Store) : (c.leave s).lifetime = s.lifetime := by
  cases hfile : c.file? with
  | none => rw [(run_noFile hfile s).1]
  | some file =>
    rw [(run_file hfile s).1, fromFile]
    rcases Store.get_cases s c.type file.toText (c.timeOf file) c.around.now with
      ⟨e, _, hget⟩ | ⟨_, kept, events, hget, _, hkept⟩
    · rw [Call.timeOf] at hget
      rw [hget]
    · rw [Call.timeOf] at hget
      rw [hget]
      exact (lifetime_scanFile c kept file).trans hkept

/-! ## Runs -/

/-- What happens to a store. -/
inductive Act where
  | call (c : Call)
  | sweep (now : Number)
  | delete (name : Text)
  | clear

def Act.perform (s : Store) : Act → Store
  | call c => c.leave s
  | sweep now => (s.sweep now).1
  | delete name => (s.delete name).1
  | clear => s.clear

/-- The store after some acts. -/
def after (s : Store) (acts : List Act) : Store := acts.foldl Act.perform s

theorem perform_entries {s : Store} {a : Act} {e : Entry} (h : e ∈ (a.perform s).entries) :
    e ∈ s.entries ∨ ∃ c, a = .call c ∧ c.PutsIn e := by
  cases a with
  | call c =>
    rcases run_cases c s with ⟨_, _, hleave, _⟩ | ⟨_, _, hentries⟩
    · rw [Act.perform, hleave] at h
      exact .inl h
    · exact (hentries e h).imp_right fun h => ⟨c, rfl, h⟩
  | sweep now => exact .inl ((Store.shrinks_sweep s now).subset h)
  | delete name => exact .inl ((Store.shrinks_remove s name).subset h)
  | clear => exact absurd h List.not_mem_nil

/-- Whatever is in the store was there before, or a call has put it in. -/
theorem after_entries {s : Store} {acts : List Act} {e : Entry} (h : e ∈ (after s acts).entries) :
    e ∈ s.entries ∨ ∃ c, .call c ∈ acts ∧ c.PutsIn e := by
  induction acts generalizing s with
  | nil => exact .inl h
  | cons a acts ih =>
    rcases ih h with h | ⟨c, hc, hput⟩
    · rcases perform_entries h with h | ⟨c, rfl, hput⟩
      · exact .inl h
      · exact .inr ⟨c, List.mem_cons_self, hput⟩
    · exact .inr ⟨c, List.mem_cons_of_mem a hc, hput⟩

theorem lifetime_after (s : Store) (acts : List Act) : (after s acts).lifetime = s.lifetime := by
  induction acts generalizing s with
  | nil => rfl
  | cons a acts ih =>
    refine (ih _).trans ?_
    cases a with
    | call c => exact lifetime_leave c s
    | sweep now => exact (Store.shrinks_sweep s now).lifetime
    | delete name => rfl
    | clear => rfl

/-! ## Transparency -/

theorem hit?_clear (c : Call) (s : Store) : c.hit? s.clear = none := by
  rw [Call.hit?]
  cases c.file? <;> rfl

theorem result_clear (c : Call) (s : Store) : c.result s.clear = c.plain := by
  rcases run_cases c s.clear with ⟨e, he, _⟩ | ⟨_, hresult, _⟩
  · rw [hit?_clear] at he
    exact absurd he (by simp)
  · exact hresult

/-- A store serves a call what another one has put in. -/
def Serves (s : Store) (d c : Call) : Prop := ∃ e, c.hit? s = some e ∧ d.PutsIn e

/-- What is served comes from an earlier call. -/
theorem exists_putsIn {s : Store} {acts : List Act} {c : Call} {e : Entry}
    (h : c.hit? (after s.clear acts) = some e) : ∃ d, .call d ∈ acts ∧ d.PutsIn e := by
  obtain ⟨file, _, hserved⟩ := Option.bind_eq_some_iff.1 h
  obtain ⟨hfind, _⟩ := Store.served?_eq_some_iff.1 hserved
  rcases after_entries (Store.mem_of_find? hfind).1 with hmem | hput
  · exact absurd hmem List.not_mem_nil
  · exact hput

/-- A call answers as it would without a cache exactly if whoever put in what it is served has the
same list. -/
theorem result_eq_plain_iff (s : Store) (acts : List Act) (c : Call) :
    c.result (after s.clear acts) = c.plain ↔
      ∀ d, .call d ∈ acts → Serves (after s.clear acts) d c → d.plain = c.plain := by
  rcases run_cases c (after s.clear acts) with ⟨e, he, _, hresult⟩ | ⟨hnone, hresult, _⟩
  · rw [hresult]
    constructor
    · rintro heq d _ ⟨e', he', hput⟩
      obtain rfl := Option.some.inj (he.symm.trans he')
      exact hput.plain.trans heq
    · intro h
      obtain ⟨d, hd, hput⟩ := exists_putsIn he
      exact hput.plain.symm.trans (h d hd ⟨e, he, hput⟩)
  · refine ⟨?_, fun _ => hresult⟩
    rintro _ d _ ⟨e, he, _⟩
    rw [hnone] at he
    exact absurd he (by simp)

/-- Of two calls the second one looks under the name that the first one has put its list in under,
its file has no later time, and the list is not too old.  The files may be two, and neither what
they hold nor the settings count. -/
def Confusable (lifetime : Number) (d c : Call) : Prop :=
  d.type = c.type ∧ ∃ e file m, d.PutsIn e ∧ c.file? = some file ∧ c.timeOf file = .ok m ∧
    e.modified.lt m = false ∧ lifetime.lt (c.around.now.sub d.around.now) = false

theorem Serves.confusable {s : Store} {d c : Call} (h : Serves s d c) :
    Confusable s.lifetime d c := by
  obtain ⟨e, he, hput⟩ := h
  obtain ⟨file, hfile, hserved⟩ := Option.bind_eq_some_iff.1 he
  obtain ⟨hfind, m, htime, hlt, hage⟩ := Store.served?_eq_some_iff.1 hserved
  rw [Store.isExpired, hput.cachedAt] at hage
  exact ⟨hput.typeName.symm.trans (Store.mem_of_find? hfind).2, e, file, m, hput, hfile, htime, hlt,
    hage⟩

/-- A call that is served nothing is found by the next one. -/
theorem Confusable.serves {s : Store} {d c : Call} (hmiss : d.hit? s = none)
    (h : Confusable s.lifetime d c) : Serves (d.leave s) d c := by
  obtain ⟨htype, e, file', m', hput, hfile', htime', hlt, hage⟩ := h
  obtain ⟨file, source, hfile, _, hsource, htime, hextract⟩ := hput.file
  rw [Call.hit?, hfile] at hmiss
  rcases Store.get_cases s d.type file.toText (d.timeOf file) d.around.now with
    ⟨_, hserved, _⟩ | ⟨_, kept, events, hget, _, hlifetime⟩
  · exact absurd (hserved.symm.trans hmiss) (by simp)
  · let new : Entry :=
      ⟨d.type, file.toText, e.properties, e.modified, d.around.now, kept.nextSerial⟩
    have hleave : d.leave s =
        (kept.insert d.type file.toText e.properties e.modified d.around.now).1 := by
      have hread : readSource d.around.tree file = .ok source := hsource
      rw [Call.timeOf] at hget htime
      cases hpair : Property.extract d.settings.skipIdentity source d.className with
      | mk events' result =>
        rw [hpair] at hextract
        obtain rfl : result = .ok e.properties := hextract
        rw [(run_file hfile s).1, fromFile, hget]
        simp only [scanFile, hread, hpair, htime, Store.set]
    refine ⟨new, ?_, rfl, rfl, file, source, hfile, rfl, hsource, htime, hextract⟩
    rw [Call.hit?, hfile', hleave]
    refine Store.served?_eq_some_iff.2 ⟨?_, m', htime', hlt, ?_⟩
    · rw [← htype]
      exact Store.find?_insert kept d.type file.toText e.properties e.modified d.around.now
    · rw [Store.isExpired, Store.lifetime_insert, hlifetime]
      exact hage

/-- A file that has changed between two calls has a later time for the second one. -/
def Dated (d c : Call) : Prop :=
  ∀ file, d.source file = c.source file ∨
    ∀ m m', d.timeOf file = .ok m → c.timeOf file = .ok m' → m.lt m' = true

/-- Calls that select the same file with the same settings are not confused. -/
theorem result_eq_of_same_file {s : Store} {acts : List Act} {c : Call}
    (h : ∀ d, .call d ∈ acts → d.type = c.type → Dated d c ∧ d.file? = c.file? ∧
      d.settings.skipIdentity = c.settings.skipIdentity) :
    c.result (after s.clear acts) = c.result s.clear := by
  rw [result_clear]
  refine (result_eq_plain_iff s acts c).2 fun d hd hserves => ?_
  obtain ⟨htype, e, file, m', hput, hfile, hnow, hlt, _⟩ := hserves.confusable
  obtain ⟨hdated, hsame, hskip⟩ := h d hd htype
  obtain ⟨file', _, hfile', _, _, hthen, _⟩ := hput.file
  obtain rfl : file' = file := Option.some.inj (hfile'.symm.trans (hsame.trans hfile))
  have hsource : d.source file' = c.source file' := by
    rcases hdated file' with hsource | hlater
    · exact hsource
    · rw [hlater e.modified m' hthen hnow] at hlt
      exact absurd hlt (by simp)
  rw [Call.plain, Call.plain, hfile, hfile']
  simp only [Call.scanned, hsource, Call.className, htype, hskip]

/-- **The cache is transparent exactly if no two calls are confusable and have different lists.**
Here `may d c` says what may happen between a call and a later one; it holds of every call of a run
and the last one.  Between calls for the same file under the same settings it is transparent, if
files that have changed have later times. -/
theorem transparent_iff (s : Store) (may : Call → Call → Prop) :
    ((∀ acts c, (∀ d, .call d ∈ acts → may d c) →
        c.result (after s.clear acts) = c.result s.clear) ↔
      ∀ d c, may d c → Confusable s.lifetime d c → d.result s.clear = c.result s.clear) ∧
    ∀ acts c, (∀ d, .call d ∈ acts → d.type = c.type → Dated d c ∧ d.file? = c.file? ∧
        d.settings.skipIdentity = c.settings.skipIdentity) →
      c.result (after s.clear acts) = c.result s.clear := by
  refine ⟨?_, fun acts c => result_eq_of_same_file⟩
  simp only [result_clear]
  constructor
  · intro h d c hmay hconfusable
    have hserves : Serves (after s.clear [.call d]) d c :=
      Confusable.serves (hit?_clear d s) hconfusable
    have hresult : c.result (after s.clear [.call d]) = c.plain := by
      refine h [.call d] c fun d' hd' => ?_
      obtain rfl : d' = d := Act.call.inj (List.mem_singleton.1 hd')
      exact hmay
    exact (result_eq_plain_iff s _ c).1 hresult d List.mem_cons_self hserves
  · intro h acts c hmay
    refine (result_eq_plain_iff s acts c).2 fun d hd hserves => ?_
    have hconfusable := hserves.confusable
    rw [lifetime_after] at hconfusable
    exact h d c (hmay d hd) hconfusable

/-! ## Two folders with a class of one name -/

def nodeOf (t : String) : Node := .file (t.toList.map fun c => c.toNat.toUInt8)

def twoFolders : Tree where
  home := []
  entries :=
    [([['a']], .folder),
     ([['a'], "P.cs".toList], nodeOf "class P\n\x7b\nint X \x7b get; \x7d\n\x7d\n"),
     ([['b']], .folder),
     ([['b'], "P.cs".toList], nodeOf "class P\n\x7b\nint Y \x7b get; \x7d\n\x7d\n")]
  distinct := by decide

def below (root : Text) : Call where
  settings := ⟨[], [], false⟩
  around := ⟨twoFolders, fun _ => .ok (.whole 1), .whole 1000⟩
  typeName := ['P']
  root := root

def names (r : Except Failure (List Property)) : List Text := (r.toOption.getD []).map Property.name

def small : Store := ⟨3, .whole 300, [], 0⟩

/-- Below another folder than that of an earlier call a class may have another list, although no
file has changed. -/
theorem not_transparent_dated : ¬ ∀ acts c, (∀ d, .call d ∈ acts → Dated d c) →
    c.result (after small.clear acts) = c.result small.clear := by
  intro h
  have hdated : Dated (below ['a']) (below ['b']) := fun _ => .inl rfl
  have hnames : names ((below ['a']).result small.clear) ≠
      names ((below ['b']).result small.clear) := by
    decide +kernel
  have hhit : ((below ['b']).hit? (after small.clear [.call (below ['a'])])).isSome = true := by
    decide +kernel
  obtain ⟨e, he⟩ := Option.isSome_iff_exists.1 hhit
  obtain ⟨d, hd, hput⟩ := exists_putsIn he
  obtain rfl : d = below ['a'] := Act.call.inj (List.mem_singleton.1 hd)
  have hconfusable := Serves.confusable ⟨e, he, hput⟩
  rw [lifetime_after] at hconfusable
  exact hnames (congrArg names ((transparent_iff small Dated).1.1 h _ _ hdated hconfusable))

end RazorViews.Extraction
