import Mathlib.Data.List.DropRight
import RazorViews.Proofs.Member.Beside
import RazorViews.Proofs.Member.Classes

/-!
# Which annotations a property has

What is read of a class body is a sequence of entries: lines of annotations, properties, other
lines, and annotations that were given up.  An annotation that goes on over several lines is one
entry with whatever stands behind it on its last line.  A property has the annotations that stand on
its own line, and in front of them those of the lines of annotations directly before it, back to the
first entry of another kind or to the beginning of the body: `attached`.

## What is proved

`recognize_attached` says that this is what is recognized, of every text and of every region: the
candidates are those of the entries of each class, each with the annotations attached to it, and in
order.  None has an annotation of another class.  Within a class no annotation is given to two of
them, and all that are given keep the order in which they stand.

So an annotation counts for the property behind it and for no other one, and one that an entry of
another kind parts from the property counts for none.  Lines that are passed over, blank ones among
them, are no entries and part nothing.

## What it is not

The entries are those of the erased text, and their bodies are without what stood in quotes.  With
the source beside the text the same candidates are found and the bodies differ only in that
(`map_outline_recognize`, `forall₂_recognize_recovered`).

## The proof

A scan keeps no entries.  It has the annotations set aside and the lines of an open annotation, and
this is all there is to know of the entries behind it and of the one it is in: `Scan.Holds`.  Each
line that is read keeps this up, and what it finds is what is attached.
-/

namespace RazorViews.Member

open Annotations

/-! ## Entries -/

/-- What lines of a class body are to the members around them. -/
inductive Entry where
  /-- Annotations and nothing behind them. -/
  | annotations (bodies : List Text)
  /-- The signature of a property behind annotations of its own, if it has any. -/
  | property (name rawType : Text) (own : List Text) (line : Nat)
  /-- Anything else. -/
  | other
  /-- An annotation that goes on for too long. -/
  | abandoned
deriving DecidableEq, Repr

/-- What a text is whose annotations are closed; the number is that of the line it ends on. -/
def Entry.ofText (line : Nat) (t : Text) : Entry :=
  if !(split t).groups.isEmpty && (split t).rest.isEmpty then .annotations (split t).groups
  else
    match readSignature? (split t).rest with
    | none => .other
    | some (name, rawType) => .property name rawType (split t).groups line

/-- What is read of a line of a class body, with the number of the line. -/
structure BodyLine where
  number : Nat
  text : Text
deriving DecidableEq, Repr

/-- The texts of several lines as one. -/
def joinedText (ls : List BodyLine) : Text := Text.join [' '] (ls.map BodyLine.text)

/-- Several lines leave an annotation open. -/
def isOpen (ls : List BodyLine) : Bool := (split (joinedText ls)).unfinished

/-- How many lines an annotation goes on over behind the line it begins on: the fewest that close
it, if it may go on for so long.  No line is needed if the first one leaves none open. -/
def furtherLines? (first : BodyLine) (rest : List BodyLine) : Option Nat :=
  (List.range maxAnnotationLines).find? fun n =>
    decide (n ≤ rest.length) && !isOpen (first :: rest.take n)

/-- The entries of a class body.  An annotation that is neither closed nor given up when the body
ends is none. -/
def entries : List BodyLine → List Entry
  | [] => []
  | first :: rest =>
    match furtherLines? first rest with
    | some n =>
      .ofText ((rest.take n).getLastD first).number (joinedText (first :: rest.take n)) ::
        entries (rest.drop n)
    | none =>
      if maxAnnotationLines ≤ rest.length then .abandoned :: entries (rest.drop maxAnnotationLines)
      else []
termination_by ls => ls.length
decreasing_by
  all_goals
    rw [List.length_drop, List.length_cons]
    omega

/-! ## What is attached to properties -/

/-- The entry is one of annotations only. -/
def Entry.isAnnotations : Entry → Bool
  | annotations _ => true
  | _ => false

/-- The annotations that an entry holds. -/
def Entry.bodies : Entry → List Text
  | annotations bodies => bodies
  | property _ _ own _ => own
  | other => []
  | abandoned => []

/-- The annotations of the entries at the end that hold nothing else. -/
def setAside (before : List Entry) : List Text :=
  (before.rtakeWhile Entry.isAnnotations).flatMap Entry.bodies

/-- The candidate that an entry is, with these entries before it. -/
def Entry.candidate? (before : List Entry) : Entry → Option Candidate
  | property name rawType own line => some ⟨name, rawType, setAside before ++ own, line⟩
  | _ => none

/-- The candidates among entries, with these entries before them. -/
def attached (before : List Entry) : List Entry → List Candidate
  | [] => []
  | e :: rest => (e.candidate? before).toList ++ attached (before ++ [e]) rest

variable {done : List Entry} {held : List BodyLine} {s : Scan}

theorem setAside_concat (before : List Entry) (e : Entry) :
    setAside (before ++ [e]) = if e.isAnnotations then setAside before ++ e.bodies else [] := by
  rw [setAside]
  split
  · rename_i hannotations
    rw [List.rtakeWhile_concat_pos _ _ _ hannotations, List.flatMap_append,
      List.flatMap_singleton, setAside]
  · rename_i hother
    rw [List.rtakeWhile_concat_neg _ _ _ hother, List.flatMap_nil]

theorem setAside_annotations (before : List Entry) (bodies : List Text) :
    setAside (before ++ [.annotations bodies]) = setAside before ++ bodies :=
  setAside_concat before (.annotations bodies)

theorem setAside_of_not {e : Entry} (h : e.isAnnotations = false) (before : List Entry) :
    setAside (before ++ [e]) = [] := by
  rw [setAside_concat, h]
  rfl

/-- An annotation is attached to one property at most, and the order is kept. -/
theorem attributes_sublist (before es : List Entry) :
    ((attached before es).flatMap Candidate.attributes).Sublist
      (setAside before ++ es.flatMap Entry.bodies) := by
  induction es generalizing before with
  | nil => exact List.nil_sublist _
  | cons e rest ih =>
    have hrest := ih (before ++ [e])
    rw [attached, List.flatMap_append, List.flatMap_cons]
    cases e with
    | annotations bodies =>
      rw [setAside_annotations, List.append_assoc] at hrest
      exact hrest
    | property name rawType own line =>
      rw [setAside_of_not rfl, List.nil_append] at hrest
      have hown : Option.toList (Entry.candidate? before (.property name rawType own line)) =
          [⟨name, rawType, setAside before ++ own, line⟩] := rfl
      rw [hown, List.flatMap_singleton, ← List.append_assoc]
      exact (List.Sublist.refl _).append hrest
    | other =>
      rw [setAside_of_not rfl, List.nil_append] at hrest
      exact hrest.trans (List.sublist_append_right _ _)
    | abandoned =>
      rw [setAside_of_not rfl, List.nil_append] at hrest
      exact hrest.trans (List.sublist_append_right _ _)

/-! ## Lines that are joined -/

/-- Each of several lines leaves an annotation open, together with those before it, and there are
not too many of them. -/
structure Holding (held : List BodyLine) : Prop where
  each : ∀ n < held.length, isOpen (held.take (n + 1)) = true
  length : held.length ≤ maxAnnotationLines

theorem holding_nil : Holding [] := ⟨fun _ hn => absurd hn (Nat.not_lt_zero _), Nat.zero_le _⟩

theorem Holding.concat (h : Holding held) {l : BodyLine}
    (hlength : held.length < maxAnnotationLines) (hopen : isOpen (held ++ [l]) = true) :
    Holding (held ++ [l]) := by
  constructor
  · intro n hn
    rw [List.length_append, List.length_singleton] at hn
    rcases Nat.lt_succ_iff_lt_or_eq.1 hn with hn | rfl
    · rw [List.take_append_of_le_length hn]
      exact h.each n hn
    · rw [← List.length_singleton (a := l), ← List.length_append, List.take_length]
      exact hopen
  · rw [List.length_append, List.length_singleton]
    exact hlength

/-- Lines that leave an annotation open do not say how many more it takes. -/
theorem Holding.furtherLines?_eq_none {first : BodyLine} {tail more : List BodyLine}
    (h : Holding (first :: tail)) (hmore : more = [] ∨ maxAnnotationLines ≤ tail.length + 1) :
    furtherLines? first (tail ++ more) = none := by
  rw [furtherLines?, List.find?_range_eq_none]
  intro n hn
  by_cases hle : n ≤ tail.length
  · rw [List.take_append_of_le_length hle]
    have hopen := h.each n (Nat.lt_succ_of_le hle)
    rw [List.take_succ_cons] at hopen
    simp [hopen]
  · rcases hmore with rfl | hmore
    · simp [hle]
    · omega

/-- An annotation that is open where the body ends is no entry. -/
theorem Holding.entries_eq_nil (h : Holding held) : entries held = [] := by
  cases held with
  | nil => rw [entries]
  | cons first tail =>
    have hnone : furtherLines? first (tail ++ []) = none := h.furtherLines?_eq_none (.inl rfl)
    have hlength := h.length
    rw [List.append_nil] at hnone
    rw [List.length_cons] at hlength
    rw [entries, hnone]
    exact if_neg (Nat.not_le.2 hlength)

/-- One line too many gives the annotation up. -/
theorem Holding.entries_abandoned (h : Holding held) (hlength : held.length = maxAnnotationLines)
    (l : BodyLine) (more : List BodyLine) :
    entries (held ++ l :: more) = .abandoned :: entries more := by
  cases held with
  | nil => exact absurd hlength (by decide)
  | cons first tail =>
    rw [List.length_cons] at hlength
    have hdrop : (tail ++ l :: more).drop maxAnnotationLines = more := by
      rw [← hlength, List.drop_length_add_append]
      rfl
    rw [List.cons_append, entries, h.furtherLines?_eq_none (.inr (Nat.le_of_eq hlength.symm)),
      hdrop]
    refine if_pos ?_
    rw [List.length_append, List.length_cons, ← hlength]
    omega

/-- The line that closes the annotation makes an entry of it. -/
theorem Holding.entries_closed (h : Holding held) (hlength : held.length < maxAnnotationLines)
    {l : BodyLine} (hclosed : isOpen (held ++ [l]) = false) (more : List BodyLine) :
    entries (held ++ l :: more) =
      .ofText l.number (joinedText (held ++ [l])) :: entries more := by
  obtain ⟨first, tail, hls, hlast⟩ : ∃ first tail, held ++ [l] = first :: tail ∧
      tail.getLastD first = l := by
    cases held with
    | nil => exact ⟨l, [], rfl, rfl⟩
    | cons first tail => exact ⟨first, tail ++ [l], rfl, List.getLastD_concat⟩
  have htail : tail.length = held.length := by
    have := congrArg List.length hls
    simpa using this.symm
  have hfurther : furtherLines? first (tail ++ more) = some held.length := by
    rw [furtherLines?, List.find?_range_eq_some]
    refine ⟨?_, List.mem_range.2 hlength, ?_⟩
    · rw [← htail, List.take_left, ← hls, hclosed, List.length_append]
      simp
    · -- fewer lines do not close it
      intro n hn
      have hopen := h.each n hn
      have htake : held.take (n + 1) = first :: (tail ++ more).take n := by
        have hlonger : held.take (n + 1) = (held ++ [l]).take (n + 1) :=
          (List.take_append_of_le_length hn).symm
        rw [hlonger, hls, List.take_succ_cons, List.take_append_of_le_length (by omega)]
      rw [← htake, hopen]
      simp
  rw [List.append_cons, hls, List.cons_append, entries, hfurther, ← htail]
  dsimp only
  rw [List.take_left, List.drop_left, hlast]

/-! ## What a scan keeps of the entries -/

/-- A line of a body with no source beside it. -/
def BodyLine.bare (l : BodyLine) : Line := ⟨l.text, none⟩

/-- A scan has set aside the annotations that count of the entries behind it, and holds the lines of
the entry it is in. -/
structure Scan.Holds (s : Scan) (done : List Entry) (held : List BodyLine) : Prop where
  pending : s.pending = setAside done
  holding : Holding held
  held : s.held = held.map BodyLine.bare

theorem Scan.Holds.of_reading {s' : Scan} (h : s.Holds done held) (hs : s'.reading = s.reading) :
    s'.Holds done held := by
  obtain ⟨hpending, hheld⟩ := Prod.mk.inj hs
  exact ⟨hpending.trans h.pending, h.holding, hheld.trans h.held⟩

theorem Scan.holds_nil (hs : s.reading = ([], [])) : s.Holds [] [] := by
  obtain ⟨hpending, hheld⟩ := Prod.mk.inj hs
  exact ⟨hpending, holding_nil, hheld⟩

theorem joinLines_bodyLines {ls : List BodyLine} (h : ls ≠ []) :
    joinLines (ls.map BodyLine.bare) = ⟨joinedText ls, none⟩ := by
  obtain ⟨first, rest, rfl⟩ := List.exists_cons_of_ne_nil h
  rw [joinLines, List.map_map, List.map_cons, List.map_cons, List.mapM_cons]
  rfl

/-- A text whose annotations are closed is read as the entry it is. -/
theorem Scan.Holds.readMember (h : s.Holds done []) (line : Nat) (t : Text) :
    (s.readMember ⟨t, none⟩).1.Holds (done ++ [.ofText line t]) [] ∧
      (s.readMember ⟨t, none⟩).2.map (Finding.onLine line) =
        (Entry.ofText line t).candidate? done := by
  rw [Scan.readMember, Entry.ofText]
  dsimp only
  split
  · refine ⟨⟨?_, h.holding, h.held⟩, rfl⟩
    rw [setAside_annotations, h.pending]
    rfl
  · cases readSignature? (split t).rest with
    | none => exact ⟨⟨(setAside_of_not rfl done).symm, h.holding, h.held⟩, rfl⟩
    | some read =>
      refine ⟨⟨(setAside_of_not rfl done).symm, h.holding, h.held⟩, ?_⟩
      have hown : (if (split t).groups.isEmpty then [] else (⟨t, none⟩ : Line).annotations) =
          (split t).groups := by
        rw [Line.annotations]
        split
        · rename_i hnone
          exact (List.isEmpty_iff.1 hnone).symm
        · rfl
      simp only [Option.map_some, Finding.onLine, hown, h.pending, Entry.candidate?]

/-- A part of a body is read together with the lines held. -/
theorem Scan.Holds.readBodyLine_eq (h : s.Holds done held) (l : BodyLine) :
    s.readBodyLine l.bare =
      if held.length = maxAnnotationLines then ({ s with held := [], pending := [] }, none)
      else if isOpen (held ++ [l]) then
        ({ s with held := (held ++ [l]).map BodyLine.bare }, none)
      else { s with held := [] }.readMember ⟨joinedText (held ++ [l]), none⟩ := by
  have hmap : s.held ++ [l.bare] = (held ++ [l]).map BodyLine.bare := by
    rw [List.map_append, List.map_singleton, h.held]
  have hjoined : joinLines ((held ++ [l]).map BodyLine.bare) = ⟨joinedText (held ++ [l]), none⟩ :=
    joinLines_bodyLines (by simp)
  have hmost : maxAnnotationLines < ((held ++ [l]).map BodyLine.bare).length ↔
      held.length = maxAnnotationLines := by
    have hlength := h.holding.length
    rw [List.length_map, List.length_append, List.length_singleton]
    omega
  rw [Scan.readBodyLine_eq, hmap, hjoined]
  simp only [hmost]
  rfl

/-- **One line of a body**: what is found on it is attached to the entry that it ends, if it ends
one, and the scan is as far in the entries as the lines are. -/
theorem Scan.Holds.step (h : s.Holds done held) (l : BodyLine) :
    ∃ done' held', (s.readBodyLine l.bare).1.Holds done' held' ∧
      ∀ more, attached done (entries (held ++ l :: more)) =
        ((s.readBodyLine l.bare).2.map (Finding.onLine l.number)).toList ++
          attached done' (entries (held' ++ more)) := by
  rw [h.readBodyLine_eq]
  split
  · rename_i hlength
    refine ⟨done ++ [.abandoned], [], ⟨(setAside_of_not rfl done).symm, holding_nil, rfl⟩, ?_⟩
    intro more
    rw [h.holding.entries_abandoned hlength, attached]
    rfl
  · rename_i hlength
    have hless : held.length < maxAnnotationLines := Nat.lt_of_le_of_ne h.holding.length hlength
    split
    · rename_i hopen
      refine ⟨done, held ++ [l], ⟨h.pending, h.holding.concat hless hopen, rfl⟩, ?_⟩
      intro more
      rw [List.append_cons]
      rfl
    · rename_i hclosed
      have hheld : Scan.Holds { s with held := [] } done [] := ⟨h.pending, holding_nil, rfl⟩
      obtain ⟨hafter, hfound⟩ := hheld.readMember l.number (joinedText (held ++ [l]))
      refine ⟨_, [], hafter, ?_⟩
      intro more
      rw [h.holding.entries_closed hless (Bool.eq_false_iff.2 hclosed), attached, hfound]
      rfl

/-! ## The bodies of classes -/

/-- What is read of the line with this number in a class, if anything is. -/
def readLines (before : List Text) (index : Nat) (l : Text) : List BodyLine :=
  ((readPart? before l).map (BodyLine.mk index)).toList

/-- What is read of each class body, in order.  A class that is open in front of the lines has the
first one.  Behind the last class stands a body of which nothing is read. -/
def bodies (inside : Option (List Text)) (entering : Bool) (index : Nat) :
    List Text → List (List BodyLine)
  | [] => [[]]
  | l :: rest =>
    match entered? inside entering l with
    | none => bodies none false (index + 1) rest
    | some before =>
      if StaysOn before l then
        (bodies (some (before ++ [l])) false (index + 1) rest).modifyHead
          (readLines before index l ++ ·)
      else readLines before index l :: bodies none false (index + 1) rest

variable {before : List Text}

/-- One line of a class. -/
theorem Scan.Holds.stepClass (h : s.Holds done held) (hs : s.Follows before) (index : Nat)
    (t : Text) :
    ∃ done' held', Holding held' ∧
      (StaysOn before t → (s.stepClass ⟨t, none⟩).1.Holds done' held') ∧
      (¬ StaysOn before t → (s.stepClass ⟨t, none⟩).1.Holds [] []) ∧
      ∀ more, attached done (entries (held ++ (readLines before index t ++ more))) =
        ((s.stepClass ⟨t, none⟩).2.map (Finding.onLine index)).toList ++
          attached done' (entries (held' ++ more)) := by
  rw [readLines]
  rcases hs.stepClass_cases ⟨t, none⟩ with
    ⟨hread, hstays, hfound, hreading⟩ | ⟨s', part, hread, hraw, hs', hfound, hreading⟩
  · refine ⟨done, held, h.holding, fun _ => h.of_reading hreading, absurd hstays, ?_⟩
    intro more
    rw [hread, hfound]
    rfl
  · obtain ⟨erased, raw⟩ := part
    obtain rfl : raw = none := hraw rfl
    obtain ⟨done', held', hafter, hattached⟩ := (h.of_reading hs').step ⟨index, erased⟩
    refine ⟨done', held', hafter.holding, ?_, ?_, ?_⟩
    · intro hstays
      rw [if_pos hstays] at hreading
      exact hafter.of_reading hreading
    · intro hleaves
      rw [if_neg hleaves] at hreading
      exact holds_nil hreading
    · intro more
      rw [hread, hfound]
      exact hattached more

/-- **Class by class** a scan finds what is attached to the entries of the body.  The induction is
on the lines; the first body goes on from what the scan holds of it, the others are begun anew. -/
theorem Scan.run_attached {inside : Option (List Text)} (hs : s.StandsIn inside)
    (h : s.Holds done held) (hout : inside = none → done = [] ∧ held = []) (entering : Bool)
    (index : Nat) (ts : List Text) :
    ∃ body more, bodies inside entering index ts = body :: more ∧
      s.run entering index (ts.map fun t => ⟨t, none⟩) =
        attached done (entries (held ++ body)) ++
          more.flatMap fun body => attached [] (entries body) := by
  induction ts generalizing s inside done held entering index with
  | nil =>
    refine ⟨[], [], rfl, ?_⟩
    rw [List.append_nil, h.holding.entries_eq_nil]
    rfl
  | cons t ts ih =>
    have hbehind := hs.step entering ⟨t, none⟩
    rw [bodies, List.map_cons, run_cons]
    rw [behind?] at hbehind
    rcases hs.step_cases entering ⟨t, none⟩ with
      ⟨hinside, hnone, hstep⟩ | ⟨before, s', hin, hs', hstep, hsame⟩
    · rw [hnone, hstep] at hbehind
      rw [hnone, hstep]
      exact ih hbehind (h.of_reading rfl) (fun _ => hout hinside) false (index + 1)
    · have hholds : s'.Holds done held := by
        rcases hsame with ⟨rfl, -⟩ | ⟨rfl, hinside⟩
        · exact h
        · obtain ⟨rfl, rfl⟩ := hout hinside
          exact ⟨rfl, holding_nil, h.held⟩
      obtain ⟨done', held', hheld, hkept, hleft, hattached⟩ := hholds.stepClass hs' index t
      rw [hin, Option.bind_some, kept?, hstep] at hbehind
      rw [hin, hstep]
      dsimp only
      split
      · rename_i hstays
        rw [if_pos hstays] at hbehind
        obtain ⟨body, more, hbodies, hrun⟩ :=
          ih hbehind (hkept hstays) (fun hnone => absurd hnone (by simp)) false (index + 1)
        refine ⟨_, more, congrArg _ hbodies, ?_⟩
        rw [hattached, hrun, List.append_assoc]
      · rename_i hleaves
        rw [if_neg hleaves] at hbehind
        obtain ⟨body, more, hbodies, hrun⟩ :=
          ih hbehind (hleft hleaves) (fun _ => ⟨rfl, rfl⟩) false (index + 1)
        refine ⟨_, body :: more, congrArg _ hbodies, ?_⟩
        -- the body ends here, and an annotation that is open in it with it
        have hbody := hattached []
        rw [List.append_nil, List.append_nil, hheld.entries_eq_nil, attached, List.append_nil]
          at hbody
        rw [hbody, hrun, List.flatMap_cons, List.nil_append]

/-! ## Recognizing -/

/-- What is read of each class body in a text, or in a region of it. -/
def classBodies (erased : Text) : Option ClassRegion → List (List BodyLine)
  | none => bodies none false 0 ((Text.lines erased).map Text.trim)
  | some r => bodies none true r.firstLine (erasedLines erased r)

/-- Class by class, the entries of a text, or of a region of it. -/
def classEntries (erased : Text) (region : Option ClassRegion) : List (List Entry) :=
  (classBodies erased region).map entries

theorem Scan.run_start (entering : Bool) (index : Nat) (ts : List Text) :
    Scan.start.run entering index (ts.map fun t => ⟨t, none⟩) =
      ((bodies none entering index ts).map entries).flatMap (attached []) := by
  obtain ⟨body, more, hbodies, hrun⟩ :=
    Scan.run_attached Scan.standsIn_start (holds_nil rfl) (fun _ => ⟨rfl, rfl⟩) entering index ts
  rw [hbodies, hrun, List.map_cons, List.flatMap_cons, List.flatMap_map]
  rfl

/-- **The members of a text are its properties, each with the annotations attached to it.**  No
annotation is given to two of them, and those of a class keep their order. -/
theorem recognize_attached (erased : Text) (region : Option ClassRegion) :
    recognize erased none region = (classEntries erased region).flatMap (attached []) ∧
      ∀ es ∈ classEntries erased region,
        ((attached [] es).flatMap Candidate.attributes).Sublist (es.flatMap Entry.bodies) := by
  refine ⟨?_, fun es _ => attributes_sublist [] es⟩
  have hlines : pairLines erased none =
      ((Text.lines erased).map Text.trim).map fun t => ⟨t, none⟩ := rfl
  cases region with
  | none => exact Scan.run_start false 0 _
  | some r =>
    rw [recognize, hlines, ← List.map_take, ← List.map_drop, Scan.run_start]
    rfl

end RazorViews.Member
