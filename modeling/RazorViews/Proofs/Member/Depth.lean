import RazorViews.Proofs.Text.Trim
import RazorViews.Source.Member

/-!
# How deep a scan stands

A scan that is given a region enters the class on its first line, takes the first opening brace from
there for that of the class body, and leaves on the first line behind which no brace is open any
more.  A line that is passed over, a blank one or one that begins like a `using`, does not end a
class even so.

* `staysInside_iff` says on which lines a scan stays in its class, by the braces of the lines alone
  and by which of them are passed over.  The braces that stand in front of the first opening one on
  its line are not counted (`depthBehind`).
* `recognize_left`: behind a line on which the class is left nothing is found until another class is
  declared.

The source beside the erased lines plays no part, nor do annotations and members
(`Scan.standing_readBodyLine`).  Where the scan's class is the one that was located, and where it is
not, is the matter of `staysInside_iff_isClear`; what a closing brace does that is not noticed is
said in `foundBehind_recognize`.

What a scan knows of classes and braces is a few numbers and flags (`Scan.standing`), and these
follow the lines (`Scan.Tracks` from no brace open, `Scan.Follows` from any number).
-/

namespace RazorViews.Member

/-! ## Braces of lines -/

theorem braceBalance_append (s t : Text) :
    braceBalance (s ++ t) = braceBalance s + braceBalance t := by
  simp only [braceBalance, List.count_append]
  omega

theorem braceBalance_eq_zero {t : Text} (hopen : '{' ∉ t) (hclose : '}' ∉ t) :
    braceBalance t = 0 := by
  rw [braceBalance, List.count_eq_zero.2 hopen, List.count_eq_zero.2 hclose]
  rfl

/-- What a character adds to the balance of a text. -/
theorem braceBalance_cons (c : Char) (t : Text) :
    braceBalance (c :: t) =
      (if c = '{' then 1 else if c = '}' then -1 else 0) + braceBalance t := by
  simp only [braceBalance, List.count_cons, beq_iff_eq]
  by_cases hopen : c = '{'
  · subst hopen
    have hother : ¬ '{' = '}' := by decide
    rw [if_pos rfl, if_pos rfl, if_neg hother]
    omega
  · rw [if_neg hopen, if_neg hopen]
    split <;> omega

theorem braceBalance_trim (t : Text) : braceBalance (Text.trim t) = braceBalance t := by
  rw [braceBalance, Text.count_trim (by decide), Text.count_trim (by decide), braceBalance]

theorem braceBalance_trimRight (t : Text) :
    braceBalance (Text.trimRight t) = braceBalance t := by
  rw [braceBalance, Text.count_trimRight (by decide), Text.count_trimRight (by decide),
    braceBalance]

theorem cutAtBrace?_eq_some_iff {t front after : Text} :
    cutAtBrace? t = some (front, after) ↔ t = front ++ '{' :: after ∧ '{' ∉ front := by
  constructor
  · intro h
    rw [cutAtBrace?] at h
    split at h
    · exact absurd h (by simp)
    · rename_i c rest hdrop
      obtain ⟨rfl, rfl⟩ := Prod.mk.inj (Option.some.inj h)
      have hc := List.head?_dropWhile_not (· != '{') t
      rw [hdrop] at hc
      obtain rfl : c = '{' := by simpa using hc
      refine ⟨?_, ?_⟩
      · rw [← hdrop, List.takeWhile_append_dropWhile]
      · intro hmem
        have := List.all_eq_true.1 (List.all_takeWhile (p := (· != '{')) (l := t)) _ hmem
        exact absurd this (by decide)
  · rintro ⟨rfl, h⟩
    have hfront : ∀ c ∈ front, (c != '{') = true := by
      intro c hc
      exact bne_iff_ne.2 fun heq => h (heq ▸ hc)
    rw [cutAtBrace?, List.dropWhile_append_of_pos hfront, List.takeWhile_append_of_pos hfront]
    simp

theorem cutAtBrace?_eq_none_iff {t : Text} : cutAtBrace? t = none ↔ '{' ∉ t := by
  constructor
  · intro h hmem
    obtain ⟨front, after, ht, hfront⟩ := List.eq_append_cons_of_mem hmem
    rw [cutAtBrace?_eq_some_iff.2 ⟨ht, hfront⟩] at h
    exact absurd h (by simp)
  · intro h
    cases hcut : cutAtBrace? t with
    | none => rfl
    | some parts =>
      obtain ⟨rfl, _⟩ := cutAtBrace?_eq_some_iff.1 hcut
      exact absurd (by simp) h

theorem isSome_cutAtBrace? {t : Text} : (cutAtBrace? t).isSome = true ↔ '{' ∈ t := by
  rw [Option.isSome_iff_ne_none, ne_eq, cutAtBrace?_eq_none_iff, Classical.not_not]

theorem cutAtBrace?_trim {front : Text} (h : '{' ∉ front) (after : Text) :
    cutAtBrace? (Text.trim (front ++ '{' :: after)) =
      some (Text.trimLeft front, Text.trimRight after) := by
  rw [Text.trim_append_cons (by decide)]
  refine cutAtBrace?_eq_some_iff.2 ⟨rfl, ?_⟩
  intro hmem
  exact h ((List.dropWhile_sublist _).mem hmem)

/-- Opening braces less closing ones on several lines. -/
def totalBalance : List Text → Int
  | [] => 0
  | l :: rest => braceBalance l + totalBalance rest

theorem totalBalance_append (ls more : List Text) :
    totalBalance (ls ++ more) = totalBalance ls + totalBalance more := by
  induction ls with
  | nil => rw [List.nil_append, totalBalance, Int.zero_add]
  | cons l ls ih => rw [List.cons_append, totalBalance, totalBalance, ih, Int.add_assoc]

theorem totalBalance_map_trim (ls : List Text) :
    totalBalance (ls.map Text.trim) = totalBalance ls := by
  induction ls with
  | nil => rfl
  | cons l ls ih => rw [List.map_cons, totalBalance, totalBalance, ih, braceBalance_trim]

/-- On one of the lines the body of a class has been opened. -/
def isOpened (ls : List Text) : Bool := ls.any fun l => (cutAtBrace? l).isSome

/-- The braces counted open behind lines that begin with those of a class header.  What stands in
front of the first opening brace on its line is not counted. -/
def depthBehind : List Text → Int
  | [] => 0
  | l :: rest =>
    match cutAtBrace? l with
    | none => braceBalance l + depthBehind rest
    | some (_, after) => 1 + braceBalance after + totalBalance rest

variable {ls : List Text}

theorem isOpened_concat (ls : List Text) (l : Text) :
    isOpened (ls ++ [l]) = (isOpened ls || (cutAtBrace? l).isSome) := by
  rw [isOpened, List.any_append, List.any_cons, List.any_nil, Bool.or_false, isOpened]

theorem isOpened_concat_trim {l : Text} (h : '{' ∈ l) (ls : List Text) :
    isOpened (ls ++ [Text.trim l]) = true := by
  rw [isOpened_concat, isSome_cutAtBrace?.2 (Text.mem_trim h (by decide)), Bool.or_true]

theorem depthBehind_append_of_opened (h : isOpened ls = true) (more : List Text) :
    depthBehind (ls ++ more) = depthBehind ls + totalBalance more := by
  induction ls with
  | nil => exact absurd h (by decide)
  | cons l ls ih =>
    rw [List.cons_append, depthBehind, depthBehind]
    cases hcut : cutAtBrace? l with
    | none =>
      have hrest : isOpened ls = true := by simpa [isOpened, hcut] using h
      simp only [ih hrest, Int.add_assoc]
    | some parts =>
      simp only [totalBalance_append, Int.add_assoc]

theorem depthBehind_append_of_not_opened (h : isOpened ls = false) (more : List Text) :
    depthBehind (ls ++ more) = depthBehind ls + depthBehind more := by
  induction ls with
  | nil => rw [List.nil_append, depthBehind, Int.zero_add]
  | cons l ls ih =>
    rw [isOpened, List.any_cons, Bool.or_eq_false_iff] at h
    have hcut : cutAtBrace? l = none := by simpa using h.1
    simp only [List.cons_append, depthBehind, hcut, ih h.2, Int.add_assoc]

/-- Where the line of an opening brace goes on, what it goes on with is counted. -/
theorem depthBehind_concat_append {l : Text} (h : '{' ∈ l) (ls : List Text) (m : Text) :
    depthBehind (ls ++ [Text.trim (l ++ m)]) =
      depthBehind (ls ++ [Text.trim l]) + braceBalance m := by
  cases hopened : isOpened ls with
  | true =>
    rw [depthBehind_append_of_opened hopened, depthBehind_append_of_opened hopened]
    simp only [totalBalance, braceBalance_trim, braceBalance_append]
    omega
  | false =>
    obtain ⟨front, after, rfl, hfront⟩ := List.eq_append_cons_of_mem h
    rw [List.append_assoc, List.cons_append, depthBehind_append_of_not_opened hopened,
      depthBehind_append_of_not_opened hopened]
    simp only [depthBehind, cutAtBrace?_trim hfront, braceBalance_trimRight, braceBalance_append,
      totalBalance]
    omega

/-- No more closing braces than there are go uncounted. -/
theorem totalBalance_le_depthBehind (ls : List Text) : totalBalance ls ≤ depthBehind ls := by
  induction ls with
  | nil => exact Int.le_refl 0
  | cons l ls ih =>
    rw [totalBalance, depthBehind]
    cases hcut : cutAtBrace? l with
    | none => exact Int.add_le_add_left ih _
    | some parts =>
      obtain ⟨rfl, hfront⟩ := cutAtBrace?_eq_some_iff.1 hcut
      have hle : braceBalance parts.1 ≤ 0 := by
        rw [braceBalance, List.count_eq_zero_of_not_mem hfront]
        omega
      rw [braceBalance_append, braceBalance_cons, if_pos rfl]
      simp only
      omega

/-! ## Staying in a class -/

/-- What a line has of the body of a class, behind the lines before it. -/
def bodyPart? (ls : List Text) (l : Text) : Option Text :=
  if isOpened ls then some l else (cutAtBrace? l).map fun (_, after) => Text.trim after

/-- Lines that are passed over do not end a class, and neither does one behind which braces are
open still. -/
def StaysOn (ls : List Text) (l : Text) : Prop :=
  ∀ part ∈ bodyPart? ls l, isPassedOver part = true ∨ 0 < depthBehind (ls ++ [l])

instance (ls : List Text) (l : Text) : Decidable (StaysOn ls l) :=
  inferInstanceAs
    (Decidable (∀ part ∈ bodyPart? ls l, isPassedOver part = true ∨ 0 < depthBehind (ls ++ [l])))

theorem staysOn_of_opened {l : Text} (h : isOpened ls = true) :
    StaysOn ls l ↔ isPassedOver l = true ∨ 0 < depthBehind ls + braceBalance l := by
  have hdepth : depthBehind (ls ++ [l]) = depthBehind ls + braceBalance l := by
    rw [depthBehind_append_of_opened h]
    exact congrArg _ (Int.add_zero _)
  simp [StaysOn, bodyPart?, h, hdepth]

theorem staysOn_of_header {l : Text} (h : isOpened ls = false) (hcut : cutAtBrace? l = none) :
    StaysOn ls l := by
  simp [StaysOn, bodyPart?, h, hcut]

theorem staysOn_of_opening {l front after : Text} (h : isOpened ls = false)
    (hcut : cutAtBrace? l = some (front, after)) :
    StaysOn ls l ↔
      isPassedOver (Text.trim after) = true ∨ 0 < depthBehind ls + 1 + braceBalance after := by
  have hdepth : depthBehind (ls ++ [l]) = depthBehind ls + 1 + braceBalance after := by
    rw [depthBehind_append_of_not_opened h, depthBehind, hcut]
    simp [totalBalance, Int.add_assoc]
  simp [StaysOn, bodyPart?, h, hcut, hdepth]

/-- What a scan knows of classes and braces. -/
def Scan.standing (s : Scan) : Bool × Bool × Int × Int :=
  (s.inClass, s.inBody, s.depth, s.entryDepth)

theorem Scan.standing_readMember (s : Scan) (l : Line) :
    (s.readMember l).1.standing = s.standing := by
  rw [readMember]
  split
  · rfl
  · split <;> rfl

/-- Annotations and members change nothing about where the scan stands. -/
theorem Scan.standing_readBodyLine (s : Scan) (l : Line) :
    (s.readBodyLine l).1.standing = s.standing := by
  rw [readBodyLine]
  split
  · split
    · rfl
    · exact standing_readMember s l
  · simp only
    split
    · rfl
    · split
      · rfl
      · exact standing_readMember { s with held := [] } _

theorem Scan.standing_leave (s : Scan) :
    s.leave.standing =
      (s.inClass && decide (s.entryDepth < s.depth), s.inBody, s.depth, s.entryDepth) := by
  rw [leave]
  split
  · rename_i h
    simp [standing, Int.not_lt.2 h]
  · rename_i h
    simp [standing, Int.not_le.1 h]

theorem Scan.standing_stepBody (s : Scan) (l : Line) :
    (s.stepBody l).1.standing =
      (s.inClass && (isPassedOver l.erased ||
          decide (s.entryDepth < s.depth + braceBalance l.erased)),
        s.inBody, s.depth + braceBalance l.erased, s.entryDepth) := by
  rw [stepBody]
  cases hpassed : isPassedOver l.erased with
  | true => simp [standing]
  | false =>
    have hread := standing_readBodyLine { s with depth := s.depth + braceBalance l.erased } l
    simp only [standing, Prod.mk.injEq] at hread
    obtain ⟨hclass, hbody, hdepth, hentry⟩ := hread
    simp only [Bool.false_eq_true, if_false, standing_leave, hclass, hbody, hdepth, hentry,
      Bool.false_or]

/-- A scan that entered a class with no brace open and has read some lines since. -/
structure Scan.Tracks (s : Scan) (ls : List Text) : Prop where
  inClass : s.inClass = true
  inBody : s.inBody = isOpened ls
  depth : s.depth = depthBehind ls
  entryDepth : s.entryDepth = 0

theorem Scan.tracks_enter : Scan.start.enter.Tracks [] := ⟨rfl, rfl, rfl, rfl⟩

theorem Scan.tracks_iff {s : Scan} :
    s.Tracks ls ↔ s.standing = (true, isOpened ls, depthBehind ls, 0) := by
  simp only [standing, Prod.mk.injEq]
  constructor
  · intro h
    exact ⟨h.inClass, h.inBody, h.depth, h.entryDepth⟩
  · rintro ⟨hclass, hbody, hdepth, hentry⟩
    exact ⟨hclass, hbody, hdepth, hentry⟩

/-- A scan that entered a class, with any number of braces open, and has read some lines since. -/
structure Scan.Follows (s : Scan) (ls : List Text) : Prop where
  inClass : s.inClass = true
  inBody : s.inBody = isOpened ls
  depth : s.depth = s.entryDepth + depthBehind ls

theorem Scan.follows_enter (s : Scan) : s.enter.Follows [] := ⟨rfl, rfl, (Int.add_zero _).symm⟩

theorem Scan.follows_of_standing {s : Scan} {entryDepth : Int}
    (h : s.standing = (true, isOpened ls, entryDepth + depthBehind ls, entryDepth)) :
    s.Follows ls := by
  simp only [standing, Prod.mk.injEq] at h
  obtain ⟨hclass, hbody, hdepth, rfl⟩ := h
  exact ⟨hclass, hbody, hdepth⟩

/-- One line further. -/
theorem Scan.Follows.standing_stepClass {s : Scan} (h : s.Follows ls) (l : Line) :
    (s.stepClass l).1.standing =
      (decide (StaysOn ls l.erased), isOpened (ls ++ [l.erased]),
        s.entryDepth + depthBehind (ls ++ [l.erased]), s.entryDepth) := by
  have hpositive : ∀ d : Int, s.entryDepth < s.entryDepth + d ↔ 0 < d := by
    intro d
    omega
  rw [stepClass, h.inBody, isOpened_concat]
  cases hopened : isOpened ls with
  | true =>
    rw [if_pos rfl, standing_stepBody, h.inClass, h.inBody, h.depth, hopened,
      depthBehind_append_of_opened hopened, Int.add_assoc]
    simp [hpositive, staysOn_of_opened hopened, totalBalance]
  | false =>
    rw [depthBehind_append_of_not_opened hopened, depthBehind]
    cases hcut : cutAtBrace? l.erased with
    | none =>
      simp [Line.afterBrace?, hcut, standing, h.inClass, h.depth, depthBehind,
        staysOn_of_header hopened hcut, Int.add_assoc]
    | some parts =>
      simp [Line.afterBrace?, hcut, standing_stepBody, h.inClass, h.depth, hpositive,
        braceBalance_trim, totalBalance, Int.add_assoc, staysOn_of_opening hopened hcut]

theorem Scan.Tracks.standing_step {s : Scan} (h : s.Tracks ls) (l : Line) :
    (s.step false l).1.standing =
      (decide (StaysOn ls l.erased), isOpened (ls ++ [l.erased]), depthBehind (ls ++ [l.erased]),
        0) := by
  have hfollows : s.Follows ls :=
    ⟨h.inClass, h.inBody, by rw [h.depth, h.entryDepth, Int.zero_add]⟩
  rw [step, if_pos h.inClass, hfollows.standing_stepClass, h.entryDepth, Int.zero_add]

/-! ## Runs -/

/-- The scan behind some lines. -/
def Scan.past (s : Scan) (entering : Bool) : List Line → Scan
  | [] => s
  | l :: rest => (s.step entering l).1.past false rest

theorem Scan.past_start {ls : List Line} (h : ls ≠ []) :
    Scan.start.past true ls = Scan.start.enter.past false ls := by
  cases ls with
  | nil => exact absurd rfl h
  | cons l rest => rfl

theorem forall_prefix_cons {α : Type} {p : List α → Prop} {m : α} {more : List α} :
    (∀ a, a <+: m :: more → p a) ↔ p [] ∧ ∀ a, a <+: more → p (m :: a) := by
  constructor
  · intro h
    exact ⟨h [] List.nil_prefix, fun a ha => h (m :: a) (List.cons_prefix_cons.2 ⟨rfl, ha⟩)⟩
  · rintro ⟨hnil, hcons⟩ a ha
    rcases List.prefix_cons_iff.1 ha with rfl | ⟨a, rfl, hrest⟩
    · exact hnil
    · exact hcons a hrest

theorem forall_concat_prefix_cons {α : Type} {p : List α → α → Prop} {m : α} {more : List α} :
    (∀ a l, a ++ [l] <+: m :: more → p a l) ↔
      p [] m ∧ ∀ a l, a ++ [l] <+: more → p (m :: a) l := by
  constructor
  · intro h
    refine ⟨h [] m (List.cons_prefix_cons.2 ⟨rfl, List.nil_prefix⟩), ?_⟩
    intro a l ha
    exact h (m :: a) l (List.cons_prefix_cons.2 ⟨rfl, ha⟩)
  · rintro ⟨hnil, hcons⟩ a l ha
    cases a with
    | nil =>
      obtain ⟨rfl, _⟩ := List.cons_prefix_cons.1 ha
      exact hnil
    | cons first a =>
      obtain ⟨rfl, hrest⟩ := List.cons_prefix_cons.1 ha
      exact hcons a l hrest

/-- A scan is in the class behind each of some lines just if it stays there on each of them. -/
theorem Scan.Tracks.inClass_past_iff {s : Scan} (h : s.Tracks ls) (more : List Line) :
    (∀ a, a <+: more → (s.past false a).inClass = true) ↔
      ∀ a l, a ++ [l] <+: more.map Line.erased → StaysOn (ls ++ a) l := by
  induction more generalizing s ls with
  | nil =>
    constructor
    · intro _ a l ha
      exact absurd (List.prefix_nil.1 ha) (by simp)
    · intro _ a ha
      obtain rfl := List.prefix_nil.1 ha
      exact h.inClass
  | cons m more ih =>
    have hstep := h.standing_step m
    rw [forall_prefix_cons, List.map_cons, forall_concat_prefix_cons, List.append_nil]
    by_cases hstays : StaysOn ls m.erased
    · rw [decide_eq_true hstays] at hstep
      have hrest := ih (tracks_iff.2 hstep)
      simp only [List.append_assoc, List.singleton_append] at hrest
      exact and_congr (iff_of_true h.inClass hstays) hrest
    · rw [decide_eq_false hstays] at hstep
      have hout : (s.step false m).1.inClass = false := congrArg Prod.fst hstep
      refine iff_of_false ?_ fun hboth => hstays hboth.1
      rintro ⟨_, hin⟩
      have hback : (s.step false m).1.inClass = true := hin [] List.nil_prefix
      rw [hout] at hback
      exact Bool.false_ne_true hback

theorem Scan.run_append (s : Scan) (entering : Bool) (index : Nat) (ls more : List Line) :
    s.run entering index (ls ++ more) =
      s.run entering index ls ++
        (s.past entering ls).run (entering && ls.isEmpty) (index + ls.length) more := by
  induction ls generalizing s entering index with
  | nil =>
    rw [List.nil_append, run, past, List.nil_append, List.isEmpty_nil, Bool.and_true]
    rfl
  | cons l ls ih =>
    rw [List.cons_append, run, run, past, List.isEmpty_cons, Bool.and_false]
    simp only [ih, Bool.false_and, List.append_assoc, List.length_cons, Nat.add_assoc,
      Nat.add_comm 1]

/-- What is found on the line with this number. -/
def Finding.onLine (line : Nat) (f : Finding) : Candidate := ⟨f.name, f.rawType, f.attributes, line⟩

theorem Scan.run_cons (s : Scan) (entering : Bool) (index : Nat) (l : Line) (rest : List Line) :
    s.run entering index (l :: rest) =
      ((s.step entering l).2.map (Finding.onLine index)).toList ++
        (s.step entering l).1.run false (index + 1) rest := rfl

/-- A candidate of a run is found on one line, by the scan behind the lines before. -/
theorem Scan.exists_of_mem_run {s : Scan} {entering : Bool} {index : Nat} {ls : List Line}
    {c : Candidate} (hc : c ∈ s.run entering index ls) :
    ∃ front l back, ls = front ++ l :: back ∧
      ∃ f ∈ ((s.past entering front).step (entering && front.isEmpty) l).2,
        c = f.onLine (index + front.length) := by
  induction ls generalizing s entering index with
  | nil => cases hc
  | cons l ls ih =>
    rw [run_cons] at hc
    rcases List.mem_append.1 hc with hc | hc
    · obtain ⟨f, hf, rfl⟩ := Option.map_eq_some_iff.1 (Option.mem_toList.1 hc)
      refine ⟨[], l, ls, rfl, f, ?_, rfl⟩
      rwa [List.isEmpty_nil, Bool.and_true]
    · obtain ⟨front, m, back, rfl, f, hf, rfl⟩ := ih hc
      refine ⟨l :: front, m, back, rfl, f, ?_, ?_⟩
      · rwa [List.isEmpty_cons, Bool.and_false]
      · rw [List.length_cons, Nat.add_assoc, Nat.add_comm 1]

theorem Scan.step_outside {s : Scan} (h : s.inClass = false) {l : Line}
    (hl : ClassRegion.isDeclaration l.erased = false) :
    s.step false l = ({ s with depth := s.depth + braceBalance l.erased }, none) := by
  rw [step, h, hl]
  rfl

/-- Outside classes nothing is found until one is declared. -/
theorem Scan.run_outside {s : Scan} (h : s.inClass = false) (index : Nat) {ls : List Line}
    (hnone : ∀ l ∈ ls, ClassRegion.isDeclaration l.erased = false) : s.run false index ls = [] := by
  induction ls generalizing s index with
  | nil => rfl
  | cons l ls ih =>
    obtain ⟨hl, hrest⟩ := List.forall_mem_cons.1 hnone
    rw [run, step_outside h hl]
    exact ih (s := { s with depth := s.depth + braceBalance l.erased }) h (index + 1) hrest

/-- A scan stays outside classes until one is declared. -/
theorem Scan.inClass_past_outside {s : Scan} (h : s.inClass = false) {ls : List Line}
    (hnone : ∀ l ∈ ls, ClassRegion.isDeclaration l.erased = false) :
    (s.past false ls).inClass = false := by
  induction ls generalizing s with
  | nil => exact h
  | cons l ls ih =>
    obtain ⟨hl, hrest⟩ := List.forall_mem_cons.1 hnone
    rw [past, step_outside h hl]
    exact ih (s := { s with depth := s.depth + braceBalance l.erased }) h hrest

/-! ## Regions -/

/-- The lines of a region. -/
def regionLines (erased : Text) (raw : Option Text) (r : ClassRegion) : List Line :=
  ((pairLines erased raw).take (r.lastLine + 1)).drop r.firstLine

/-- The erased lines of a region, trimmed. -/
def erasedLines (erased : Text) (r : ClassRegion) : List Text :=
  (((Text.lines erased).map Text.trim).take (r.lastLine + 1)).drop r.firstLine

/-- The scan of a region does not leave the class before it has read the last line. -/
def StaysInside (erased : Text) (raw : Option Text) (r : ClassRegion) : Prop :=
  ∀ ls, ls ≠ [] → ls <+: (regionLines erased raw r).dropLast →
    (Scan.start.past true ls).inClass = true

theorem map_erased_pairLines (erased : Text) (raw : Option Text) :
    (pairLines erased raw).map Line.erased = (Text.lines erased).map Text.trim := by
  have hplain : ∀ ts : List Text, (ts.map fun t => (⟨t, none⟩ : Line)).map Line.erased = ts := by
    intro ts
    rw [List.map_map]
    exact List.map_id ts
  rw [pairLines]
  split
  · split
    · rename_i rawLines _ hlength
      rw [beq_iff_eq] at hlength
      rw [List.map_zipWith]
      exact List.map_zip_eq_zipWith.symm.trans (List.map_fst_zip (Nat.le_of_eq hlength.symm))
    · exact hplain _
  · exact hplain _

theorem map_erased_regionLines (erased : Text) (raw : Option Text) (r : ClassRegion) :
    (regionLines erased raw r).map Line.erased = erasedLines erased r := by
  rw [regionLines, List.map_drop, List.map_take, map_erased_pairLines, erasedLines]

/-- **Where a scan leaves its class.**  The raw source and what is found have no part in it. -/
theorem staysInside_iff {erased : Text} {raw : Option Text} {r : ClassRegion} :
    StaysInside erased raw r ↔
      ∀ ls l, ls ++ [l] <+: (erasedLines erased r).dropLast → StaysOn ls l := by
  have hscan := Scan.tracks_enter.inClass_past_iff (regionLines erased raw r).dropLast
  rw [List.map_dropLast, map_erased_regionLines] at hscan
  simp only [List.nil_append] at hscan
  rw [← hscan]
  constructor
  · intro h ls hbegins
    by_cases hls : ls = []
    · rw [hls]
      rfl
    · rw [← Scan.past_start hls]
      exact h ls hls hbegins
  · intro h ls hls hbegins
    rw [Scan.past_start hls]
    exact h ls hbegins

/-- Members behind the line on which a scan leaves its class are not found. -/
theorem recognize_left {erased : Text} {raw : Option Text} {r : ClassRegion} {ls more : List Line}
    (hregion : regionLines erased raw r = ls ++ more) (hls : ls ≠ [])
    (hleft : (Scan.start.past true ls).inClass = false)
    (hnone : ∀ l ∈ more, ClassRegion.isDeclaration l.erased = false) :
    recognize erased raw (some r) = Scan.start.run true r.firstLine ls := by
  have hempty : ls.isEmpty = false := by rwa [List.isEmpty_eq_false_iff]
  have hrun : recognize erased raw (some r) =
      Scan.start.run true r.firstLine (regionLines erased raw r) := rfl
  rw [hrun, hregion, Scan.run_append, hempty, Bool.and_false, Scan.run_outside hleft _ hnone,
    List.append_nil]

end RazorViews.Member
