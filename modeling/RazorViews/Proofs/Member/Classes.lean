import Mathlib.Data.List.Induction
import RazorViews.Proofs.Member.Depth

/-!
# The class that a scan stands in

A scan enters a class on a line that declares one, or where it is told to, and leaves it behind the
first line that is not passed over and behind which no brace of the class is open.  Which class it
stands in, and how far, is said by the lines it has read of it: `enclosing`.  Neither annotations
nor members have a part in this.

* `Scan.StandsIn.past`: where a scan stands behind any lines is what `enclosing` says of them.
* `exists_declaration_of_entered`: the class that a line belongs to begins on a line that declares a
  class, or where the scan was told to enter one, and goes on from there to the line.
* `staysOn_of_entered`: on none of its lines before has the class been left.

Outside classes a line only counts.  Inside one it has a part that belongs to the body or it has
none, and what it does to the annotations set aside and to what is found is done by reading that
part: `Scan.Follows.stepClass_cases`.  Invariants of a scan are proved by these cases, and not by
taking its step apart each time.
-/

namespace RazorViews.Member

/-! ## Entering and leaving -/

/-- The lines read so far of the class that a line belongs to: those of the class that is open in
front of the line, or none yet if a class is entered on the line. -/
def entered? (inside : Option (List Text)) (entering : Bool) (l : Text) : Option (List Text) :=
  match inside with
  | some before => some before
  | none => if entering || ClassRegion.isDeclaration l then some [] else none

/-- The lines read of a class behind one more line, unless the class is left there. -/
def kept? (before : List Text) (l : Text) : Option (List Text) :=
  if StaysOn before l then some (before ++ [l]) else none

/-- The lines read of the class that is open behind a line, if one is. -/
def behind? (inside : Option (List Text)) (entering : Bool) (l : Text) : Option (List Text) :=
  (entered? inside entering l).bind fun before => kept? before l

/-- The lines read of the class that is open behind some lines, if one is; `inside` is the class
that is open in front of them. -/
def enclosing (inside : Option (List Text)) (entering : Bool) : List Text → Option (List Text)
  | [] => inside
  | l :: rest => enclosing (behind? inside entering l) false rest

/-- What is read of a line of a class: its part of the body, unless that is passed over. -/
def readPart? (before : List Text) (l : Text) : Option Text :=
  (bodyPart? before l).filter fun part => !isPassedOver part

variable {before : List Text} {inside : Option (List Text)} {entering : Bool} {s : Scan}

theorem entered?_cases {l : Text} (h : entered? inside entering l = some before) :
    inside = some before ∨
      inside = none ∧ before = [] ∧ (entering || ClassRegion.isDeclaration l) = true := by
  cases inside with
  | some lines => exact .inl h
  | none =>
    rw [entered?] at h
    split at h
    · rename_i henters
      exact .inr ⟨rfl, (Option.some.inj h).symm, henters⟩
    · exact absurd h (by simp)

theorem enclosing_append (ls more : List Text) :
    enclosing inside entering (ls ++ more) =
      enclosing (enclosing inside entering ls) (entering && ls.isEmpty) more := by
  induction ls generalizing inside entering with
  | nil => rw [List.nil_append, enclosing, List.isEmpty_nil, Bool.and_true]
  | cons first ls ih =>
    rw [List.cons_append, enclosing, ih, enclosing, List.isEmpty_cons, Bool.and_false,
      Bool.false_and]

theorem enclosing_concat (ls : List Text) (l : Text) :
    enclosing inside entering (ls ++ [l]) =
      behind? (enclosing inside entering ls) (entering && ls.isEmpty) l := by
  rw [enclosing_append, enclosing, enclosing]

/-- A class that is open behind a line is one that the line belongs to and that is not left
there. -/
theorem exists_entered {ls : List Text} {l : Text}
    (h : enclosing none false (ls ++ [l]) = some before) :
    ∃ earlier, entered? (enclosing none false ls) false l = some earlier ∧ StaysOn earlier l ∧
      before = earlier ++ [l] := by
  rw [enclosing_concat, Bool.false_and, behind?, Option.bind_eq_some_iff] at h
  obtain ⟨earlier, hentered, hkept⟩ := h
  rw [kept?] at hkept
  split at hkept
  · rename_i hstays
    exact ⟨earlier, hentered, hstays, (Option.some.inj hkept).symm⟩
  · exact absurd hkept (by simp)

/-- On none of its lines before has the class been left that a line belongs to. -/
theorem staysOn_of_entered {ls : List Text} {l : Text}
    (h : entered? (enclosing none false ls) false l = some before) {a : List Text} {m : Text}
    (hm : a ++ [m] <+: before) : StaysOn a m := by
  induction ls using List.reverseRecOn generalizing l before with
  | nil =>
    rcases entered?_cases h with hopen | ⟨-, rfl, -⟩
    · exact absurd hopen (by simp [enclosing])
    · exact absurd (List.prefix_nil.1 hm) (by simp)
  | append_singleton ls last ih =>
    rcases entered?_cases h with hopen | ⟨-, rfl, -⟩
    · obtain ⟨earlier, hentered, hstays, rfl⟩ := exists_entered hopen
      rcases List.prefix_concat_iff.1 hm with heq | hearlier
      · obtain ⟨rfl, hlast⟩ := List.append_inj' heq rfl
        obtain ⟨rfl, -⟩ := List.cons.inj hlast
        exact hstays
      · exact ih hentered hearlier
    · exact absurd (List.prefix_nil.1 hm) (by simp)

/-- The class that a line belongs to begins on a line that declares a class, and goes on from there
to the line. -/
theorem exists_declaration_of_entered {ls : List Text} {l : Text}
    (h : entered? (enclosing none false ls) false l = some before) :
    ∃ outside, ls = outside ++ before ∧
      ∃ first ∈ (before ++ [l]).head?, ClassRegion.isDeclaration first = true := by
  induction ls using List.reverseRecOn generalizing l before with
  | nil =>
    rcases entered?_cases h with hopen | ⟨-, rfl, hl⟩
    · exact absurd hopen (by simp [enclosing])
    · exact ⟨[], rfl, l, rfl, hl⟩
  | append_singleton ls last ih =>
    rcases entered?_cases h with hopen | ⟨-, rfl, hl⟩
    · obtain ⟨earlier, hentered, -, rfl⟩ := exists_entered hopen
      obtain ⟨outside, rfl, first, hfirst, hdeclares⟩ := ih hentered
      refine ⟨outside, List.append_assoc _ _ _, first, ?_, hdeclares⟩
      rw [List.head?_append, hfirst]
      rfl
    · exact ⟨ls ++ [last], (List.append_nil _).symm, l, rfl, hl⟩

/-! ## Where a scan stands -/

/-- A scan stands outside classes, or has read these lines of a class. -/
def Scan.StandsIn (s : Scan) : Option (List Text) → Prop
  | none => s.inClass = false
  | some before => s.Follows before

theorem Scan.standsIn_start : Scan.start.StandsIn none := rfl

theorem Scan.StandsIn.inClass_eq (h : s.StandsIn inside) : s.inClass = inside.isSome := by
  cases inside with
  | none => exact h
  | some before => exact h.inClass

/-- A line is taken outside classes, or inside the class that it belongs to. -/
theorem Scan.StandsIn.step_cases (h : s.StandsIn inside) (entering : Bool) (l : Line) :
    (inside = none ∧ entered? inside entering l.erased = none ∧
      s.step entering l = ({ s with depth := s.depth + braceBalance l.erased }, none)) ∨
    ∃ before s', entered? inside entering l.erased = some before ∧ s'.Follows before ∧
      s.step entering l = s'.stepClass l ∧
      (s' = s ∧ inside = some before ∨ s' = s.enter ∧ inside = none) := by
  cases inside with
  | some before =>
    exact .inr ⟨before, s, rfl, h, by rw [step, if_pos h.inClass], .inl ⟨rfl, rfl⟩⟩
  | none =>
    have hout : ¬ s.inClass = true := by
      rw [h]
      exact Bool.false_ne_true
    rw [entered?, step, if_neg hout]
    cases entering || ClassRegion.isDeclaration l.erased with
    | true => exact .inr ⟨[], s.enter, rfl, s.follows_enter, rfl, .inr ⟨rfl, rfl⟩⟩
    | false => exact .inl ⟨rfl, rfl, rfl⟩

theorem Scan.Follows.standsIn_stepClass (h : s.Follows before) (l : Line) :
    (s.stepClass l).1.StandsIn (kept? before l.erased) := by
  have hstanding := h.standing_stepClass l
  rw [kept?]
  split
  · rename_i hstays
    rw [decide_eq_true hstays] at hstanding
    exact follows_of_standing hstanding
  · rename_i hleaves
    rw [decide_eq_false hleaves] at hstanding
    exact congrArg Prod.fst hstanding

/-- Where a scan stands behind a line. -/
theorem Scan.StandsIn.step (h : s.StandsIn inside) (entering : Bool) (l : Line) :
    (s.step entering l).1.StandsIn (behind? inside entering l.erased) := by
  rw [behind?]
  rcases h.step_cases entering l with ⟨rfl, hout, hstep⟩ | ⟨before, s', hin, hs', hstep, -⟩
  · rw [hout, hstep]
    exact h
  · rw [hin, hstep]
    exact hs'.standsIn_stepClass l

/-- Where a scan stands behind several lines. -/
theorem Scan.StandsIn.past (h : s.StandsIn inside) (entering : Bool) (ls : List Line) :
    (s.past entering ls).StandsIn (enclosing inside entering (ls.map Line.erased)) := by
  induction ls generalizing s inside entering with
  | nil => exact h
  | cons l ls ih => exact ih (h.step entering l) false

/-- What every step keeps, a scan has behind any lines. -/
theorem Scan.StandsIn.past_of_step {P : Scan → Prop}
    (hstep : ∀ {s : Scan} {inside}, s.StandsIn inside → P s → ∀ entering l,
      P (s.step entering l).1)
    (h : s.StandsIn inside) (hP : P s) (entering : Bool) (ls : List Line) :
    P (s.past entering ls) := by
  induction ls generalizing s inside entering with
  | nil => exact hP
  | cons l ls ih => exact ih (h.step entering l) (hstep h hP entering l) false

/-! ## Inside a class -/

/-- What a scan has set aside: annotations, and the lines of an annotation that is open. -/
def Scan.reading (s : Scan) : List Text × List Line := (s.pending, s.held)

/-- A class is left with everything that was set aside, or it is not left. -/
theorem Scan.leave_cases (h : s.inClass = true) :
    s.leave.inClass = true ∧ s.leave = s ∨
      s.leave.inClass = false ∧ s.leave.reading = ([], []) := by
  rw [leave]
  split
  · exact .inr ⟨rfl, rfl⟩
  · exact .inl ⟨h, rfl⟩

theorem Scan.stepBody_cases (s : Scan) (l : Line) :
    (isPassedOver l.erased = true ∧ (s.stepBody l).2 = none ∧
      (s.stepBody l).1.reading = s.reading) ∨
    ∃ s' : Scan, s'.reading = s.reading ∧ s'.inClass = s.inClass ∧ isPassedOver l.erased = false ∧
      s.stepBody l = ((s'.readBodyLine l).1.leave, (s'.readBodyLine l).2) := by
  rw [stepBody]
  cases isPassedOver l.erased with
  | true => exact .inl ⟨rfl, rfl, rfl⟩
  | false => exact .inr ⟨{ s with depth := s.depth + braceBalance l.erased }, rfl, rfl, rfl, rfl⟩

/-- The part of a line that is read in a class. -/
theorem Scan.Follows.exists_part (h : s.Follows before) (l : Line) :
    (bodyPart? before l.erased = none ∧ (s.stepClass l).2 = none ∧
      (s.stepClass l).1.reading = s.reading) ∨
    ∃ (s' : Scan) (part : Line), bodyPart? before l.erased = some part.erased ∧
      (l.raw = none → part.raw = none) ∧ s'.reading = s.reading ∧ s'.inClass = true ∧
      s.stepClass l = s'.stepBody part := by
  rw [stepClass, h.inBody, bodyPart?]
  cases isOpened before with
  | true => exact .inr ⟨s, l, rfl, id, rfl, h.inClass, rfl⟩
  | false =>
    rw [Line.afterBrace?]
    cases cutAtBrace? l.erased with
    | none => exact .inl ⟨rfl, rfl, rfl⟩
    | some parts =>
      refine .inr ⟨{ s with depth := s.depth + 1, inBody := true }, _, rfl, ?_, rfl, h.inClass, rfl⟩
      intro hraw
      rw [hraw]
      rfl

/-- **Inside a class** a line of which nothing is read changes nothing about what is set aside, and
the class is not left behind it.  Otherwise what is set aside and what is found comes of the part
that is read, and what is set aside then is lost if the class is left behind the line. -/
theorem Scan.Follows.stepClass_cases (h : s.Follows before) (l : Line) :
    (readPart? before l.erased = none ∧ StaysOn before l.erased ∧ (s.stepClass l).2 = none ∧
      (s.stepClass l).1.reading = s.reading) ∨
    ∃ (s' : Scan) (part : Line), readPart? before l.erased = some part.erased ∧
      (l.raw = none → part.raw = none) ∧ s'.reading = s.reading ∧
      (s.stepClass l).2 = (s'.readBodyLine part).2 ∧
      (s.stepClass l).1.reading =
        if StaysOn before l.erased then (s'.readBodyLine part).1.reading else ([], []) := by
  have hinClass : (s.stepClass l).1.inClass = decide (StaysOn before l.erased) :=
    congrArg Prod.fst (h.standing_stepClass l)
  rw [readPart?]
  rcases h.exists_part l with ⟨hnone, hfound, hreading⟩ | ⟨s', part, hpart, hraw, hs', hin, hstep⟩
  · refine .inl ⟨by rw [hnone, Option.filter_none], ?_, hfound, hreading⟩
    rw [StaysOn, hnone]
    exact fun _ hpart => absurd hpart (by simp)
  · rw [hstep] at hinClass ⊢
    rw [hpart, Option.filter_some]
    rcases s'.stepBody_cases part with ⟨hpassed, hfound, hreading⟩ | ⟨s'', hs'', hin', hread, hbody⟩
    · refine .inl ⟨by rw [hpassed]; rfl, ?_, hfound, hreading.trans hs'⟩
      intro _ hmem
      obtain rfl := Option.some.inj (hpart.symm.trans hmem)
      exact .inl hpassed
    · refine .inr ⟨s'', part, by rw [hread]; rfl, hraw, hs''.trans hs', by rw [hbody], ?_⟩
      rw [hbody] at hinClass ⊢
      have hsame : (s''.readBodyLine part).1.inClass = s''.inClass :=
        congrArg Prod.fst (s''.standing_readBodyLine part)
      rcases leave_cases (hsame.trans (hin'.trans hin)) with ⟨hstays, hleave⟩ | ⟨hleft, hleave⟩
      · rw [if_pos (decide_eq_true_iff.1 (hinClass.symm.trans hstays)), hleave]
      · rw [if_neg (decide_eq_false_iff_not.1 (hinClass.symm.trans hleft)), hleave]

end RazorViews.Member
