import RazorViews.Proofs.Member.Readings
import Mathlib.Data.List.Forall2

/-!
# Scans with and without the source

A scan that has the source beside the erased lines runs beside one that has not.  Both stand in the
same place after every line and find the same members; only the annotations may differ, and no more
than those of the lines differ that are read.

## What is proved

`map_outline_recognize`: of one erased text the same members are recognized whatever stands beside
it, be it the source, some other text with any number of lines, or nothing.  They are as many, in
the same order, with the same names, types and lines, and with the same *number* of annotations.

So the source can do no harm to what is recognized.  What it can do to the annotations is said in
`forall₂_recognize_recovered`, and what that does to the judgement in `judgedAlike_recognize`.

## The proof

One relation between two scans is kept by all lines: they have the same depth, are in the same class
and in the same annotation, and as many annotations are set aside (`Scan.forall₂_run`).  It is
stated for any relation `R` between annotations, so that it can be had for annotations that differ
in their literals as well as for annotations of which nothing is known.  A line gives as many
annotations as its erased form has, since the brackets are looked for there; where the source has
another number of them, those of the erased line are taken.
-/

namespace RazorViews

/-- The candidates are of one member and have like annotations. -/
structure Candidate.Alike (R : List Text → List Text → Prop) (c d : Candidate) : Prop where
  name : c.name = d.name
  rawType : c.rawType = d.rawType
  line : c.line = d.line
  attributes : R c.attributes d.attributes

/-- What there is to say of a candidate without looking into its annotations: its name, its type,
its line and how many annotations it has. -/
def Candidate.outline (c : Candidate) : Text × Text × Nat × Nat :=
  (c.name, c.rawType, c.line, c.attributes.length)

namespace Member

open Annotations

variable {l : Line} {s : Scan} {pending : List Text}

/-! ## Lines without their source -/

/-- The line with nothing beside it. -/
def Line.bare (l : Line) : Line := { l with raw := none }

theorem annotations_bare (l : Line) : l.bare.annotations = (split l.erased).groups := rfl

theorem joinLines_bare {held : List Line} (h : held ≠ []) :
    joinLines (held.map Line.bare) = (joinLines held).bare := by
  obtain ⟨first, held, rfl⟩ := List.exists_cons_of_ne_nil h
  rw [joinLines, joinLines, Line.bare, List.map_map, List.map_cons, List.mapM_cons]
  rfl

theorem afterBrace?_bare (l : Line) : l.bare.afterBrace? = l.afterBrace?.map Line.bare := by
  rw [Line.afterBrace?, Line.afterBrace?, Option.map_map]
  rfl

/-! ## The lines that are read -/

/-- What a line of a class body is read into satisfies `p`: the line, or the lines set aside joined
with it. -/
def Scan.Reads (p : Line → Prop) (s : Scan) (l : Line) : Prop :=
  (s.held = [] → p l) ∧ (s.held ≠ [] → p (joinLines (s.held ++ [l])))

/-- What a line inside a class is read into satisfies `p`. -/
def Scan.ReadsInClass (p : Line → Prop) (s : Scan) (l : Line) : Prop :=
  (s.inBody = true → s.Reads p l) ∧ (s.inBody = false → ∀ rest ∈ l.afterBrace?, s.Reads p rest)

/-- What a line is read into satisfies `p`. -/
def Scan.Takes (p : Line → Prop) (s : Scan) (l : Line) : Prop :=
  (s.inClass = true → s.ReadsInClass p l) ∧ (s.inClass = false → s.enter.ReadsInClass p l)

theorem Scan.takes_of_forall {p : Line → Prop} (h : ∀ l, p l) (s : Scan) (l : Line) :
    s.Takes p l := by
  have hreads : ∀ (s : Scan) l, s.Reads p l := fun s l => ⟨fun _ => h l, fun _ => h _⟩
  exact ⟨fun _ => ⟨fun _ => hreads s l, fun _ rest _ => hreads s rest⟩,
    fun _ => ⟨fun _ => hreads _ l, fun _ rest _ => hreads _ rest⟩⟩

/-! ## Side by side -/

/-- A comparison of annotations that is made piece by piece. -/
structure Piecewise (R : List Text → List Text → Prop) : Prop where
  nil : R [] []
  append : ∀ {a b c d : List Text}, R a b → R c d → R (a ++ c) (b ++ d)

/-- The line has like annotations with its source beside it and without. -/
def Line.Keeps (R : List Text → List Text → Prop) (l : Line) : Prop :=
  R l.annotations l.bare.annotations

/-- The scan with nothing beside its lines, and other annotations set aside. -/
def Scan.bare (s : Scan) (pending : List Text) : Scan :=
  { s with pending := pending, held := s.held.map Line.bare }

/-- The findings are of one member and have like annotations. -/
structure Finding.Alike (R : List Text → List Text → Prop) (f g : Finding) : Prop where
  name : f.name = g.name
  rawType : f.rawType = g.rawType
  attributes : R f.attributes g.attributes

/-- What comes of a line for a scan with the source beside it, and for one without. -/
def Beside (R : List Text → List Text → Prop) (result result' : Scan × Option Finding) : Prop :=
  ∃ pending, result'.1 = result.1.bare pending ∧ R result.1.pending pending ∧
    Option.Rel (Finding.Alike R) result.2 result'.2

variable {R : List Text → List Text → Prop}

theorem Scan.beside_readMember (hR : Piecewise R) (hl : l.Keeps R)
    (hpending : R s.pending pending) :
    Beside R (s.readMember l) ((s.bare pending).readMember l.bare) := by
  have hsplit : split l.bare.erased = split l.erased := rfl
  rw [Scan.readMember, Scan.readMember, hsplit]
  dsimp only
  split
  · exact ⟨pending ++ l.bare.annotations, rfl, hR.append hpending hl, .none⟩
  · split
    · exact ⟨[], rfl, hR.nil, .none⟩
    · refine ⟨[], rfl, hR.nil, .some ⟨rfl, rfl, hR.append hpending ?_⟩⟩
      split
      · exact hR.nil
      · exact hl

theorem Scan.beside_readBodyLine (hR : Piecewise R) (hl : s.Reads (Line.Keeps R) l)
    (hpending : R s.pending pending) :
    Beside R (s.readBodyLine l) ((s.bare pending).readBodyLine l.bare) := by
  have hempty : (s.bare pending).held.isEmpty = s.held.isEmpty := List.isEmpty_map
  have hheld : (s.bare pending).held ++ [l.bare] = (s.held ++ [l]).map Line.bare := by
    rw [List.map_append]
    rfl
  have hjoined : joinLines ((s.held ++ [l]).map Line.bare) = (joinLines (s.held ++ [l])).bare :=
    joinLines_bare (by simp)
  have hsplit : ∀ m : Line, split m.bare.erased = split m.erased := fun _ => rfl
  rw [Scan.readBodyLine, Scan.readBodyLine, hempty, hheld]
  dsimp only
  rw [hjoined, List.length_map, hsplit, hsplit]
  split
  · rename_i hnil
    split
    · exact ⟨pending, rfl, hpending, .none⟩
    · exact beside_readMember hR (hl.1 (List.isEmpty_iff.1 hnil)) hpending
  · rename_i hne
    split
    · exact ⟨[], rfl, hR.nil, .none⟩
    · split
      · exact ⟨pending, rfl, hpending, .none⟩
      · have hkeeps := hl.2 fun hnil => hne (List.isEmpty_iff.2 hnil)
        exact beside_readMember (s := { s with held := [] }) hR hkeeps hpending

theorem Beside.leave {result result' : Scan × Option Finding} (hR : Piecewise R)
    (h : Beside R result result') :
    Beside R (result.1.leave, result.2) (result'.1.leave, result'.2) := by
  obtain ⟨s, found⟩ := result
  obtain ⟨s', found'⟩ := result'
  obtain ⟨pending, hs', hpending, hfound⟩ := h
  obtain rfl : s' = s.bare pending := hs'
  dsimp only
  by_cases hleft : s.depth ≤ s.entryDepth
  · have hleft' : (s.bare pending).depth ≤ (s.bare pending).entryDepth := hleft
    rw [Scan.leave, if_pos hleft, Scan.leave, if_pos hleft']
    exact ⟨[], rfl, hR.nil, hfound⟩
  · have hleft' : ¬ (s.bare pending).depth ≤ (s.bare pending).entryDepth := hleft
    rw [Scan.leave, if_neg hleft, Scan.leave, if_neg hleft']
    exact ⟨pending, rfl, hpending, hfound⟩

theorem Scan.beside_stepBody (hR : Piecewise R) (hl : s.Reads (Line.Keeps R) l)
    (hpending : R s.pending pending) :
    Beside R (s.stepBody l) ((s.bare pending).stepBody l.bare) := by
  have hpassed : isPassedOver l.bare.erased = isPassedOver l.erased := rfl
  rw [Scan.stepBody, Scan.stepBody, hpassed]
  dsimp only
  split
  · exact ⟨pending, rfl, hpending, .none⟩
  · exact (beside_readBodyLine (s := { s with depth := s.depth + braceBalance l.erased }) hR hl
      hpending).leave hR

theorem Scan.beside_stepClass (hR : Piecewise R) (hl : s.ReadsInClass (Line.Keeps R) l)
    (hpending : R s.pending pending) :
    Beside R (s.stepClass l) ((s.bare pending).stepClass l.bare) := by
  have hbody : (s.bare pending).inBody = s.inBody := rfl
  rw [Scan.stepClass, Scan.stepClass, hbody, afterBrace?_bare]
  split
  · rename_i hbody
    exact beside_stepBody hR (hl.1 hbody) hpending
  · rename_i hbody
    cases hrest : l.afterBrace? with
    | none => exact ⟨pending, rfl, hpending, .none⟩
    | some rest =>
      exact beside_stepBody (s := { s with depth := s.depth + 1, inBody := true }) hR
        (hl.2 (by simpa using hbody) rest hrest) hpending

/-- A scan with the source beside a line takes it as a scan without. -/
theorem Scan.beside_step (hR : Piecewise R) (hl : s.Takes (Line.Keeps R) l)
    (hpending : R s.pending pending) (entering : Bool) :
    Beside R (s.step entering l) ((s.bare pending).step entering l.bare) := by
  have hin : (s.bare pending).inClass = s.inClass := rfl
  have herased : l.bare.erased = l.erased := rfl
  rw [Scan.step, Scan.step, hin, herased]
  split
  · rename_i hin
    exact beside_stepClass hR (hl.1 hin) hpending
  · rename_i hin
    split
    · exact beside_stepClass (s := s.enter) hR (hl.2 (by simpa using hin)) hR.nil
    · exact ⟨pending, rfl, hpending, .none⟩

/-! ## Runs -/

theorem candidate_alike {f g : Finding} (h : f.Alike R g) (index : Nat) :
    Candidate.Alike R ⟨f.name, f.rawType, f.attributes, index⟩
      ⟨g.name, g.rawType, g.attributes, index⟩ :=
  ⟨h.name, h.rawType, rfl, h.attributes⟩

/-- What the lines are read into, one after the other, satisfies `p`. -/
def Scan.TakesAll (p : Line → Prop) (s : Scan) (entering : Bool) : List Line → Prop
  | [] => True
  | l :: rest => s.Takes p l ∧ (s.step entering l).1.TakesAll p false rest

theorem Scan.takesAll_of_forall {p : Line → Prop} (h : ∀ l, p l) (s : Scan) (entering : Bool)
    (ls : List Line) : s.TakesAll p entering ls := by
  induction ls generalizing s entering with
  | nil => exact trivial
  | cons l rest ih => exact ⟨s.takes_of_forall h l, ih _ false⟩

/-- A run with the source beside the lines finds the candidates of a run without. -/
theorem Scan.forall₂_run (hR : Piecewise R) {entering : Bool} {ls : List Line}
    (hls : s.TakesAll (Line.Keeps R) entering ls) (hpending : R s.pending pending) (index : Nat) :
    List.Forall₂ (Candidate.Alike R) (s.run entering index ls)
      ((s.bare pending).run entering index (ls.map Line.bare)) := by
  induction ls generalizing s pending entering index with
  | nil => exact .nil
  | cons l rest ih =>
    obtain ⟨hl, hrest⟩ := hls
    obtain ⟨pending', hafter, hpending', hfound⟩ := beside_step hR hl hpending entering
    rw [Scan.run, List.map_cons, Scan.run]
    generalize s.step entering l = taken at hrest hafter hpending' hfound
    generalize (s.bare pending).step entering l.bare = taken' at hafter hfound
    obtain ⟨after, found⟩ := taken
    obtain ⟨after', found'⟩ := taken'
    obtain rfl : after' = after.bare pending' := hafter
    refine List.rel_append ?_ (ih hrest hpending' (index + 1))
    cases hfound with
    | none => exact .nil
    | some halike => exact .cons (candidate_alike halike index) .nil

/-! ## Recognizing -/

theorem map_bare_pairLines (erased : Text) (raw : Option Text) :
    (pairLines erased raw).map Line.bare = pairLines erased none := by
  have hbare : Line.bare = (fun t => ⟨t, none⟩) ∘ Line.erased := rfl
  rw [hbare, ← List.map_map, map_erased_pairLines]
  rfl

/-- With the source at hand the same members are recognized as without, if the lines of every
stretch are read into lines that have like annotations. -/
theorem forall₂_recognize (hR : Piecewise R) {erased : Text} {raw : Option Text}
    (h : ∀ entering k n,
      Scan.start.TakesAll (Line.Keeps R) entering (((pairLines erased raw).take n).drop k))
    (region : Option ClassRegion) :
    List.Forall₂ (Candidate.Alike R) (recognize erased raw region)
      (recognize erased none region) := by
  cases region with
  | none =>
    have hall := h false 0 (pairLines erased raw).length
    rw [List.take_length, List.drop_zero] at hall
    rw [recognize, recognize, ← map_bare_pairLines erased raw]
    exact Scan.forall₂_run hR hall hR.nil 0
  | some r =>
    rw [recognize, recognize, ← map_bare_pairLines erased raw]
    rw [← List.map_take, ← List.map_drop]
    exact Scan.forall₂_run hR (h true r.firstLine (r.lastLine + 1)) hR.nil r.firstLine

/-! ## How many annotations -/

/-- As many pieces are in both. -/
def SameCount (as bs : List Text) : Prop := as.length = bs.length

theorem piecewise_sameCount : Piecewise SameCount where
  nil := rfl
  append := by
    intro a b c d hab hcd
    rw [SameCount, List.length_append, List.length_append, hab, hcd]

theorem keeps_sameCount (l : Line) : l.Keeps SameCount := by
  rw [Line.Keeps, annotations_bare, Line.annotations]
  split
  · rfl
  · dsimp only
    split
    · rename_i hsame
      rw [Bool.and_eq_true, beq_iff_eq] at hsame
      exact hsame.2
    · rfl

/-- **Whatever source stands beside the erased lines, the same members are recognized**, on the
same lines, each with as many annotations as without. -/
theorem forall₂_recognize_sameCount (erased : Text) (raw : Option Text)
    (region : Option ClassRegion) :
    List.Forall₂ (Candidate.Alike SameCount) (recognize erased raw region)
      (recognize erased none region) :=
  forall₂_recognize piecewise_sameCount
    (fun entering _ _ => Scan.start.takesAll_of_forall keeps_sameCount entering _) region

/-- Alike candidates that have as many annotations have the same outline. -/
theorem outline_eq {c d : Candidate} (h : c.Alike SameCount d) : c.outline = d.outline := by
  rw [Candidate.outline, Candidate.outline, h.name, h.rawType, h.line, h.attributes]

/-- **What source stands beside the erased lines decides nothing** but what the annotations say. -/
theorem map_outline_recognize (erased : Text) (raw raw' : Option Text)
    (region : Option ClassRegion) :
    (recognize erased raw region).map Candidate.outline =
      (recognize erased raw' region).map Candidate.outline := by
  have hbare : ∀ raw, (recognize erased raw region).map Candidate.outline =
      (recognize erased none region).map Candidate.outline := by
    intro raw
    rw [← List.forall₂_eq_eq_eq, List.forall₂_map_left_iff, List.forall₂_map_right_iff]
    exact (forall₂_recognize_sameCount erased raw region).imp fun _ _ => outline_eq
  exact (hbare raw).trans (hbare raw').symm

end Member

end RazorViews
