import RazorViews.Proofs.Member.Legible
import RazorViews.Proofs.Member.Lines

/-!
# Recovering literals

With the source at hand the annotations of a property are those of the source, with what their
literals hold; without it they are those of the erased lines.  What erasing leaves of both is the
same if comments and longer literals keep off brackets: `forall₂_recognize_recovered`.  The
candidates then stand one beside the other and differ in nothing else.

The lines of an annotation that is left open are set aside and joined.  On legible lines they are
without comments, and as many brackets are open behind them in the source as in the erased lines
(`Scan.Sound`).  A step keeps this up (`Scan.Sound.step`), and so each line is read with the same
annotations whether its source is at hand or not (`Scan.Sound.takes`).

A line that is passed over while an annotation is open would be left out of the joined lines; so
where a bracket is open every line that is not blank has to be read (`Line.IsPassable`).
-/

namespace RazorViews.Member

open Source Annotations

variable {inner outer : Nat} {l : Line} {s : Scan}

/-! ## Lines set aside -/

theorem raw_joinLines_concat {held : List Line} (h : held ≠ []) (l : Line) :
    (joinLines (held ++ [l])).raw =
      (joinLines held).raw.bind fun raw => l.raw.map fun more => raw ++ ' ' :: more := by
  rw [joinLines, joinLines, List.mapM_append]
  obtain ⟨first, held, rfl⟩ := List.exists_cons_of_ne_nil h
  rw [List.mapM_cons]
  cases hfirst : first.raw with
  | none => rfl
  | some raw =>
    cases hheld : held.mapM Line.raw with
    | none => rfl
    | some raws =>
      cases hlast : l.raw with
      | none => simp [hlast]
      | some more =>
        have hconcat := join_concat [' '] (List.cons_ne_nil raw raws) more
        simpa [hlast] using hconcat

/-- The lines that a scan has set aside are without comments, if their source is at hand, and
`inner` brackets are open behind them. -/
structure Scan.Sound (inner : Nat) (s : Scan) : Prop where
  holdsOpen : s.HoldsOpen
  idle : s.inClass = false ∨ s.inBody = false → s.held = []
  whole : s.held ≠ [] → ∀ raw ∈ (joinLines s.held).raw, ∃ start xs, Short xs ∧ raw = written xs ∧
    (joinLines s.held).erased = left xs ∧ opens start xs = inner ∧ 0 < inner

theorem Scan.sound_of_nil (h : s.held = []) : s.Sound inner :=
  ⟨holdsOpen_of_nil h, fun _ => h, fun hne => absurd h hne⟩

/-- A legible line goes on with the lines that are set aside. -/
theorem Scan.Sound.isLegible (h : s.Sound inner) (hne : s.held ≠ [])
    (hl : l.IsLegible inner outer) :
    ∃ start, (joinLines (s.held ++ [l])).IsLegible start outer := by
  simp only [Line.IsLegible, raw_joinLines_concat hne, erased_joinLines_concat hne]
  cases hraw : (joinLines s.held).raw with
  | none => exact ⟨0, by simp⟩
  | some raw =>
    obtain ⟨start, xs, hxs, rfl, herased, rfl, hopen⟩ := h.whole hne raw hraw
    refine ⟨start, ?_⟩
    intro raw hsome
    obtain ⟨more, hmore, rfl⟩ := Option.map_eq_some_iff.1 (by simpa using hsome)
    obtain ⟨behind, hlegible⟩ := hl more hmore
    rw [herased]
    exact ⟨false, legible_join hxs hopen hlegible⟩

/-- Lines that leave an annotation open are set aside. -/
theorem sound_of_unfinished {held : List Line} (hl : (joinLines held).IsLegible inner outer)
    (hopen : (split (joinLines held).erased).unfinished = true) (hin : s.inClass = true)
    (hbody : s.inBody = true) : ({ s with held := held } : Scan).Sound outer where
  holdsOpen := fun _ => hopen
  idle := by simp [hin, hbody]
  whole := by
    intro hne raw hraw
    obtain ⟨behind, hlegible⟩ := hl raw hraw
    obtain ⟨xs, hxs, rfl, herased, houter, hpos⟩ := exists_whole hlegible hopen
    exact ⟨inner, xs, hxs, rfl, herased, houter, hpos⟩

/-! ## Steps -/

theorem Scan.Sound.readBodyLine (h : s.Sound inner) (hl : l.IsLegible inner outer)
    (hin : s.inClass = true) (hbody : s.inBody = true) : (s.readBodyLine l).1.Sound outer := by
  have hjoined : ∃ start, (joinLines (s.held ++ [l])).IsLegible start outer := by
    by_cases hheld : s.held = []
    · rw [hheld, List.nil_append, joinLines_singleton]
      exact ⟨inner, hl⟩
    · exact h.isLegible hheld hl
  obtain ⟨start, hjoined⟩ := hjoined
  rw [Scan.readBodyLine_eq]
  split
  · exact sound_of_nil rfl
  · split
    · rename_i hopen
      exact sound_of_unfinished hjoined hopen hin hbody
    · exact sound_of_nil ({ s with held := [] }.readMember_spec _).1

theorem Scan.Sound.leave (h : s.Sound inner) : s.leave.Sound inner := by
  rw [Scan.leave]
  split
  · exact sound_of_nil rfl
  · exact h

/-- Where a bracket is open the line is read, unless it opens and closes none. -/
def Line.IsPassable (inner outer : Nat) (l : Line) : Prop :=
  isPassedOver l.erased = true → 0 < inner → outer = inner

theorem Scan.Sound.stepBody (h : s.Sound inner) (hl : l.IsLegible inner outer)
    (hpass : s.held ≠ [] → l.IsPassable inner outer) (hin : s.inClass = true)
    (hbody : s.inBody = true) : (s.stepBody l).1.Sound outer := by
  rw [Scan.stepBody]
  dsimp only
  split
  · rename_i hpassed
    refine ⟨h.holdsOpen, h.idle, ?_⟩
    intro hne raw hraw
    obtain ⟨start, xs, hxs, rfl, herased, hopens, hpos⟩ := h.whole hne raw hraw
    rw [hpass hne hpassed hpos]
    exact ⟨start, xs, hxs, rfl, herased, hopens, hpos⟩
  · have hcounted : ({ s with depth := s.depth + braceBalance l.erased } : Scan).Sound inner :=
      ⟨h.holdsOpen, h.idle, h.whole⟩
    exact (hcounted.readBodyLine hl hin hbody).leave

theorem Scan.Sound.stepClass (h : s.Sound inner) (hl : l.IsLegible inner outer)
    (hpass : l.IsPassable inner outer) (hin : s.inClass = true) :
    (s.stepClass l).1.Sound outer := by
  rw [Scan.stepClass]
  split
  · rename_i hbody
    exact h.stepBody hl (fun _ => hpass) hin hbody
  · rename_i hbody
    have hnil : s.held = [] := h.idle (.inr (by simpa using hbody))
    split
    · exact sound_of_nil hnil
    · rename_i rest hrest
      obtain ⟨inner', hrest⟩ := hl.afterBrace hrest
      have hentered : ({ s with depth := s.depth + 1, inBody := true } : Scan).Sound inner' :=
        sound_of_nil hnil
      exact hentered.stepBody hrest (fun hne => absurd hnil hne) hin rfl

/-- What a scan has set aside stays without comments when it takes a legible line. -/
theorem Scan.Sound.step (h : s.Sound inner) (hl : l.IsLegible inner outer)
    (hpass : l.IsPassable inner outer) (entering : Bool) : (s.step entering l).1.Sound outer := by
  rw [Scan.step]
  split
  · rename_i hin
    exact h.stepClass hl hpass hin
  · rename_i hin
    have hnil : s.held = [] := h.idle (.inl (by simpa using hin))
    split
    · have henter : s.enter.Sound inner := sound_of_nil hnil
      exact henter.stepClass hl hpass rfl
    · exact sound_of_nil hnil

/-! ## What is read -/

theorem Scan.Sound.reads (h : s.Sound inner) (hl : l.IsLegible inner outer) :
    s.Reads (Line.Keeps Recovered) l := by
  refine ⟨fun _ => hl.keeps, fun hne => ?_⟩
  obtain ⟨start, hjoined⟩ := h.isLegible hne hl
  exact hjoined.keeps

theorem Scan.Sound.readsInClass (h : s.Sound inner) (hl : l.IsLegible inner outer) :
    s.ReadsInClass (Line.Keeps Recovered) l := by
  refine ⟨fun _ => h.reads hl, fun hbody rest hrest => ?_⟩
  obtain ⟨inner', hrest⟩ := hl.afterBrace hrest
  exact ⟨fun _ => hrest.keeps, fun hne => absurd (h.idle (.inr hbody)) hne⟩

/-- Whatever a legible line is read into, its annotations are the same without the source. -/
theorem Scan.Sound.takes (h : s.Sound inner) (hl : l.IsLegible inner outer) :
    s.Takes (Line.Keeps Recovered) l := by
  refine ⟨fun _ => h.readsInClass hl, fun hin => ?_⟩
  have henter : s.enter.Sound inner := sound_of_nil (h.idle (.inl hin))
  exact henter.readsInClass hl

/-! ## Runs -/

/-- Lines that are legible one after the other. -/
inductive LegibleRun : (inner : Nat) → List Line → Prop
  | nil {inner : Nat} : LegibleRun inner []
  | cons {inner outer : Nat} {l : Line} {rest : List Line} :
      l.IsLegible inner outer → l.IsPassable inner outer → LegibleRun outer rest →
      LegibleRun inner (l :: rest)

theorem LegibleRun.take {ls : List Line} (h : LegibleRun inner ls) (n : Nat) :
    LegibleRun inner (ls.take n) := by
  induction h generalizing n with
  | nil =>
    rw [List.take_nil]
    exact .nil
  | cons hl hpass _ ih =>
    cases n with
    | zero => exact .nil
    | succ n => exact .cons hl hpass (ih n)

theorem LegibleRun.drop {ls : List Line} (h : LegibleRun inner ls) (k : Nat) :
    ∃ inner, LegibleRun inner (ls.drop k) := by
  induction h generalizing k with
  | nil =>
    rw [List.drop_nil]
    exact ⟨0, .nil⟩
  | cons hl hpass hrest ih =>
    cases k with
    | zero => exact ⟨_, .cons hl hpass hrest⟩
    | succ k => exact ih k

theorem Line.isPassable_trimmed {behind : Bool} {raw erased : Text}
    (hread : isRead inner erased = true) (h : Legible behind inner outer raw erased) :
    (Line.trimmed erased raw).IsPassable inner outer := by
  intro hpassed hpos
  have hblank : Text.trim erased = [] := by
    have hpassed : isPassedOver (Text.trim erased) = true := hpassed
    rw [isRead, hpassed, beq_eq_false_iff_ne.2 (Nat.ne_of_gt hpos)] at hread
    simpa using hread
  have htrim := legible_trim h
  rw [hblank] at htrim
  exact outer_eq_of_nil htrim

theorem legibleRun_trimmed {raws eraseds : List Text} (h : LegibleLines inner raws eraseds) :
    LegibleRun inner (List.zipWith Line.trimmed eraseds raws) := by
  induction h with
  | nil => exact .nil
  | cons hread hlegible hmore ih =>
    refine .cons ?_ (Line.isPassable_trimmed hread hlegible) ih
    intro raw hraw
    obtain rfl := Option.some.inj hraw
    exact ⟨_, legible_trim hlegible⟩

theorem Scan.Sound.takesAll {ls : List Line} (h : s.Sound inner) (hls : LegibleRun inner ls)
    (entering : Bool) : s.TakesAll (Line.Keeps Recovered) entering ls := by
  induction hls generalizing s entering with
  | nil => exact trivial
  | cons hl hpass _ ih => exact ⟨h.takes hl, ih (h.step hl hpass entering) false⟩

/-- **Where comments and longer literals keep off brackets, recovering literals changes nothing but
literals**: with the source at hand and without, the same members are recognized, and erasing leaves
the same of their annotations. -/
theorem forall₂_recognize_recovered {source : Text} (h : KeepsOff source)
    (region : Option ClassRegion) :
    List.Forall₂ (Candidate.Alike Recovered) (recognize (erase source) (some source) region)
      (recognize (erase source) none region) := by
  refine forall₂_recognize piecewise_recovered ?_ region
  intro entering k n
  rw [pairLines_erase]
  obtain ⟨inner, hrun⟩ := ((legibleRun_trimmed h.legibleLines).take n).drop k
  exact (Scan.sound_of_nil rfl).takesAll hrun entering

end RazorViews.Member
