import RazorViews.Proofs.Member.Classes
import RazorViews.Proofs.Member.Lines

/-!
# Texts one behind the other

A file may hold many classes, and a scan of the whole of it should find what scans of the classes
would find.

## What is proved

`recognize_sequence` is about a text that ends outside classes (`EndsOutside`), and any other text
on the lines behind it.

* What is recognized in both is what is recognized in the first one, and then what is recognized in
  the second one alone, with the numbers of its lines raised by the lines of the first one.
* So it is with the source beside the two, as long as each has as many lines there.
* Both end outside classes exactly if the second one does, so this can go on.
* The reason is stated as well, for any lines and whatever was read before: a scan that is outside
  classes enters the next one as a scan from the start does, except for the number of open braces,
  and with another number of open braces it finds the same.

The braces of the first text need not be balanced.  It may have closed more of them than it has
opened, or have left some open, in whatever stands between its classes.

## What it is not

A text that ends within a class goes on into the next one, and nothing is said of it here.  A class
whose closing brace was overlooked is of this kind too; see `foundBehind_recognize`.

## The proof

A scan compares the braces that are open with those that were open when it entered the class, so it
does not matter how many that were: `Scan.step_raise`.  Whichever line it leaves a class on, it
leaves with nothing set aside: `Scan.isTidy_past`.
-/

namespace RazorViews.Member

variable {s : Scan} {inside : Option (List Text)}

/-! ## More open braces -/

/-- The scan with so many more braces open, now and when the class was entered. -/
def Scan.raise (n : Int) (s : Scan) : Scan :=
  { s with depth := n + s.depth, entryDepth := n + s.entryDepth }

theorem Scan.enter_raise (n : Int) (s : Scan) : (s.raise n).enter = s.enter.raise n := rfl

/-- Braces counted on top of others. -/
theorem Scan.count_raise (n b : Int) (s : Scan) :
    ({ s.raise n with depth := (s.raise n).depth + b } : Scan) =
      ({ s with depth := s.depth + b } : Scan).raise n := by
  simp only [raise, Int.add_assoc]

theorem Scan.readMember_raise (n : Int) (s : Scan) (l : Line) :
    (s.raise n).readMember l = (s.readMember l).map (Scan.raise n) id := by
  rw [readMember, readMember]
  dsimp only
  split
  · rfl
  · split <;> rfl

theorem Scan.readBodyLine_raise (n : Int) (s : Scan) (l : Line) :
    (s.raise n).readBodyLine l = (s.readBodyLine l).map (Scan.raise n) id := by
  have hheld : (s.raise n).held = s.held := rfl
  rw [readBodyLine, readBodyLine, hheld]
  dsimp only
  split
  · split
    · rfl
    · exact s.readMember_raise n l
  · split
    · rfl
    · split
      · rfl
      · exact readMember_raise n { s with held := [] } _

theorem Scan.leave_raise (n : Int) (s : Scan) : (s.raise n).leave = s.leave.raise n := by
  have hleft : (s.raise n).depth ≤ (s.raise n).entryDepth ↔ s.depth ≤ s.entryDepth :=
    Int.add_le_add_iff_left n
  rw [leave, leave]
  by_cases h : s.depth ≤ s.entryDepth
  · rw [if_pos h, if_pos (hleft.2 h)]
    rfl
  · rw [if_neg h, if_neg (mt hleft.1 h)]

theorem Scan.stepBody_raise (n : Int) (s : Scan) (l : Line) :
    (s.raise n).stepBody l = (s.stepBody l).map (Scan.raise n) id := by
  rw [stepBody, stepBody, count_raise]
  dsimp only
  split
  · rfl
  · rw [readBodyLine_raise]
    exact Prod.ext (leave_raise n _) rfl

theorem Scan.stepClass_raise (n : Int) (s : Scan) (l : Line) :
    (s.raise n).stepClass l = (s.stepClass l).map (Scan.raise n) id := by
  have hbody : (s.raise n).inBody = s.inBody := rfl
  rw [stepClass, stepClass, count_raise, hbody]
  split
  · exact s.stepBody_raise n l
  · split
    · rfl
    · rename_i rest _
      rw [← stepBody_raise]
      refine congrArg (Scan.stepBody · rest) ?_
      simp only [raise, Int.add_assoc]

/-- A scan takes a line alike however many braces are open. -/
theorem Scan.step_raise (n : Int) (s : Scan) (entering : Bool) (l : Line) :
    (s.raise n).step entering l = (s.step entering l).map (Scan.raise n) id := by
  have hin : (s.raise n).inClass = s.inClass := rfl
  rw [step, step, count_raise, enter_raise, hin]
  split
  · exact s.stepClass_raise n l
  · split
    · exact s.enter.stepClass_raise n l
    · rfl

theorem Scan.run_raise (n : Int) (s : Scan) (entering : Bool) (index : Nat) (ls : List Line) :
    (s.raise n).run entering index ls = s.run entering index ls := by
  induction ls generalizing s entering index with
  | nil => rfl
  | cons l ls ih =>
    rw [run_cons, run_cons, step_raise]
    exact congrArg _ (ih _ false (index + 1))

/-! ## Outside classes -/

/-- Outside classes nothing is set aside. -/
def Scan.IsTidy (s : Scan) : Prop := s.inClass = false → s.reading = ([], [])

theorem Scan.Follows.isTidy_stepClass {before : List Text} (h : s.Follows before) (l : Line) :
    (s.stepClass l).1.IsTidy := by
  intro hout
  have hleaves : ¬ StaysOn before l.erased := by
    rw [← decide_eq_false_iff_not]
    exact (congrArg Prod.fst (h.standing_stepClass l)).symm.trans hout
  rcases h.stepClass_cases l with ⟨-, hstays, -, -⟩ | ⟨s', part, -, -, -, -, hreading⟩
  · exact absurd hstays hleaves
  · rw [hreading, if_neg hleaves]

theorem Scan.IsTidy.step (h : s.IsTidy) (hs : s.StandsIn inside) (entering : Bool) (l : Line) :
    (s.step entering l).1.IsTidy := by
  rcases hs.step_cases entering l with ⟨-, -, hstep⟩ | ⟨before, s', -, hs', hstep, -⟩
  · rw [hstep]
    exact h
  · rw [hstep]
    exact hs'.isTidy_stepClass l

/-- By whichever line a scan has left a class, it has nothing set aside. -/
theorem Scan.isTidy_past (entering : Bool) (ls : List Line) :
    (Scan.start.past entering ls).IsTidy :=
  standsIn_start.past_of_step (fun hs h entering l => h.step hs entering l) (fun _ => rfl)
    entering ls

/-- A scan outside classes enters one as from the start, with the braces open that it has
counted. -/
theorem Scan.IsTidy.enter_eq (h : s.IsTidy) (hout : s.inClass = false) :
    s.enter = Scan.start.enter.raise s.depth := by
  obtain ⟨hpending, hheld⟩ := Prod.mk.inj (h hout)
  simp [enter, raise, start, hheld]

/-- A scan outside classes goes on as from the start. -/
theorem Scan.IsTidy.run_eq (h : s.IsTidy) (hout : s.inClass = false) (index : Nat)
    (ls : List Line) : s.run false index ls = Scan.start.run false index ls := by
  induction ls generalizing s index with
  | nil => rfl
  | cons l ls ih =>
    have hin : ¬ s.inClass = true := by
      rw [hout]
      exact Bool.false_ne_true
    have hstart : ¬ Scan.start.inClass = true := Bool.false_ne_true
    rw [run_cons, run_cons, Scan.step, Scan.step, if_neg hin, if_neg hstart]
    cases false || ClassRegion.isDeclaration l.erased with
    | true =>
      rw [if_pos rfl, if_pos rfl, h.enter_eq hout, stepClass_raise]
      exact congrArg _ (run_raise _ _ false (index + 1) ls)
    | false =>
      -- both only count, and may go on as from the start again
      have hgo : ∀ d : Int, ({ s with depth := d } : Scan).run false (index + 1) ls =
          Scan.start.run false (index + 1) ls :=
        fun d => ih (s := { s with depth := d }) h hout (index + 1)
      have hgo' : ∀ d : Int, ({ Scan.start with depth := d } : Scan).run false (index + 1) ls =
          Scan.start.run false (index + 1) ls :=
        fun d => ih (s := { Scan.start with depth := d }) (fun _ => rfl) rfl (index + 1)
      rw [if_neg Bool.false_ne_true, if_neg Bool.false_ne_true]
      exact congrArg _ ((hgo _).trans (hgo' _).symm)

/-- **Lines behind others** that leave no class open are read as if they stood alone. -/
theorem Scan.run_sequence {front : List Line} (hout : (Scan.start.past false front).inClass = false)
    (back : List Line) :
    Scan.start.run false 0 (front ++ back) =
      Scan.start.run false 0 front ++
        (Scan.start.run false 0 back).map (Candidate.lower front.length) := by
  rw [run_append, Bool.false_and, (isTidy_past false front).run_eq hout, Nat.zero_add, ← run_add,
    Nat.add_zero]

/-! ## Recognizing -/

/-- Lines without their source beside them. -/
theorem pairLines_none (t : Text) :
    pairLines t none = (Text.lines t).map fun l => ⟨Text.trim l, none⟩ := by
  rw [pairLines, Option.map_none, List.map_map]
  rfl

theorem pairLines_sequence (t u : Text) :
    pairLines (t ++ '\n' :: u) none = pairLines t none ++ pairLines u none := by
  simp only [pairLines_none, Text.lines, Text.splitAt_append_sep, List.map_append]

/-- Source whose lines stand beside those of two texts. -/
theorem pairLines_sequence_some {t u source source' : Text}
    (ht : Text.lineFeeds t = Text.lineFeeds source)
    (hu : Text.lineFeeds u = Text.lineFeeds source') :
    pairLines (t ++ '\n' :: u) (some (source ++ '\n' :: source')) =
      pairLines t (some source) ++ pairLines u (some source') := by
  have hlines : ∀ {a b : Text}, Text.lineFeeds a = Text.lineFeeds b →
      (Text.lines a).length = (Text.lines b).length := by
    intro a b hab
    rw [Text.length_lines, Text.length_lines, hab]
  have hboth : Text.lineFeeds (t ++ '\n' :: u) = Text.lineFeeds (source ++ '\n' :: source') := by
    rw [Text.lineFeeds, Text.lineFeeds, List.count_append, List.count_append, List.count_cons_self,
      List.count_cons_self, ← Text.lineFeeds, ht, ← Text.lineFeeds, hu, Text.lineFeeds,
      Text.lineFeeds]
  rw [pairLines_eq_zipWith (hlines hboth), pairLines_eq_zipWith (hlines ht),
    pairLines_eq_zipWith (hlines hu)]
  simp only [Text.lines, Text.splitAt_append_sep]
  exact List.zipWith_append (hlines ht)

/-- The scan of all lines of the text stands outside classes behind the last one. -/
def EndsOutside (t : Text) : Prop := (Scan.start.past false (pairLines t none)).inClass = false

instance (t : Text) : Decidable (EndsOutside t) :=
  inferInstanceAs (Decidable ((Scan.start.past false (pairLines t none)).inClass = false))

/-- Whether a scan stands in a class is decided by the erased lines. -/
theorem inClass_past_pairLines (t : Text) (raw : Option Text) :
    (Scan.start.past false (pairLines t raw)).inClass =
      (enclosing none false ((Text.lines t).map Text.trim)).isSome := by
  have hstands := Scan.standsIn_start.past false (pairLines t raw)
  rw [map_erased_pairLines] at hstands
  exact hstands.inClass_eq

theorem endsOutside_iff {t : Text} :
    EndsOutside t ↔ enclosing none false ((Text.lines t).map Text.trim) = none := by
  rw [EndsOutside, inClass_past_pairLines, Option.isSome_eq_false_iff, Option.isNone_iff_eq_none]

/-- **Scanning a whole text is compositional.**  Behind a text that ends outside classes, however
its braces come out, another one is read as if it stood alone, with or without source beside the
two, and ends outside just if it does so alone.  For no scan takes anything along from one class
into the next but the number of open braces, and that makes no difference there. -/
theorem recognize_sequence {t : Text} (h : EndsOutside t) (u : Text) :
    recognize (t ++ '\n' :: u) none none =
        recognize t none none ++
          (recognize u none none).map (Candidate.lower (Text.lines t).length) ∧
      (∀ source source', Text.lineFeeds t = Text.lineFeeds source →
        Text.lineFeeds u = Text.lineFeeds source' →
        recognize (t ++ '\n' :: u) (some (source ++ '\n' :: source')) none =
          recognize t (some source) none ++
            (recognize u (some source') none).map (Candidate.lower (Text.lines t).length)) ∧
      (EndsOutside (t ++ '\n' :: u) ↔ EndsOutside u) ∧
      ∀ ls, (Scan.start.past false ls).inClass = false →
        (Scan.start.past false ls).enter =
            Scan.start.enter.raise (Scan.start.past false ls).depth ∧
          ∀ index more, (Scan.start.past false ls).enter.run false index more =
            Scan.start.enter.run false index more := by
  have houtside : ∀ raw, (Scan.start.past false (pairLines t raw)).inClass = false := by
    intro raw
    rw [inClass_past_pairLines, endsOutside_iff.1 h, Option.isSome_none]
  have hlength : ∀ raw, (pairLines t raw).length = (Text.lines t).length := by
    intro raw
    have hmap := congrArg List.length (map_erased_pairLines t raw)
    simpa only [List.length_map] using hmap
  refine ⟨?_, ?_, ?_, ?_⟩
  · rw [recognize, pairLines_sequence, ← hlength none]
    exact Scan.run_sequence (houtside none) _
  · intro source source' ht hu
    rw [recognize, pairLines_sequence_some ht hu, ← hlength (some source)]
    exact Scan.run_sequence (houtside (some source)) _
  · rw [endsOutside_iff, endsOutside_iff, Text.lines, Text.splitAt_append_sep, List.map_append,
      enclosing_append, ← Text.lines, endsOutside_iff.1 h, Bool.false_and, Text.lines]
  · intro ls hout
    have henter := (Scan.isTidy_past false ls).enter_eq hout
    refine ⟨henter, ?_⟩
    intro index more
    rw [henter, Scan.run_raise]

/-- A class behind which braces are closed that nothing has opened, and an annotation begins. -/
def lopsided : Text :=
  "class A\n\x7b\n  [Key]\n  public int X \x7b get; set; \x7d\n".toList ++
    "  [Key,\n\x7d \x7d \x7d\n[Key,".toList

/-- A class with a property that has no annotation. -/
def plain : Text := "class B \x7b\n  public int Y \x7b get; set; \x7d\n\x7d".toList

theorem recognize_sequence_lopsided :
    recognize (lopsided ++ '\n' :: plain) none none =
        [⟨"X".toList, "int".toList, ["Key".toList], 3⟩, ⟨"Y".toList, "int".toList, [], 8⟩] ∧
      recognize (lopsided ++ '\n' :: plain) (some (lopsided ++ '\n' :: plain)) none =
        [⟨"X".toList, "int".toList, ["Key".toList], 3⟩, ⟨"Y".toList, "int".toList, [], 8⟩] ∧
      EndsOutside (lopsided ++ '\n' :: plain) ∧
      (Scan.start.past false (pairLines lopsided none)).enter = Scan.start.enter.raise (-2) := by
  have hends : EndsOutside lopsided := by decide +kernel
  have hdepth : (Scan.start.past false (pairLines lopsided none)).depth = -2 := by decide +kernel
  have hfirst : ∀ raw ∈ [none, some lopsided], recognize lopsided raw none =
      [⟨"X".toList, "int".toList, ["Key".toList], 3⟩] := by decide +kernel
  have hsecond : ∀ raw ∈ [none, some plain], (recognize plain raw none).map (Candidate.lower 7) =
      [⟨"Y".toList, "int".toList, [], 8⟩] := by decide +kernel
  have hlines : (Text.lines lopsided).length = 7 := by decide +kernel
  obtain ⟨hbare, hsource, houtside, henter⟩ := recognize_sequence hends plain
  rw [hlines] at hbare hsource
  refine ⟨?_, ?_, houtside.2 (by decide +kernel), hdepth ▸ (henter _ hends).1⟩
  · rw [hbare, hfirst none (by simp), hsecond none (by simp)]
    rfl
  · rw [hsource lopsided plain rfl rfl, hfirst (some lopsided) (by simp),
      hsecond (some plain) (by simp)]
    rfl

end RazorViews.Member
