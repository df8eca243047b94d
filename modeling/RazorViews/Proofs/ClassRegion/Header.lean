import RazorViews.Proofs.Pattern.Counts
import RazorViews.Proofs.Member.Depth
import RazorViews.Source.ClassRegion

/-!
# The header of a class

A header reads one opening brace more than its name holds, and that one last.  This fixes where a
header ends once it is known where it begins, whichever of its optional parts take part: the type
parameters, the bases and the constraints (`counts_headerFront`).
The name is compared without regard to case, so it needs to be known that a brace is equal to no
other character in that sense: `Text.eqFold_brace`.

Behind the header the closing brace is looked for line by line.  `closingLine?_eq_some_iff` says
without lines where it stands: behind the first body, that is the first stretch behind which no
brace is open any more of those in front of it (`IsBody`).  Where there is no such stretch, no line
is the one.
-/

namespace RazorViews

/-! ## A brace has one case only -/

/-- The number of a character is the one it was made of, or it is the null character. -/
theorem Text.toNat_ofNat (n : Nat) : (Char.ofNat n).toNat = n ∨ (Char.ofNat n).toNat = 0 := by
  by_cases h : n.isValidChar
  · left
    rw [Char.ofNat, dif_pos h]
    rfl
  · right
    rw [Char.ofNat, dif_neg h]
    rfl

theorem Text.toNat_of_image? {r : CaseRun} {n : Nat} {c : Char} (h : r.image? n = some c) :
    c.toNat = 0 ∨ r.image ≤ c.toNat ∧ c.toNat ≤ r.image + (r.last - r.first) := by
  rw [CaseRun.image?] at h
  split at h
  · rename_i hn
    simp only [Bool.and_eq_true, decide_eq_true_eq] at hn
    obtain rfl := Option.some.inj h
    rcases Text.toNat_ofNat (r.image + (n - r.first)) with heq | heq
    · right
      rw [heq]
      omega
    · exact .inl heq
  · exact absurd h (by simp)

/-- Nothing falls to an opening brace but the brace itself. -/
theorem Text.eq_brace_of_lowerChar {c : Char} (h : (Text.lowerChar c).toNat = 0x7B) :
    c = '{' := by
  rw [Text.lowerChar] at h
  split at h
  · rename_i hlt
    have hall : ∀ n < 0x80, (Char.ofNat n).toLower.toNat = 0x7B → Char.ofNat n = '{' := by
      decide +kernel
    exact Text.forall_ascii (p := fun c => c.toLower.toNat = 0x7B → c = '{') hall hlt h
  · split at h
    · exact absurd h (by decide)
    · cases himage : Text.caseImage? Text.lowerRuns c with
      | none =>
        rw [himage, Option.getD_none] at h
        rw [← Char.ofNat_toNat c, h]
      | some d =>
        rw [himage, Option.getD_some] at h
        obtain ⟨r, hr, happly⟩ := List.exists_of_findSome?_eq_some himage
        have hall : ∀ r ∈ Text.lowerRuns,
            0x7B < r.image ∨ r.image + (r.last - r.first) < 0x7B := by decide +kernel
        have := hall r hr
        have := Text.toNat_of_image? happly
        omega

/-- Without regard to case, an opening brace equals itself and nothing else. -/
theorem Text.eqFold_brace {c d : Char} (h : Text.eqFold c d = true) : c = '{' ↔ d = '{' := by
  constructor
  · rintro rfl
    have hcase : Text.hasCase '{' = false := by decide +kernel
    rw [Text.eqFold, hcase] at h
    exact (beq_iff_eq.1 h).symm
  · rintro rfl
    rw [Text.eqFold] at h
    split at h
    · have hlower : (Text.lowerChar '{').toNat = 0x7B := by decide
      have hgroups : ∀ g ∈ Text.foldGroups, g.contains 0x7B = false := by decide
      simp only [hlower, Bool.or_eq_true, beq_iff_eq, List.any_eq_true, Bool.and_eq_true] at h
      rcases h with h | ⟨g, hg, _, hmem⟩
      · exact Text.eq_brace_of_lowerChar h
      · rw [hgroups g hg] at hmem
        exact absurd hmem (by simp)
    · exact beq_iff_eq.1 h

namespace ClassRegion

open Pattern Member

/-! ## Headers -/

def headerWords : Pattern :=
  many (wordEdge ++ firstOf (modifiers.map litAnyCase) ++ blanks1) ++
  wordEdge ++ litAnyCase "class" ++ blanks1

/-- A header without its brace. -/
def headerFront (name : Text) : Pattern := headerWords ++ anyCase name ++ wordEdge ++
  maybe typeParameters ++ maybe bases ++ maybe constraints ++ blanks

theorem isLocal_anyCase (t : Text) : (anyCase t).isLocal = true := by
  induction t with
  | nil => rfl
  | cons c t ih => exact ih

theorem isLocal_headerFront (name : Text) : (headerFront name).isLocal = true := by
  have happend : ∀ a b : Pattern, (a ++ b).isLocal = (a.isLocal && b.isLocal) := fun _ _ => rfl
  simp only [headerFront, happend, isLocal_anyCase]
  decide

/-- A header reads, in front of its brace, the braces of its name. -/
theorem counts_headerFront (name : Text) : Counts '{' (name.count '{') (headerFront name) := by
  have hwords : Counts '{' 0 headerWords := counts_of_avoids (by decide +kernel)
  have hname := counts_anyCase (fun _ _ => Text.eqFold_brace) name
  have hedge : Counts '{' 0 wordEdge := counts_of_avoids rfl
  have hparameters : Counts '{' 0 (maybe typeParameters) := counts_of_avoids (by decide)
  have hbases : Counts '{' 0 (maybe bases) := counts_of_avoids (by decide +kernel)
  have hconstraints : Counts '{' 0 (maybe constraints) := counts_of_avoids (by decide +kernel)
  have hblanks : Counts '{' 0 blanks := counts_of_avoids (by decide)
  have h := (((((hwords.seq hname).seq hedge).seq hparameters).seq hbases).seq hconstraints).seq
    hblanks
  rwa [Nat.zero_add] at h

/-! ## The closing brace -/

/-- Behind the text no brace is open any more of the `depth` ones in front of it, and nowhere in it
are more closed than are open. -/
structure IsBody (depth : Int) (t : Text) : Prop where
  closed : depth + braceBalance t = 0
  inside : ∀ front, front <+: t → 0 ≤ depth + braceBalance front

theorem isBody_nil {depth : Int} : IsBody depth [] ↔ depth = 0 := by
  have hzero : braceBalance [] = 0 := rfl
  constructor
  · intro h
    have := h.closed
    omega
  · rintro rfl
    refine ⟨rfl, ?_⟩
    intro front hfront
    rw [List.prefix_nil.1 hfront, hzero]
    decide

theorem isBody_cons {depth : Int} {c : Char} {t : Text} :
    IsBody depth (c :: t) ↔
      0 ≤ depth ∧ IsBody (depth + if c = '{' then 1 else if c = '}' then -1 else 0) t := by
  have hzero : depth + braceBalance [] = depth := Int.add_zero depth
  constructor
  · rintro ⟨hclosed, hinside⟩
    rw [forall_prefix_cons, hzero] at hinside
    simp only [braceBalance_cons, ← Int.add_assoc] at hclosed hinside
    exact ⟨hinside.1, hclosed, hinside.2⟩
  · rintro ⟨hdepth, hclosed, hinside⟩
    refine ⟨?_, ?_⟩
    · rwa [braceBalance_cons, ← Int.add_assoc]
    · rw [forall_prefix_cons, hzero]
      simp only [braceBalance_cons, ← Int.add_assoc]
      exact ⟨hdepth, hinside⟩

theorem closingLine?_isBody {inner : Nat} {u : Text} (h : IsBody inner u) (line : Nat) (v : Text) :
    closingLine? inner line (u ++ '}' :: v) = some (line + Text.lineFeeds u) := by
  induction u generalizing inner line with
  | nil =>
    obtain rfl : inner = 0 := by simpa using isBody_nil.1 h
    rfl
  | cons c u ih =>
    obtain ⟨-, hrest⟩ := isBody_cons.1 h
    rw [List.cons_append]
    by_cases hopen : c = '{'
    · subst hopen
      have hdeeper : IsBody (inner + 1 : Nat) u := hrest
      simpa [closingLine?, Text.lineFeeds] using ih hdeeper line
    · rw [if_neg hopen] at hrest
      by_cases hclose : c = '}'
      · subst hclose
        rw [if_pos rfl] at hrest
        cases inner with
        | zero =>
          -- nothing is open that the brace could close
          have hnone := hrest.inside [] List.nil_prefix
          exact absurd hnone (by decide)
        | succ inner =>
          have hhigher : IsBody inner u := by
            rwa [Int.natCast_succ, Int.add_neg_cancel_right] at hrest
          simpa [closingLine?, Text.lineFeeds] using ih hhigher line
      · rw [if_neg hclose, Int.add_zero] at hrest
        by_cases hfeed : c = '\n'
        · subst hfeed
          have hmore := ih hrest (line + 1)
          rw [Nat.add_assoc, Nat.add_comm 1] at hmore
          simpa [closingLine?, Text.lineFeeds] using hmore
        · simpa [closingLine?, Text.lineFeeds, hopen, hclose, hfeed] using ih hrest line

/-- **The line of the closing brace**: behind the first body that ends there. -/
theorem closingLine?_eq_some_iff {inner line k : Nat} {t : Text} :
    closingLine? inner line t = some k ↔
      ∃ u v, t = u ++ '}' :: v ∧ IsBody inner u ∧ k = line + Text.lineFeeds u := by
  constructor
  · intro h
    fun_induction closingLine? inner line t with
    | case1 => exact absurd h (by simp)
    | case2 inner line c rest hopen ih =>
      obtain ⟨u, v, rfl, hu, rfl⟩ := ih h
      obtain rfl := beq_iff_eq.1 hopen
      refine ⟨'{' :: u, v, rfl, isBody_cons.2 ⟨Int.natCast_nonneg inner, ?_⟩, rfl⟩
      exact hu
    | case3 line c rest hopen hclose =>
      obtain rfl := beq_iff_eq.1 hclose
      exact ⟨[], rest, rfl, isBody_nil.2 rfl, (Option.some.inj h).symm⟩
    | case4 line c rest hopen hclose inner ih =>
      obtain ⟨u, v, rfl, hu, rfl⟩ := ih h
      obtain rfl := beq_iff_eq.1 hclose
      refine ⟨'}' :: u, v, rfl, isBody_cons.2 ⟨Int.natCast_nonneg _, ?_⟩, rfl⟩
      rw [if_neg (by decide), if_pos rfl, Int.natCast_succ, Int.add_neg_cancel_right]
      exact hu
    | case5 inner line c rest hopen hclose hfeed ih =>
      obtain ⟨u, v, rfl, hu, rfl⟩ := ih h
      obtain rfl := beq_iff_eq.1 hfeed
      refine ⟨'\n' :: u, v, rfl, isBody_cons.2 ⟨Int.natCast_nonneg inner, ?_⟩, ?_⟩
      · rw [if_neg (by decide), if_neg (by decide), Int.add_zero]
        exact hu
      · rw [Text.lineFeeds, Text.lineFeeds, List.count_cons_self]
        omega
    | case6 inner line c rest hopen hclose hfeed ih =>
      obtain ⟨u, v, rfl, hu, rfl⟩ := ih h
      refine ⟨c :: u, v, rfl, isBody_cons.2 ⟨Int.natCast_nonneg inner, ?_⟩, ?_⟩
      · rw [if_neg fun he => hopen (beq_iff_eq.2 he), if_neg fun he => hclose (beq_iff_eq.2 he),
          Int.add_zero]
        exact hu
      · rw [Text.lineFeeds, Text.lineFeeds, List.count_cons_of_ne fun he => hfeed (beq_iff_eq.2 he)]
  · rintro ⟨u, v, rfl, hu, rfl⟩
    exact closingLine?_isBody hu line v

theorem closingLine?_append {inner line k : Nat} {t : Text} (more : Text)
    (h : closingLine? inner line t = some k) : closingLine? inner line (t ++ more) = some k := by
  obtain ⟨u, v, rfl, hu, hk⟩ := closingLine?_eq_some_iff.1 h
  exact closingLine?_eq_some_iff.2 ⟨u, v ++ more, List.append_assoc _ _ _, hu, hk⟩

theorem closingLine?_add (n : Nat) {inner line : Nat} {t : Text} :
    closingLine? inner (n + line) t = (closingLine? inner line t).map (n + ·) := by
  fun_induction closingLine? inner line t with
  | case1 => rfl
  | case2 inner line c rest hopen ih => simpa [closingLine?, hopen] using ih
  | case3 line c rest hopen hclose => simp [closingLine?, hopen, hclose]
  | case4 line c rest hopen hclose inner ih => simpa [closingLine?, hopen, hclose] using ih
  | case5 inner line c rest hopen hclose hfeed ih =>
    simpa [closingLine?, hopen, hclose, hfeed, Nat.add_assoc] using ih
  | case6 inner line c rest hopen hclose hfeed ih =>
    simpa [closingLine?, hopen, hclose, hfeed] using ih

end ClassRegion

end RazorViews
