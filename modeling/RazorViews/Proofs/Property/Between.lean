import RazorViews.Proofs.ClassRegion.Between
import RazorViews.Proofs.Member.Lines
import RazorViews.Property.Extract

/-!
# Extraction from a class between others

## What is proved

What is extracted of a class depends on that class only.  It does not matter what other source
stands around it, nor what that source leaves open behind the class, as long as no header of the
name begins in front of it.  `extract_between` says that the events and the result are the same,
failures included.

## The hypotheses

* The source in front ends a line, and so does the class: otherwise a line of the one would be read
  together with a line of the other.
* Neither leaves a comment or a literal open (`IsClosed`).  Nothing is said of this kind about the
  source behind the class, which may end in the middle of a comment.
* The class alone is located, with balanced braces.
* No header of the name begins within the source in front (`NoHeaderBefore`).  It is asked of the
  whole text, since a header may begin in front and end behind; comments and literals are erased
  first, so a header inside them does not count.

## The proof

Erasing goes line by line where nothing is open, so the class is located in the whole text at the
place where it stands, and the scan of its region reads the lines it would read of the class alone,
with other numbers (`Member.recognize_between`).  The number of a line decides nothing about a
property (`ofCandidates_lower`).
-/

namespace RazorViews.Property

open Source

/-- The line of a candidate decides nothing about its property. -/
theorem ofCandidates_lower (skipIdentity : Bool) (className : Text) (n : Nat)
    (cs : List Candidate) :
    ofCandidates skipIdentity className (cs.map (Candidate.lower n)) =
      ofCandidates skipIdentity className cs := by
  induction cs with
  | nil => rfl
  | cons c cs ih =>
    have hskip :
        Rules.skipReason? (c.lower n) skipIdentity = Rules.skipReason? c skipIdentity := rfl
    have hkeep : ofCandidate (c.lower n) className = ofCandidate c className := rfl
    rw [List.map_cons, ofCandidates, ofCandidates, hskip, hkeep, ih]
    rfl

/-- No header of the name begins within the first `n` characters. -/
def NoHeaderBefore (n : Nat) (source name : Text) : Prop :=
  ∀ f ∈ (ClassRegion.header name).find? source, n ≤ f.start

instance (n : Nat) (source name : Text) : Decidable (NoHeaderBefore n source name) :=
  inferInstanceAs (Decidable (∀ f ∈ (ClassRegion.header name).find? source, n ≤ f.start))

/-- **Extraction of a class depends on that class only.**  The events and the result are the same
for a class with balanced braces and for the same class between other source. -/
theorem extract_between (skipIdentity : Bool) (pre cls post className : Text)
    (hpreEnd : Text.EndsLine pre) (hclsEnd : cls.getLast? = some '\n')
    (hpre : IsClosed pre) (hcls : IsClosed cls)
    (hregion : ∃ r, ClassRegion.locate? (erase cls) className = some r ∧ r.balanced = true)
    (hheader : NoHeaderBefore (erase pre).length (erase (pre ++ cls ++ post)) className) :
    extract skipIdentity (pre ++ cls ++ post) className = extract skipIdentity cls className := by
  obtain ⟨r, hr, hbalanced⟩ := hregion
  have hendcls : Text.EndsLine cls := .inr hclsEnd
  have herase : erase (pre ++ cls ++ post) = erase pre ++ erase cls ++ erase post := by
    rw [List.append_assoc, erase_append hpre hpreEnd, erase_append hcls hendcls, List.append_assoc]
  rw [herase] at hheader
  have hlocate := ClassRegion.locate?_between (endsLine_erase hpre hpreEnd) hr hbalanced hheader
  rw [← herase, lineFeeds_erase] at hlocate
  have hlast := ClassRegion.lastLine_lt (endsLine_erase hcls hendcls) hr hbalanced
  rw [lineFeeds_erase] at hlast
  have hcandidates : candidates (pre ++ cls ++ post) className =
      (candidates cls className).map (Candidate.lower (Text.lineFeeds pre)) := by
    rw [candidates, candidates, hlocate, hr]
    exact Member.recognize_between post ⟨hpre, hpreEnd⟩ ⟨hcls, hendcls⟩ hlast
  have hevents : regionEvents className (some r) = [] := by
    rw [regionEvents, hbalanced]
    rfl
  rw [extract, extract, hcandidates, ofCandidates_lower, hlocate, hr, hevents]
  rfl

/-- A class behind another one and behind a comment with its header, in front of a class of the same
name and a comment that is left open. -/
theorem extract_between_person :
    let pre := "class Other { int A { get; } }\n// class Person \x7b\n".toList
    let cls := "class Person\n\x7b\n  [Display(Name = \"\x7d\")]\n".toList ++
      "  public string Name \x7b get; set; \x7d\n\x7d\n".toList
    let post := "class Person \x7b int B \x7b get; \x7d \x7d /* \x7b".toList
    let name := "Person".toList
    (Text.EndsLine pre ∧ cls.getLast? = some '\n' ∧ IsClosed pre ∧ IsClosed cls ∧
      (∃ r, ClassRegion.locate? (erase cls) name = some r ∧ r.balanced = true) ∧
      NoHeaderBefore (erase pre).length (erase (pre ++ cls ++ post)) name) ∧
      extract true (pre ++ cls ++ post) name = extract true cls name := by
  intro pre cls post name
  have hpreEnd : Text.EndsLine pre := .inr (by decide)
  have hclsEnd : cls.getLast? = some '\n' := by decide
  have hpre : IsClosed pre := isClosed_of_getLast? (c := '\n') (by decide +kernel)
  have hcls : IsClosed cls := isClosed_of_getLast? (c := '\n') (by decide +kernel)
  have hregion : ClassRegion.locate? (erase cls) name = some ⟨0, 4, true⟩ := by decide +kernel
  have hheader : NoHeaderBefore (erase pre).length (erase (pre ++ cls ++ post)) name := by
    decide +kernel
  exact ⟨⟨hpreEnd, hclsEnd, hpre, hcls, ⟨_, hregion, rfl⟩, hheader⟩,
    extract_between true pre cls post name hpreEnd hclsEnd hpre hcls ⟨_, hregion, rfl⟩ hheader⟩

end RazorViews.Property
