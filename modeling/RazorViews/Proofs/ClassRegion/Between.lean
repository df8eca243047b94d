import RazorViews.Proofs.ClassRegion.Header
import RazorViews.Proofs.Text.Lines

/-!
# A class between other classes

The region of a class whose braces balance does not depend on what stands around it, apart from the
lines in front that shift it: `locate?_between`.  The source in front matters only if the header is
found there already, or begins there; the source behind does not matter at all, however its braces
come out, since counting has ended by then.

A header is found in the whole source where it is found in the class, because a header always ends
with its brace and reads no other one but those of its name (`find?_between`).  And the closing
brace is reached on the same line, since the lines of the class are the lines of the whole behind
those in front: `lastLine_lt` says that the line of the closing brace is one of them.

This is about locating.  That the scan of the region then finds the same members is said in
`recognize_between`, and both are put together in `extract_between`.
-/

namespace RazorViews.ClassRegion

open Pattern

/-- A balanced region begins with the header that is found and ends with the brace that closes
it. -/
theorem locate?_balanced_iff {source name : Text} {r : ClassRegion} :
    locate? source name = some r ∧ r.balanced = true ↔
      ∃ f ∈ (header name).find? source, ∃ k,
        closingLine? 0 (Text.lineFeeds (source.take f.start) + Text.lineFeeds f.text)
          f.finish.rest = some k ∧
        r = ⟨Text.lineFeeds (source.take f.start), k, true⟩ := by
  rw [locate?]
  cases hfind : (header name).find? source with
  | none => simp
  | some f =>
    simp only [Option.map_some, Option.mem_def, Option.some.injEq, exists_eq_left']
    cases hclose : closingLine? 0 (Text.lineFeeds (source.take f.start) + Text.lineFeeds f.text)
        f.finish.rest with
    | none =>
      simp only [reduceCtorEq, false_and, exists_false, iff_false, not_and]
      rintro rfl
      simp
    | some k =>
      simp only [Option.some.injEq, exists_eq_left']
      constructor
      · rintro ⟨rfl, _⟩
        rfl
      · rintro rfl
        exact ⟨rfl, rfl⟩

theorem find?_stretch {P : Pattern} {t : Text} {f : Found} (h : P.find? t = some f) :
    ∃ a, t = a ++ f.text ++ f.finish.rest ∧ f.start = a.length := by
  obtain ⟨a, b, rfl, hf, _⟩ := find?_eq_some_iff.1 h
  obtain ⟨_, hstart, hreads⟩ := foundAt?_eq_some hf
  refine ⟨a, ?_, by simpa [Place.start] using hstart⟩
  rw [List.append_assoc, ← hreads.1, Place.rest_after]

/-- The closing brace stands on a line that ends within the text, if the text ends a line. -/
theorem lastLine_lt {source name : Text} {r : ClassRegion} (hend : Text.EndsLine source)
    (h : locate? source name = some r) (hbalanced : r.balanced = true) :
    r.lastLine < Text.lineFeeds source := by
  obtain ⟨f, hf, k, hclose, rfl⟩ := locate?_balanced_iff.1 ⟨h, hbalanced⟩
  obtain ⟨a, hsource, hstart⟩ := find?_stretch hf
  obtain ⟨u, v, hrest, -, rfl⟩ := closingLine?_eq_some_iff.1 hclose
  have hlast : source.getLast? = some '\n' := by
    refine hend.resolve_left ?_
    rw [hsource, hrest]
    simp
  have hmem : '\n' ∈ v := by
    rw [hsource, hrest, List.getLast?_append, List.getLast?_append, List.getLast?_cons,
      Option.some_or, Option.some_or, Option.some.injEq] at hlast
    cases hv : v.getLast? with
    | none =>
      rw [hv] at hlast
      exact absurd hlast (by decide)
    | some c =>
      rw [hv, Option.getD_some] at hlast
      exact hlast ▸ List.mem_of_getLast? hv
  have hpos : 0 < v.count '\n' := List.count_pos_iff.2 hmem
  have htake : source.take f.start = a := by
    rw [hsource, hstart, List.append_assoc, List.take_left]
  have hcount : Text.lineFeeds source = a.count '\n' + f.text.count '\n' +
      (u.count '\n' + v.count '\n') := by
    rw [Text.lineFeeds, hsource, hrest, List.count_append, List.count_append, List.count_append,
      List.count_cons_of_ne (by decide)]
  show Text.lineFeeds (source.take f.start) + Text.lineFeeds f.text + Text.lineFeeds u < _
  rw [hcount, htake, Text.lineFeeds, Text.lineFeeds, Text.lineFeeds]
  omega

/-- **The region does not depend on what stands around the class.** -/
theorem locate?_between {pre cls post name : Text} {r : ClassRegion} (hpre : Text.EndsLine pre)
    (h : locate? cls name = some r) (hbalanced : r.balanced = true)
    (hnone : ∀ f ∈ (header name).find? (pre ++ cls ++ post), pre.length ≤ f.start) :
    locate? (pre ++ cls ++ post) name =
      some ⟨Text.lineFeeds pre + r.firstLine, Text.lineFeeds pre + r.lastLine, true⟩ := by
  obtain ⟨f, hf, k, hclose, rfl⟩ := locate?_balanced_iff.1 ⟨h, hbalanced⟩
  have hside : isWordSide pre.getLast? = false := by
    rcases hpre with rfl | hlast
    · rfl
    · rw [hlast]
      decide
  obtain ⟨g, hg, hstart, htext, hrest⟩ :=
    find?_between (isLocal_headerFront name) (counts_headerFront name) hside hf hnone
  obtain ⟨a, hcls, hfstart⟩ := find?_stretch hf
  have hfirst : Text.lineFeeds ((pre ++ cls ++ post).take g.start) =
      Text.lineFeeds pre + Text.lineFeeds (cls.take f.start) := by
    have hle : f.start ≤ cls.length := by
      rw [hcls, hfstart, List.append_assoc, List.length_append]
      exact Nat.le_add_right _ _
    rw [hstart, List.append_assoc, List.take_length_add_append,
      List.take_append_of_le_length hle, Text.lineFeeds, List.count_append]
    rfl
  refine (locate?_balanced_iff.2 ⟨g, hg, Text.lineFeeds pre + k, ?_, ?_⟩).1
  · rw [hfirst, htext, hrest, Nat.add_assoc, closingLine?_add, closingLine?_append post hclose]
    rfl
  · rw [hfirst]

end RazorViews.ClassRegion
