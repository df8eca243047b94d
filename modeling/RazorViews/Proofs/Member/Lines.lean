import RazorViews.Proofs.Source.Closed
import RazorViews.Source.Member

/-!
# The lines that a scan reads

A scan reads the lines of erased source, each beside a line of the source, and the numbers of these
are all that it knows of where they stand.

* Erasing keeps every line feed, so each erased line has the line of the source beside it that it
  was made of, whatever else the source holds: `pairLines_erase`.
* Source that is cut where nothing is left open has the lines of its two pieces: `pairLines_append`.
* Where a line stands only decides the number that a candidate on it gets: `run_add`.

Together they say what is recognized of a class between others (`recognize_between`): the candidates
of the class alone, further down.  It is the scan only that is spoken of; the region has to be the
one of the class, which is said in `locate?_between`.
-/

namespace RazorViews

/-- A candidate that stands some lines further down. -/
def Candidate.lower (n : Nat) (c : Candidate) : Candidate := { c with line := n + c.line }

namespace Member

open Source

/-! ## Pairs of lines -/

/-- An erased line and its line of the source, trimmed. -/
def Line.trimmed (erased raw : Text) : Line := ⟨Text.trim erased, some (Text.trim raw)⟩

theorem length_lines_erase (t : Text) : (Text.lines (erase t)).length = (Text.lines t).length := by
  rw [Text.length_lines, Text.length_lines, lineFeeds_erase]

theorem pairLines_eq_zipWith {erased raw : Text}
    (h : (Text.lines erased).length = (Text.lines raw).length) :
    pairLines erased (some raw) =
      List.zipWith Line.trimmed (Text.lines erased) (Text.lines raw) := by
  have hlength :
      ((Text.lines raw).length == ((Text.lines erased).map Text.trim).length) = true := by
    rw [List.length_map, h, beq_self_eq_true]
  simp only [pairLines, Option.map_some, hlength, if_true, List.zipWith_map_left]
  rfl

/-- Each erased line is read beside the line that it was made of. -/
theorem pairLines_erase (t : Text) :
    pairLines (erase t) (some t) =
      List.zipWith Line.trimmed (Text.lines (erase t)) (Text.lines t) :=
  pairLines_eq_zipWith (length_lines_erase t)

theorem length_pairLines (t : Text) :
    (pairLines (erase t) (some t)).length = Text.lineFeeds t + 1 := by
  rw [pairLines_erase, List.length_zipWith, length_lines_erase, Nat.min_self, Text.length_lines]

theorem dropLast_zipWith {α β γ : Type} {f : α → β → γ} {as : List α} {bs : List β}
    (h : as.length = bs.length) :
    (List.zipWith f as bs).dropLast = List.zipWith f as.dropLast bs.dropLast := by
  simp only [List.dropLast_eq_take, List.length_zipWith, List.take_zipWith, h, Nat.min_self]

variable {t : Text}

/-- The lines of source in two pieces are the lines of the pieces. -/
theorem pairLines_append (hclosed : IsClosed t) (hend : Text.EndsLine t) (more : Text) :
    pairLines (erase (t ++ more)) (some (t ++ more)) =
      (pairLines (erase t) (some t)).dropLast ++ pairLines (erase more) (some more) := by
  have hlength : (Text.lines (erase t)).dropLast.length = (Text.lines t).dropLast.length := by
    rw [Text.length_dropLast_lines, Text.length_dropLast_lines, lineFeeds_erase]
  have hlines : Text.lines (erase (t ++ more)) =
      (Text.lines (erase t)).dropLast ++ Text.lines (erase more) := by
    rw [erase_append hclosed hend, Text.lines_append (endsLine_erase hclosed hend)]
  rw [pairLines_erase, pairLines_erase, pairLines_erase, hlines, Text.lines_append hend,
    List.zipWith_append hlength, dropLast_zipWith (length_lines_erase t)]

/-! ## Scanning -/

/-- Lines further down have the same candidates further down. -/
theorem run_add (s : Scan) (entering : Bool) (n index : Nat) (ls : List Line) :
    s.run entering (n + index) ls = (s.run entering index ls).map (Candidate.lower n) := by
  induction ls generalizing s entering index with
  | nil => rfl
  | cons l rest ih =>
    cases hstep : s.step entering l with
    | mk after finding =>
      simp only [Scan.run, hstep, Nat.add_assoc, ih, List.map_append]
      cases finding <;> rfl

/-- The candidates of a class between others are those of the class, further down. -/
theorem recognize_between {pre cls : Text} (post : Text) {r : ClassRegion}
    (hpre : IsClosed pre ∧ Text.EndsLine pre) (hcls : IsClosed cls ∧ Text.EndsLine cls)
    (hr : r.lastLine < Text.lineFeeds cls) :
    recognize (erase (pre ++ cls ++ post)) (some (pre ++ cls ++ post))
        (some ⟨Text.lineFeeds pre + r.firstLine, Text.lineFeeds pre + r.lastLine, true⟩) =
      (recognize (erase cls) (some cls) (some r)).map (Candidate.lower (Text.lineFeeds pre)) := by
  have hwhole : pairLines (erase (pre ++ cls ++ post)) (some (pre ++ cls ++ post)) =
      (pairLines (erase pre) (some pre)).dropLast ++
        ((pairLines (erase cls) (some cls)).dropLast ++ pairLines (erase post) (some post)) := by
    rw [List.append_assoc, pairLines_append hpre.1 hpre.2, pairLines_append hcls.1 hcls.2]
  have hlength : Text.lineFeeds pre = (pairLines (erase pre) (some pre)).dropLast.length := by
    rw [List.length_dropLast, length_pairLines, Nat.add_sub_cancel]
  have hwithin : r.lastLine + 1 ≤ (pairLines (erase cls) (some cls)).dropLast.length := by
    rw [List.length_dropLast, length_pairLines, Nat.add_sub_cancel]
    exact hr
  have halone : (pairLines (erase cls) (some cls)).dropLast.take (r.lastLine + 1) =
      (pairLines (erase cls) (some cls)).take (r.lastLine + 1) := by
    rw [List.length_dropLast] at hwithin
    rw [List.dropLast_eq_take, List.take_take, Nat.min_eq_left hwithin]
  rw [recognize, recognize, hwhole, run_add]
  simp only [hlength, Nat.add_assoc, List.take_length_add_append, List.drop_length_add_append,
    List.take_append_of_le_length hwithin, halone]

end Member

end RazorViews
