import RazorViews.Proofs.ClassRegion.Between
import RazorViews.Proofs.Member.Depth

/-!
# Where the region of a class and its scan agree

The region of a class is counted from the brace of its header, a scan of that region from the line
the header begins on.  Between the two counts stand the lines of the header, with all that precedes
the header on the first of them.

## What is proved

`staysInside_iff_isClear`, for every source and every name with a header in it:

* Whatever body follows, the scan stays in the class until the last line of the region exactly if
  it gets as far as the brace of the header with some brace open.  This is `IsClear`, a condition on
  the lines of the header alone (`headerLines`), which can be decided.
* If it holds, the scan stays in the class for the body that is there.
* Where the scan leaves the class before the end of the region, it finds nothing behind until
  another class is declared.

The source beside the erased one plays no part in any of this: where a scan stands is decided by
braces and by which lines are passed over (`staysInside_iff`).

## When the lines are clear

They are if no opening brace stands on a line of the header in front of the last one and more braces
are opened on them than closed (`isClear_of_totalBalance`): the usual case of a header on lines of
its own.  They are not if something in braces stands in front of the header on its line, whose
braces are then taken for those of the class (`not_staysInside_afterEnumeration`).

## The proof

That clear lines suffice is an invariant: behind the brace of the header the scan has at least as
many braces open as the region counts, plus those of the header (`depthBehind_body`).  That they are
needed is shown by one body, `probe`, whose line tells how deep the scan is (`isClear_of_probe`).
-/

namespace RazorViews.ClassRegion

open Pattern Member

/-! ## Braces inside a body -/

theorem totalBalance_take_lines {c : Char} (hc : c ≠ '\n') (t : Text) (j : Nat) :
    totalBalance ((Text.lines (c :: t)).take (j + 1)) =
      (if c = '{' then 1 else if c = '}' then -1 else 0) +
        totalBalance ((Text.lines t).take (j + 1)) := by
  obtain ⟨l, ls, hlines⟩ := Text.exists_lines t
  rw [hlines, Text.lines, Text.splitAt_cons_of_ne hc, ← Text.lines, hlines]
  simp only [List.modifyHead_cons, List.take_succ_cons, totalBalance, braceBalance_cons,
    Int.add_assoc]

/-- Before the line of the closing brace no more braces are closed than are open. -/
theorem totalBalance_of_closingLine? {inner line k : Nat} {t : Text}
    (h : closingLine? inner line t = some k) {j : Nat} (hj : line + j < k) :
    0 ≤ (inner : Int) + totalBalance ((Text.lines t).take (j + 1)) := by
  fun_induction closingLine? inner line t generalizing j with
  | case1 => exact absurd h (by simp)
  | case2 inner line c rest hopen ih =>
    obtain rfl := beq_iff_eq.1 hopen
    have := ih h hj
    rw [totalBalance_take_lines (by decide), if_pos rfl]
    omega
  | case3 line c rest hopen hclose =>
    obtain rfl := Option.some.inj h
    omega
  | case4 line c rest hopen hclose inner ih =>
    obtain rfl := beq_iff_eq.1 hclose
    have := ih h hj
    rw [totalBalance_take_lines (by decide), if_neg (by decide), if_pos rfl]
    omega
  | case5 inner line c rest hopen hclose hfeed ih =>
    obtain rfl := beq_iff_eq.1 hfeed
    rw [Text.lines, Text.splitAt_cons_sep]
    cases j with
    | zero => exact Int.add_nonneg (Int.natCast_nonneg inner) (Int.le_refl 0)
    | succ j =>
      have hrest := ih h (j := j) (by omega)
      have hempty : totalBalance ([] :: (Text.lines rest).take (j + 1)) =
          totalBalance ((Text.lines rest).take (j + 1)) := Int.zero_add _
      rw [List.take_succ_cons]
      rwa [← hempty] at hrest
  | case6 inner line c rest hopen hclose hfeed ih =>
    have hother : ∀ d, ¬ (c == d) = true → c ≠ d := fun d hd heq => hd (beq_iff_eq.2 heq)
    have := ih h hj
    rw [totalBalance_take_lines (hother _ hfeed), if_neg (hother _ hopen), if_neg (hother _ hclose)]
    omega

/-! ## The lines of a header -/

/-- The source up to the brace of the header that is found. -/
def opening (source name : Text) : Text :=
  match (header name).find? source with
  | none => []
  | some f => source.take (f.start + f.text.length)

/-- The lines of the source from the one that the header begins on up to the brace of the header,
trimmed. -/
def headerLines (source name : Text) : List Text :=
  match (header name).find? source with
  | none => []
  | some f =>
    ((Text.lines (opening source name)).drop (Text.lineFeeds (source.take f.start))).map Text.trim

variable {source name : Text} {f : Found}

theorem opening_eq (hf : (header name).find? source = some f) :
    opening source name = source.take f.start ++ f.text ∧
      source = opening source name ++ f.finish.rest := by
  obtain ⟨a, rfl, hstart⟩ := find?_stretch hf
  have hlength : f.start + f.text.length = (a ++ f.text).length := by
    rw [hstart, List.length_append]
  have hopening : opening (a ++ f.text ++ f.finish.rest) name = a ++ f.text := by
    rw [opening, hf]
    simp only [hlength, List.take_left]
  rw [hopening, hstart, List.append_assoc, List.take_left]
  exact ⟨rfl, rfl⟩

/-- The header is found whatever its body is. -/
theorem find?_opening (hf : (header name).find? source = some f) (rest : Text) :
    ∃ g, (header name).find? (opening source name ++ rest) = some g ∧
      g.start = f.start ∧ g.text = f.text ∧ g.finish.rest = rest :=
  find?_behind (isLocal_headerFront name) (counts_headerFront name)
    ((opening_eq hf).2 ▸ hf) rfl rest

theorem locate?_opening (hf : (header name).find? source = some f) {rest : Text}
    {r : ClassRegion} :
    locate? (opening source name ++ rest) name = some r ∧ r.balanced = true ↔
      ∃ m, closingLine? 0 0 rest = some m ∧
        r = ⟨Text.lineFeeds (source.take f.start),
          Text.lineFeeds (opening source name) + m, true⟩ := by
  obtain ⟨g, hg, hstart, htext, hrest⟩ := find?_opening hf rest
  obtain ⟨hopening, _⟩ := opening_eq hf
  have hfront : (opening source name ++ rest).take f.start = source.take f.start := by
    obtain ⟨a, rfl, hfstart⟩ := find?_stretch hf
    rw [hopening, hfstart, List.append_assoc a, List.take_left, List.append_assoc, List.take_left]
  have hfeeds : Text.lineFeeds (opening source name) =
      Text.lineFeeds (source.take f.start) + Text.lineFeeds f.text := by
    rw [hopening, Text.lineFeeds, List.count_append]
    rfl
  rw [locate?_balanced_iff, hfeeds]
  have hclose : closingLine? 0 (Text.lineFeeds (source.take f.start) + Text.lineFeeds f.text) rest =
      (closingLine? 0 0 rest).map
        (Text.lineFeeds (source.take f.start) + Text.lineFeeds f.text + ·) := by
    rw [← closingLine?_add, Nat.add_zero]
  constructor
  · rintro ⟨g', hg', k, hk, rfl⟩
    obtain rfl := Option.some.inj (hg.symm.trans hg')
    rw [hstart, hfront, htext, hrest, hclose] at hk
    obtain ⟨m, hm, rfl⟩ := Option.map_eq_some_iff.1 hk
    exact ⟨m, hm, by rw [hstart, hfront]⟩
  · rintro ⟨m, hm, rfl⟩
    rw [hm, Option.map_some] at hclose
    refine ⟨g, hg, Text.lineFeeds (source.take f.start) + Text.lineFeeds f.text + m, ?_, ?_⟩
    · rw [hstart, hfront, htext, hrest, hclose]
    · rw [hstart, hfront]

theorem dropLast_region {α : Type} {front more : List α} {first m : Nat}
    (hfirst : first ≤ front.length) (hm : m < more.length) :
    (((front ++ more).take (front.length + m + 1)).drop first).dropLast =
      front.drop first ++ more.take m := by
  have htake : (more.take (m + 1)).dropLast = more.take m := by
    rw [List.dropLast_eq_take, List.length_take, Nat.min_eq_left hm, List.take_take]
    congr 1
    omega
  have hne : more.take (m + 1) ≠ [] := by
    intro h
    have := congrArg List.length h
    rw [List.length_take, Nat.min_eq_left hm] at this
    exact absurd this (by simp)
  rw [Nat.add_assoc, List.take_length_add_append, List.drop_append_of_le_length hfirst,
    List.dropLast_append_of_ne_nil hne, htake]

theorem lines_opening (hf : (header name).find? source = some f) :
    ∃ front l, Text.lines (opening source name) = front ++ [l] ∧ '{' ∈ l ∧
      Text.lineFeeds (source.take f.start) ≤ front.length ∧
      front.length = Text.lineFeeds (opening source name) := by
  obtain ⟨hopening, _⟩ := opening_eq hf
  obtain ⟨a, b, _, hfound, _⟩ := find?_eq_some_iff.1 hf
  obtain ⟨v, htext, _⟩ := (counts_headerFront name).found hfound
  obtain ⟨front, last, next, behind, _, hbrace, hlines⟩ :=
    Text.splitAt_append '\n' (source.take f.start ++ v) ['{']
  have hone : Text.splitAt '\n' ['{'] = [['{']] := rfl
  obtain ⟨rfl, rfl⟩ := List.cons.inj (hone.symm.trans hbrace)
  rw [List.append_assoc, ← htext, ← hopening] at hlines
  have hlength : front.length = Text.lineFeeds (opening source name) := by
    have := Text.length_lines (t := opening source name)
    rw [Text.lines, hlines, List.length_append, List.length_singleton] at this
    exact Nat.succ.inj this
  refine ⟨front, last ++ ['{'], hlines, by simp, ?_, hlength⟩
  rw [hlength, hopening, Text.lineFeeds, Text.lineFeeds, List.count_append]
  exact Nat.le_add_right _ _

/-- The lines of a region, but the last, are those of the header, of which the last one goes on with
the body, and those of the body. -/
theorem exists_headerLines (hf : (header name).find? source = some f) :
    ∃ front l, headerLines source name = front ++ [Text.trim l] ∧ '{' ∈ l ∧
      ∀ rest next behind, Text.lines rest = next :: behind → ∀ r,
        locate? (opening source name ++ rest) name = some r → r.balanced = true →
        ∃ m, closingLine? 0 0 rest = some m ∧
          (erasedLines (opening source name ++ rest) r).dropLast =
            front ++ (((l ++ next) :: behind).take m).map Text.trim := by
  obtain ⟨front, l, hlines, hbrace, hfirst, hlength⟩ := lines_opening hf
  refine ⟨(front.drop (Text.lineFeeds (source.take f.start))).map Text.trim, l, ?_, hbrace, ?_⟩
  · rw [headerLines, hf]
    simp only
    rw [hlines, List.drop_append_of_le_length hfirst, List.map_append, List.map_singleton]
  · intro rest next behind hrest r hr hbalanced
    obtain ⟨m, hm, rfl⟩ := (locate?_opening hf).1 ⟨hr, hbalanced⟩
    refine ⟨m, hm, ?_⟩
    obtain ⟨front', l', next', behind', hlines', hrest', hwhole⟩ :=
      Text.splitAt_append '\n' (opening source name) rest
    obtain ⟨rfl, hlast⟩ := List.append_inj' (hlines.symm.trans hlines') rfl
    obtain ⟨rfl, _⟩ := List.cons.inj hlast
    obtain ⟨rfl, rfl⟩ := List.cons.inj (hrest.symm.trans hrest')
    have hwithin : m < (((l ++ next) :: behind).map Text.trim).length := by
      obtain ⟨u, v, rfl, -, rfl⟩ := closingLine?_eq_some_iff.1 hm
      have hcount := Text.length_lines (t := u ++ '}' :: v)
      rw [hrest, List.length_cons, Text.lineFeeds, List.count_append] at hcount
      rw [List.length_map, List.length_cons, hcount, Nat.zero_add, Text.lineFeeds]
      omega
    rw [erasedLines, Text.lines, hwhole, List.map_append, ← hlength]
    have hmapped : front.length = (front.map Text.trim).length := (List.length_map Text.trim).symm
    simp only [hmapped] at hfirst ⊢
    rw [dropLast_region hfirst hwithin, List.map_drop, List.map_take]

/-! ## Whatever the body -/

/-- A scan of these lines is in the class behind each of them, with some brace open behind the
last. -/
structure IsClear (ls : List Text) : Prop where
  stays : ∀ a l, a ++ [l] <+: ls.dropLast → StaysOn a l
  deep : 0 < depthBehind ls

/-- A scan that gets into the body with some brace open has one open behind each of its lines, but
for the last. -/
theorem depthBehind_body {front q behind : List Text} {l next rest : Text} {m : Nat}
    (hbrace : '{' ∈ l) (hdeep : 0 < depthBehind (front ++ [Text.trim l]))
    (hm : closingLine? 0 0 rest = some m) (hrest : Text.lines rest = next :: behind)
    (hq : q <+: (((l ++ next) :: behind).take m).map Text.trim) (hne : q ≠ []) :
    0 < depthBehind (front ++ q) := by
  cases m with
  | zero => exact absurd (List.prefix_nil.1 hq) hne
  | succ n =>
    rw [List.take_succ_cons, List.map_cons] at hq
    obtain ⟨q, rfl, htail⟩ := (List.prefix_cons_iff.1 hq).resolve_left hne
    -- the body lines that have been read are the first so many of those that follow the brace
    obtain ⟨j, hj, rfl⟩ : ∃ j, j ≤ n ∧ q = (behind.take j).map Text.trim := by
      have hlength := htail.length_le
      rw [List.length_map, List.length_take] at hlength
      refine ⟨q.length, by omega, ?_⟩
      have htake := List.prefix_iff_eq_take.1 htail
      rw [← List.map_take, List.take_take, Nat.min_eq_left (by omega)] at htake
      exact htake
    have hinside := totalBalance_of_closingLine? hm (j := j) (by omega)
    have hopened := isOpened_concat_trim (List.mem_append_left next hbrace) front
    rw [hrest, List.take_succ_cons, totalBalance] at hinside
    rw [List.append_cons, depthBehind_append_of_opened hopened, depthBehind_concat_append hbrace,
      totalBalance_map_trim]
    omega

theorem IsClear.staysInside (h : IsClear (headerLines source name)) {rest : Text}
    {r : ClassRegion} (hr : locate? (opening source name ++ rest) name = some r)
    (hbalanced : r.balanced = true) (raw : Option Text) :
    StaysInside (opening source name ++ rest) raw r := by
  cases hf : (header name).find? source with
  | none =>
    have hnone : headerLines source name = [] := by
      rw [headerLines, hf]
    exact absurd (hnone ▸ h.deep) (by decide)
  | some f =>
    obtain ⟨front, l, hheader, hbrace, hregion⟩ := exists_headerLines hf
    obtain ⟨next, behind, hrest⟩ := Text.exists_lines rest
    obtain ⟨m, hm, hlines⟩ := hregion rest next behind hrest r hr hbalanced
    rw [hheader] at h
    have hstays : ∀ a x, a ++ [x] <+: front → StaysOn a x := by
      have := h.stays
      rwa [List.dropLast_concat] at this
    rw [staysInside_iff, hlines]
    intro a x hbegins
    rcases List.prefix_or_prefix_of_prefix hbegins (List.prefix_append front _) with hin | ⟨q, hq⟩
    · exact hstays a x hin
    · cases q with
      | nil =>
        have hall : a ++ [x] = front := by rw [← hq, List.append_nil]
        exact hstays a x ⟨[], by rw [hall, List.append_nil]⟩
      | cons y q =>
        rw [← hq] at hbegins
        have hbody := (List.prefix_append_right_inj front).1 hbegins
        intro part _
        right
        rw [← hq]
        exact depthBehind_body hbrace h.deep hm hrest hbody (List.cons_ne_nil y q)

/-- The lines of the header decide for the region that is located as for any other body. -/
theorem IsClear.staysInside_located {r : ClassRegion} (h : IsClear (headerLines source name))
    (hr : locate? source name = some r) (hbalanced : r.balanced = true) (raw : Option Text) :
    StaysInside source raw r := by
  obtain ⟨f, hf, _⟩ := Option.map_eq_some_iff.1 hr
  have hsource := (opening_eq hf).2
  have hwhole : locate? (opening source name ++ f.finish.rest) name = some r := hsource ▸ hr
  have hinside := h.staysInside hwhole hbalanced raw
  rwa [← hsource] at hinside

/-- Lines of which only the last opens braces are clear, if they open more of them than they
close. -/
theorem isClear_of_totalBalance {ls : List Text} (hnone : ∀ l ∈ ls.dropLast, '{' ∉ l)
    (hopen : 0 < totalBalance ls) : IsClear ls where
  stays := by
    intro a l hbegins
    have hmem : ∀ x ∈ a ++ [l], cutAtBrace? x = none :=
      fun x hx => cutAtBrace?_eq_none_iff.2 (hnone x (hbegins.subset hx))
    have hopened : isOpened a = false := by
      rw [isOpened, List.any_eq_false]
      intro x hx
      rw [hmem x (List.mem_append_left [l] hx)]
      exact Bool.false_ne_true
    exact staysOn_of_header hopened (hmem l (by simp))
  deep := Int.lt_of_lt_of_le hopen (totalBalance_le_depthBehind ls)

example : IsClear (headerLines
    "namespace Shop \x7b\n  public class Person<T> :\n    Entity\n  \x7b".toList "Person".toList) :=
  isClear_of_totalBalance (by decide +kernel) (by decide +kernel)

/-- A body of one line that is not passed over. -/
def probe : Text := "\nx\n\x7d".toList

/-- Such a body shows how deep the scan is behind the header. -/
theorem isClear_of_probe (hf : (header name).find? source = some f) {raw : Option Text}
    {r : ClassRegion} (hr : locate? (opening source name ++ probe) name = some r)
    (hbalanced : r.balanced = true) (h : StaysInside (opening source name ++ probe) raw r) :
    IsClear (headerLines source name) := by
  obtain ⟨front, l, hheader, hbrace, hregion⟩ := exists_headerLines hf
  obtain ⟨m, hm, hlines⟩ := hregion probe [] [['x'], ['}']] rfl r hr hbalanced
  obtain rfl : 2 = m := Option.some.inj hm
  have hstays := staysInside_iff.1 h
  rw [hlines, List.append_nil] at hstays
  rw [hheader]
  refine ⟨?_, ?_⟩
  · intro a x hbegins
    rw [List.dropLast_concat] at hbegins
    exact hstays a x (hbegins.trans (List.prefix_append front _))
  · have hbegins : (front ++ [Text.trim l]) ++ [['x']] <+: front ++ [Text.trim l, ['x']] :=
      ⟨[], by simp⟩
    have hline := hstays _ _ hbegins
    rw [staysOn_of_opened (isOpened_concat_trim hbrace front)] at hline
    have hdeep := hline.resolve_left (by decide)
    have hzero : braceBalance ['x'] = 0 := by decide
    rwa [hzero, Int.add_zero] at hdeep

/-- **When a scan keeps to the region.**  The scan of a region with balanced braces stays in the
class until its last line, whatever the body and the raw source, just if the lines of the header
are clear; so it does for the body that is there.  Where it leaves the class before, nothing is
found behind until another class is declared. -/
theorem staysInside_iff_isClear {r : ClassRegion} (hr : locate? source name = some r) :
    ((∀ rest raw r', locate? (opening source name ++ rest) name = some r' → r'.balanced = true →
        StaysInside (opening source name ++ rest) raw r') ↔
      IsClear (headerLines source name)) ∧
    (IsClear (headerLines source name) → r.balanced = true → ∀ raw, StaysInside source raw r) ∧
    ∀ raw ls more, regionLines source raw r = ls ++ more → ls ≠ [] →
      (Scan.start.past true ls).inClass = false →
      (∀ l ∈ more, isDeclaration l.erased = false) →
        recognize source raw (some r) = Scan.start.run true r.firstLine ls := by
  refine ⟨?_, fun h hbalanced => h.staysInside_located hr hbalanced,
    fun raw ls more => recognize_left⟩
  constructor
  · intro hall
    obtain ⟨f, hf, _⟩ := Option.map_eq_some_iff.1 hr
    have hclose : closingLine? 0 0 probe = some 2 := rfl
    obtain ⟨hlocate, hbalanced⟩ := (locate?_opening hf).2 ⟨2, hclose, rfl⟩
    exact isClear_of_probe hf hlocate hbalanced (hall probe none _ hlocate hbalanced)
  · intro h rest raw r' hr' hbalanced
    exact h.staysInside hr' hbalanced raw

/-- In front of the class stands an enumeration on the line of its header.  Its braces are taken for
those of the class, whose member is not found. -/
theorem not_staysInside_afterEnumeration :
    let source :=
      "enum Kind \x7b A \x7d class Person\n\x7b\n  int Age \x7b get; \x7d\n\x7d\n".toList
    let name := "Person".toList
    (Source.erase source = source ∧ locate? source name = some ⟨0, 3, true⟩ ∧
      recognize source none (some ⟨0, 3, true⟩) = []) ∧
      ¬ ∀ rest raw r', locate? (opening source name ++ rest) name = some r' →
        r'.balanced = true → StaysInside (opening source name ++ rest) raw r' := by
  intro source name
  have hr : locate? source name = some ⟨0, 3, true⟩ := by decide +kernel
  refine ⟨⟨by decide +kernel, hr, by decide +kernel⟩, ?_⟩
  rw [(staysInside_iff_isClear hr).1]
  intro h
  have hlines : headerLines source name =
      ["enum Kind \x7b A \x7d class Person".toList, "\x7b".toList] := by decide +kernel
  rw [hlines] at h
  have hstays := h.stays [] _ List.prefix_rfl
  exact absurd hstays (by decide +kernel)

end RazorViews.ClassRegion
