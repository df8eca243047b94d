import RazorViews.Proofs.ClassRegion.Header
import RazorViews.Proofs.Metadata.Display
import RazorViews.Proofs.View.Marks
import RazorViews.Proofs.View.Titles
import RazorViews.View.Page

/-!
# What a page says about its view

The texts that a context gives stand on a page between fixed ones.  Where no input and no call of a
helper begins in them (`Unmarked`), none begins in what the page says about its view as a whole, up
to the input that carries the key along (`IsUnmarked.boundNames_keyInput`).

It is not enough that no text holds a mark: two texts one behind the other, or a text and what
follows it, could make one together.  Behind each text of a context stands a character of the page
that comes in no mark but in front (`isBorder`), and so none is made (`silent_line`).

The title of an index is made from a text of the context.  It has no call of a helper in it, for any
identifier: a title is in small letters, and what it leaves in capitals has no small letter
(`not_infix_humanize`).
-/

namespace RazorViews

open Markup

variable {M t x w name : Text} {c : Char} {s : Sheet}

/-! ## Titles -/

namespace Wording

theorem lowerChar_not_capital (c : Char) : isPlainCapital (Text.lowerChar c) = false := by
  have hplain : ∀ d : Char, 0x5A < d.toNat ∨ d.toNat = 0 → isPlainCapital d = false := by
    intro d hd
    simp only [isPlainCapital, Bool.and_eq_false_iff, decide_eq_false_iff_not, Char.le_def,
      UInt32.le_iff_toNat_le]
    change ¬ 0x41 ≤ d.toNat ∨ ¬ d.toNat ≤ 0x5A
    omega
  rw [Text.lowerChar]
  split
  · rename_i hlt
    have hall : ∀ n < 0x80, isPlainCapital (Char.ofNat n).toLower = false := by decide +kernel
    exact Text.forall_ascii (p := fun c => isPlainCapital c.toLower = false) hall hlt
  · rename_i hge
    split
    · decide
    · cases himage : Text.caseImage? Text.lowerRuns c with
      | none => exact hplain c (.inl (by omega))
      | some d =>
        obtain ⟨r, hr, happly⟩ := List.exists_of_findSome?_eq_some himage
        have hall : ∀ r ∈ Text.lowerRuns, 0x5A < r.image := by decide +kernel
        have := hall r hr
        have := Text.toNat_of_image? happly
        exact hplain d (by omega)

/-- Lowering leaves no capital. -/
theorem not_capital_of_mem_lower (h : c ∈ Text.lower t) : isPlainCapital c = false := by
  have hafter : ∀ t before, c ∈ Text.lowerAfter before t → isPlainCapital c = false := by
    intro t
    induction t with
    | nil => exact fun _ h => absurd h List.not_mem_nil
    | cons d t ih =>
      intro before h
      rcases List.mem_append.1 h with h | h
      · have hsmall : ∀ e ∈ ['ς', 'σ', 'i', '\u0307'], isPlainCapital e = false := by
          simp [isPlainCapital]
        split at h
        · split at h
          · exact hsmall c (by simp_all)
          · exact hsmall c (by simp_all)
        · split at h
          · exact hsmall c (List.mem_cons_of_mem _ (List.mem_cons_of_mem _ h))
          · exact List.mem_singleton.1 h ▸ lowerChar_not_capital d
      · exact ih (d :: before) h
  exact hafter t [] h

/-- A word of a title has no plain capital next to a small letter. -/
theorem not_infix_titleWord (w : Text) : ¬ "Ht".toList <:+: titleWord w := by
  intro hpart
  have hcapital : 'H' ∈ titleWord w := hpart.subset (by decide)
  have hsmall : 't' ∈ titleWord w := hpart.subset (by decide)
  rw [titleWord] at hcapital hsmall
  split at hcapital
  · rename_i hkept
    rw [if_pos hkept] at hsmall
    rw [Bool.and_eq_true, Text.isUpper, Bool.and_eq_true, Bool.not_eq_true', List.any_eq_false]
      at hkept
    exact hkept.1.2 't' hsmall (by decide +kernel)
  · exact absurd (not_capital_of_mem_lower hcapital) (by decide)

/-- A capital form that holds the sign `@` is the sign itself. -/
theorem upperChar_eq_at : '@' ∈ Text.upperChar c → Text.upperChar c = ['@'] := by
  rw [Text.upperChar]
  split
  · exact fun h => congrArg (fun d => [d]) (List.mem_singleton.1 h).symm
  · split
    · rename_i himage
      have hall : ∀ e ∈ Text.upperTexts, '@' ∉ e.2.map Char.ofNat := by decide +kernel
      exact fun h => absurd h (hall _ (List.mem_of_find?_eq_some himage))
    · exact fun h => congrArg (fun d => [d]) (List.mem_singleton.1 h).symm

/-- A text that does not go on at a space goes on in words only. -/
theorem not_infix_join {part : Text} (hne : part ≠ []) (hspace : ' ' ∉ part) {ws : List Text}
    (h : ∀ w ∈ ws, ¬ part <:+: w) : ¬ part <:+: Text.join [' '] ws := by
  induction ws with
  | nil => exact fun hpart => hne (List.eq_nil_of_infix_nil hpart)
  | cons w ws ih =>
    obtain ⟨hw, hws⟩ := List.forall_mem_cons.1 h
    cases ws with
    | nil => rwa [Text.join_singleton]
    | cons v ws =>
      rw [Text.join_cons_cons, List.singleton_append, ← Text.holds_iff,
        Text.holds_append_cons hspace, Bool.or_eq_true, Text.holds_iff, Text.holds_iff]
      exact not_or.2 ⟨hw, ih hws⟩

/-- No call of a helper begins in a title. -/
theorem not_infix_humanize (name : Text) : ¬ callMark <:+: humanize name := by
  have htitle : ∀ t : Text, ¬ "Ht".toList <:+: t → ¬ callMark <:+: capitalize t := by
    rintro t ht ⟨front, back, heq⟩
    have hmark : callMark = '@' :: "Html".toList := rfl
    have hinside : ∀ u, "Ht".toList <:+: u ++ ("Html".toList ++ back) := fun u =>
      ⟨u, "ml".toList ++ back, (List.append_assoc u _ _)⟩
    rw [hmark, List.append_assoc, List.cons_append] at heq
    cases t with
    | nil =>
      have : '@' ∈ capitalize [] := heq ▸ List.mem_append_right front List.mem_cons_self
      exact absurd this List.not_mem_nil
    | cons c t =>
      rw [capitalize, Text.upper, List.flatMap_singleton] at heq
      refine ht (List.IsInfix.trans ?_ (List.suffix_cons c t).isInfix)
      rcases Text.append_cons_cases heq with ⟨w, -, hw⟩ | ⟨w, hw, hback⟩
      · rw [hw, ← List.singleton_append, ← List.append_assoc w]
        exact hinside (w ++ ['@'])
      · -- the sign is the first character, and its own capital form
        have hat : Text.upperChar c = ['@'] :=
          upperChar_eq_at (hw ▸ List.mem_append_right front List.mem_cons_self)
        rw [hat] at hw
        obtain rfl : w = [] := by
          have := congrArg List.length hw
          simp only [List.length_append, List.length_cons, List.length_nil] at this
          exact List.eq_nil_of_length_eq_zero (by omega)
        have hsuffix := hinside []
        rw [hback] at hsuffix
        exact hsuffix
  refine htitle _ (not_infix_join (by decide) (by decide) fun w hw => ?_)
  obtain ⟨v, -, rfl⟩ := List.mem_map.1 hw
  exact not_infix_titleWord v

/-- An ending of other characters completes no text. -/
theorem not_infix_append {part : Text} (hne : part ≠ []) (ht : ¬ part <:+: t)
    (hx : x.all (!part.contains ·) = true) : ¬ part <:+: t ++ x := by
  cases x with
  | nil => rwa [List.append_nil]
  | cons c x =>
    have hdisjoint : ∀ d ∈ c :: x, d ∉ part := by simpa using hx
    obtain ⟨hc, hbehind⟩ := List.forall_mem_cons.1 hdisjoint
    rw [← Text.holds_iff, Text.holds_append_cons hc, Bool.or_eq_true, Text.holds_iff,
      Text.holds_iff]
    refine not_or.2 ⟨ht, fun hpart => ?_⟩
    obtain ⟨d, part, rfl⟩ := List.exists_cons_of_ne_nil hne
    exact hbehind d (hpart.subset List.mem_cons_self) List.mem_cons_self

theorem not_infix_plural (h : ¬ callMark <:+: name) : ¬ callMark <:+: plural name := by
  have hfront : ¬ callMark <:+: name.dropLast :=
    fun hpart => h (hpart.trans (List.dropLast_prefix name).isInfix)
  rw [plural]
  split
  · decide
  · split
    · exact not_infix_append (by decide) hfront (by decide)
    · split
      · exact not_infix_append (by decide) h (by decide)
      · exact not_infix_append (by decide) h (by decide)

end Wording

namespace Page

/-! ## Texts of a context -/

/-- Neither an input nor a call of a helper begins in the text. -/
structure Unmarked (t : Text) : Prop where
  input : ¬ inputMark <:+: t
  call : ¬ callMark <:+: t

theorem Unmarked.not_isInfix (h : Unmarked x) (hM : M = inputMark ∨ M = callMark) : ¬ M <:+: x := by
  rcases hM with rfl | rfl
  · exact h.input
  · exact h.call

/-- Characters that stand behind the texts of a context on a page. -/
def isBorder (c : Char) : Bool := ['\n', '"', '<', '>'].contains c

/-- A line with a text of the context on it. -/
theorem silent_line (hM : M = inputMark ∨ M = callMark) {front back : Text}
    (hfront : Silent M front) (hx : ¬ M <:+: x) (hback : Silent M (back ++ ['\n']))
    (hborder : (back ++ ['\n']).head?.all isBorder = true) :
    Silent M (pageLine [front, x, back]) := by
  have hline : pageLine [front, x, back] = front ++ (x ++ (back ++ ['\n'])) := by
    simp [pageLine]
  rw [hline]
  refine hfront.append ?_
  obtain ⟨c, y, heq⟩ := List.exists_cons_of_ne_nil (List.append_ne_nil_of_right_ne_nil back
    (List.cons_ne_nil '\n' []))
  rw [heq] at hback hborder ⊢
  refine hback.between hx ?_
  have hc : c ∈ ['\n', '"', '<', '>'] := by simpa [isBorder] using hborder
  have hnot : ∀ d ∈ ['\n', '"', '<', '>'], d ∉ M.tail := by
    rcases hM with rfl | rfl <;> simp [inputMark, callMark]
  exact hnot c hc

/-- A sheet whose texts no input and no call begins in, and whose key is a name. -/
structure IsUnmarked (s : Sheet) : Prop where
  model : ∀ t ∈ s.model, Unmarked t
  layout : ∀ t ∈ s.layout, Unmarked t
  subject : Unmarked s.subject
  controller : Unmarked s.controller
  action : Unmarked s.action
  key : ∀ k ∈ s.key, IsName k

/-! ## The top of a page -/

theorem IsUnmarked.silent_modelLine (h : IsUnmarked s) (hM : M = inputMark ∨ M = callMark)
    {front behind : String} (hfront : Silent M ("@model ".toList ++ front.toList))
    (hbehind : Silent M (behind.toList ++ ['\n']))
    (hborder : (behind.toList ++ ['\n']).head?.all isBorder = true) :
    Silent M (s.modelLine front behind) := by
  rw [Sheet.modelLine]
  cases hmodel : s.model with
  | none => exact silent_nil M
  | some type =>
    have hline : pageLine ["@model ".toList, front.toList, type, behind.toList] =
        pageLine ["@model ".toList ++ front.toList, type, behind.toList] := by
      simp [pageLine]
    dsimp only
    rw [hline]
    exact silent_line hM hfront ((h.model type hmodel).not_isInfix hM) hbehind hborder

theorem IsUnmarked.silent_header (h : IsUnmarked s) (hM : M = inputMark ∨ M = callMark)
    {title : Text} (htitle : ¬ M <:+: title) : Silent M (s.header title) := by
  have hopen : Silent M (fixedLines ["@\x7b"]) ∧ Silent M (fixedLines ["\x7d", ""]) ∧
      Silent M (fixedLines ["    Layout = null;"]) ∧
      Silent M "    ViewData[\"Title\"] = \"".toList ∧ Silent M "    Layout = \"".toList ∧
      Silent M ("\";".toList ++ ['\n']) := by
    rcases hM with rfl | rfl <;> decide
  obtain ⟨hopen, hclose, hnone, hdata, hlayout, hquote⟩ := hopen
  have hborder : ("\";".toList ++ ['\n']).head?.all isBorder = true := by decide
  rw [Sheet.header]
  refine ((hopen.append (silent_line hM hdata htitle hquote hborder)).append ?_).append hclose
  cases hs : s.layout with
  | none => exact hnone
  | some layout =>
    exact silent_line hM hlayout ((h.layout layout hs).not_isInfix hM) hquote hborder

theorem silent_heading (hM : M = inputMark ∨ M = callMark) {title : Text}
    (htitle : ¬ M <:+: title) : Silent M (pageLine ["<h1>".toList, title, "</h1>".toList]) := by
  have hfixed : Silent M "<h1>".toList ∧ Silent M ("</h1>".toList ++ ['\n']) := by
    rcases hM with rfl | rfl <;> decide
  exact silent_line hM hfixed.1 htitle hfixed.2 (by decide)

theorem IsUnmarked.silent_top (h : IsUnmarked s) (hM : M = inputMark ∨ M = callMark)
    (title : Text) (htitle : ¬ M <:+: title) : Silent M (s.top title) := by
  have hfixed : Silent M ("@model ".toList ++ "".toList) ∧ Silent M ("".toList ++ ['\n']) ∧
      Silent M (fixedLines [""]) := by
    rcases hM with rfl | rfl <;> decide
  rw [Sheet.top]
  exact (((h.silent_modelLine hM hfixed.1 hfixed.2.1 (by decide)).append
    (h.silent_header hM htitle)).append (silent_heading hM htitle)).append hfixed.2.2

theorem IsUnmarked.silent_subjectLine (h : IsUnmarked s) (hM : M = inputMark ∨ M = callMark)
    (columns : String) (hcolumns : Silent M (columns.toList ++ "<h4>".toList)) :
    Silent M (s.subjectLine columns) := by
  have hline : s.subjectLine columns =
      pageLine [columns.toList ++ "<h4>".toList, s.subject, "</h4>".toList] := by
    simp [Sheet.subjectLine, pageLine]
  have hclose : Silent M ("</h4>".toList ++ ['\n']) := by
    rcases hM with rfl | rfl <;> decide
  rw [hline]
  exact silent_line hM hcolumns (h.subject.not_isInfix hM) hclose (by decide)

/-! ## Inputs -/

/-- The key is carried along by an input that is bound to it. -/
theorem IsUnmarked.boundNames_keyInput (h : IsUnmarked s) (columns : String)
    (hcolumns : Silent inputMark columns.toList) (b : Text) :
    boundNames (s.keyInput columns ++ b) = s.key.toList ++ boundNames b := by
  rw [Sheet.keyInput]
  cases hkey : s.key with
  | none => rfl
  | some key =>
    have htag : "<input type=\"hidden\" asp-for=\"".toList =
        inputMark ++ " type=\"hidden\"".toList ++ " asp-for=\"".toList := rfl
    have hend : "\" />".toList ++ ['\n'] = '"' :: " />\n".toList := rfl
    have hline : pageLine [columns.toList, "<input type=\"hidden\" asp-for=\"".toList, key,
        "\" />".toList] ++ b = columns.toList ++ (inputMark ++ " type=\"hidden\"".toList ++
          " asp-for=\"".toList ++ (key ++ '"' :: (" />\n".toList ++ b))) := by
      rw [pageLine, htag, ← List.cons_append, ← hend]
      simp only [List.flatten_cons, List.flatten_nil, List.append_assoc, List.nil_append]
    dsimp only
    rw [hline, boundNames_input (h.key key hkey) hcolumns (fun _ => rfl) (by decide)
      (by decide)]
    rfl

theorem IsUnmarked.silent_keyInput (h : IsUnmarked s) (columns : String)
    (hcolumns : Silent callMark (columns.toList ++ "<input type=\"hidden\" asp-for=\"".toList)) :
    Silent callMark (s.keyInput columns) := by
  rw [Sheet.keyInput]
  cases hkey : s.key with
  | none => exact silent_nil _
  | some key =>
    have hline : pageLine [columns.toList, "<input type=\"hidden\" asp-for=\"".toList, key,
        "\" />".toList] = (columns.toList ++ "<input type=\"hidden\" asp-for=\"".toList) ++
          (key ++ ("\" />".toList ++ ['\n'])) := by
      simp only [pageLine, List.flatten_cons, List.flatten_nil, List.append_assoc, List.nil_append]
    have hback : Silent callMark ("\" />".toList ++ ['\n']) := by decide
    dsimp only
    rw [hline]
    exact hcolumns.append ((h.key key hkey).silent.2.append hback)

/-! ## Links -/

/-- Nothing in a link to an action begins a call of a helper: the sign in front of its expression
does not. -/
theorem IsUnmarked.silent_instanceLink (h : IsUnmarked s)
    (columns expression action behind : String)
    (hfront : Silent callMark (columns.toList ++ "<a asp-action=\"".toList ++ action.toList ++
      "\" asp-route-id=\"@".toList ++ expression.toList))
    (hback : Silent callMark ("\">".toList ++ action.toList ++ "</a>".toList ++ behind.toList ++
      ['\n']))
    (hbare : Silent callMark (columns.toList ++ "<a asp-action=\"".toList ++ action.toList)) :
    Silent callMark (s.instanceLink columns expression action behind) := by
  rw [Sheet.instanceLink]
  cases hkey : s.key with
  | none =>
    have hline : pageLine [columns.toList, "<a asp-action=\"".toList, action.toList,
        "\">".toList, action.toList, "</a>".toList, behind.toList] =
        (columns.toList ++ "<a asp-action=\"".toList ++ action.toList) ++
          ("\">".toList ++ action.toList ++ "</a>".toList ++ behind.toList ++ ['\n']) := by
      simp only [pageLine, List.flatten_cons, List.flatten_nil, List.append_assoc, List.nil_append]
    dsimp only
    rw [hline]
    exact hbare.append hback
  | some key =>
    have hline : pageLine [columns.toList, "<a asp-action=\"".toList, action.toList,
        "\" asp-route-id=\"@".toList, expression.toList, key, "\">".toList, action.toList,
        "</a>".toList, behind.toList] =
        (columns.toList ++ "<a asp-action=\"".toList ++ action.toList ++
          "\" asp-route-id=\"@".toList ++ expression.toList) ++ (key ++
          ("\">".toList ++ action.toList ++ "</a>".toList ++ behind.toList ++ ['\n'])) := by
      simp only [pageLine, List.flatten_cons, List.flatten_nil, List.append_assoc, List.nil_append]
    dsimp only
    rw [hline]
    exact hfront.append ((h.key key hkey).silent.2.append hback)

end Page

end RazorViews
