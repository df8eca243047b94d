import Mathlib.Data.List.TakeWhile
import RazorViews.Proofs.Pattern.Counts
import RazorViews.Proofs.TypeName.ModelType

/-!
# The class that a type is about

The class is looked for in the first innermost pair of angle brackets, or in the whole type if there
is none (`lastArgument_of_bracketed`, `lastArgument_of_bare`): of what stands there it is the part
behind the last comma, and of that the part behind the last dot.

The lists of models have that pair in common with the models themselves, or they are the pair, so
they are about the same class (`className_listOf`).  This is what makes the directive of an index
page lead to the same class as those of the other pages.

What the class of a type is in general, with arguments of any depth, is said in `className_written`.
-/

namespace RazorViews

namespace Text

variable {sep : Char} {b b' s t : Text}

/-! ## The part behind the last separator -/

theorem forall_mem_reverse_ne (h : sep ∉ t) : ∀ c ∈ t.reverse, (c != sep) = true := by
  intro c hc
  rw [bne_iff_ne]
  rintro rfl
  exact h (List.mem_reverse.1 hc)

theorem afterLast_eq_self (h : sep ∉ t) : afterLast sep t = t := by
  rw [afterLast, List.takeWhile_eq_self_iff.2 (forall_mem_reverse_ne h), List.reverse_reverse]

theorem afterLast_append_of_notMem (h : sep ∉ t) (s : Text) :
    afterLast sep (s ++ t) = afterLast sep s ++ t := by
  rw [afterLast, List.reverse_append, List.takeWhile_append_of_pos (forall_mem_reverse_ne h),
    List.reverse_append, List.reverse_reverse, afterLast]

/-- What holds no separator is what stands behind the last one in front of it. -/
theorem afterLast_append_cons (h : sep ∉ t) (s : Text) : afterLast sep (s ++ sep :: t) = t := by
  have hlast : afterLast sep (s ++ [sep]) = [] := by simp [afterLast]
  rw [← List.singleton_append, ← List.append_assoc, afterLast_append_of_notMem h, hlast,
    List.nil_append]

/-- What stands in front of the last separator does not matter. -/
theorem afterLast_append_of_mem (h : sep ∈ t) (s : Text) :
    afterLast sep (s ++ t) = afterLast sep t := by
  rw [afterLast, List.reverse_append, List.takeWhile_append, if_neg, afterLast]
  intro hlength
  have hall := List.takeWhile_eq_self_iff.1
    (List.Sublist.eq_of_length (List.takeWhile_sublist _) hlength)
  have hsep := hall sep (List.mem_reverse.2 h)
  rw [bne_self_eq_false] at hsep
  exact absurd hsep (by simp)

/-- White space around a text is not part of what stands behind its last separator. -/
theorem trim_afterLast_blanks (hsep : isBlank sep = false) (hb : ∀ c ∈ b, isBlank c = true)
    (hb' : ∀ c ∈ b', isBlank c = true) (t : Text) :
    trim (afterLast sep (b ++ t ++ b')) = trim (afterLast sep t) := by
  have hnot : ∀ {s : Text}, (∀ c ∈ s, isBlank c = true) → sep ∉ s := by
    intro s hs hmem
    rw [hs sep hmem] at hsep
    exact absurd hsep (by simp)
  rw [afterLast_append_of_notMem (hnot hb'), trim_append_blanks hb']
  by_cases hmem : sep ∈ t
  · rw [afterLast_append_of_mem hmem]
  · rw [afterLast_append_of_notMem hmem, afterLast_eq_self (hnot hb), afterLast_eq_self hmem, trim,
      trimLeft_blanks_append hb, trim]

end Text

namespace TypeName

open Pattern

/-! ## The last argument -/

theorem takes_typeArguments {inner : Text} (hbare : Bare inner) (hne : inner ≠ []) :
    typeArguments.Takes ('<' :: inner ++ ['>']) := by
  obtain ⟨c, more, rfl⟩ := List.exists_cons_of_ne_nil hne
  have hinside : ∀ d ∈ c :: more, (d != '<' && d != '>') = true := by
    intro d hd
    rw [Bool.and_eq_true, bne_iff_ne, bne_iff_ne]
    exact ⟨fun h => hbare.1 (h ▸ hd), fun h => hbare.2 (h ▸ hd)⟩
  obtain ⟨hc, hmore⟩ := List.forall_mem_cons.1 hinside
  have hkeep : (one (fun c => c != '<' && c != '>') ++
      run (fun c => c != '<' && c != '>') .least).Takes (c :: more) :=
    ⟨[c], more, ⟨c, hc, rfl⟩, hmore, rfl⟩
  have hnone : blanks.Takes [] := fun _ h => absurd h List.not_mem_nil
  exact ⟨'<' :: c :: more, ['>'],
    ⟨'<' :: c :: more, [], ⟨['<'], c :: more,
      ⟨['<'], [], takes_lit.2 rfl, hnone, rfl⟩, hkeep, rfl⟩, hnone, by simp⟩,
    takes_lit.2 rfl, rfl⟩

/-- What is found keeps the text between two brackets, without the white space around it. -/
theorem typeArguments_found {p : Place} {f : Found} (h : typeArguments.foundAt? p = some f) :
    ∃ b arguments b', f.text = '<' :: (b ++ arguments ++ b') ++ ['>'] ∧
      f.kept? "arguments" = some arguments ∧ Bare arguments ∧ arguments ≠ [] ∧
      (∀ c ∈ b, Text.isBlank c = true) ∧ ∀ c ∈ b', Text.isBlank c = true := by
  obtain ⟨hleads, -, hread⟩ := foundAt?_eq_some h
  obtain ⟨p4, ⟨p3, ⟨p2, ⟨p1, hopen, hfront⟩, hkeep⟩, hback⟩, hclose⟩ := hleads
  obtain ⟨_, hreadOpen, hopen'⟩ := hopen.takes
  obtain rfl := takes_lit.1 hopen'
  obtain ⟨b, hreadFront, hb⟩ := hfront.takes
  obtain ⟨arguments, hreadKeep, ⟨_, more, ⟨c, hc, rfl⟩, hmore, rfl⟩, hkept⟩ :=
    leads_keep (by decide) hkeep
  obtain ⟨b', hreadBack, hb'⟩ := hback.takes
  obtain ⟨_, hreadClose, hclose'⟩ := hclose.takes
  obtain rfl := takes_lit.1 hclose'
  refine ⟨b, [c] ++ more, b', ?_, ?_, ?_, by simp, hb, hb'⟩
  · rw [hread.unique
      ((((hreadOpen.trans hreadFront).trans hreadKeep).trans hreadBack).trans hreadClose)]
    simp
  · rw [Found.kept?, hclose.kept (by decide), hback.kept (by decide), hkept]
    simp
  · have hinside : ∀ d ∈ [c] ++ more, (d != '<' && d != '>') = true :=
      List.forall_mem_append.2 ⟨List.forall_mem_singleton.2 hc, hmore⟩
    constructor
    · intro hmem
      exact absurd (hinside '<' hmem) (by decide)
    · intro hmem
      exact absurd (hinside '>' hmem) (by decide)

theorem lastArgument_of_bracketed {t front inner back : Text} (h : Bracketed t front inner back) :
    lastArgument t = Text.trim (Text.afterLast ',' inner) := by
  have htext : t = front ++ ('<' :: inner ++ ['>'] ++ back) := by rw [h.eq]; simp
  obtain ⟨q, hq, -⟩ := (takes_typeArguments h.bare h.ne_nil).leads (by decide)
    (p := (Place.start t).after front ('<' :: inner ++ ['>'] ++ back)) rfl
  rw [htext] at hq
  obtain ⟨f, hf, hle⟩ := exists_find? hq
  rw [← htext] at hf
  obtain ⟨a, rest, hsplit, hfound, -⟩ := find?_eq_some_iff.1 hf
  obtain ⟨-, hstart, hread, -⟩ := foundAt?_eq_some hfound
  obtain ⟨b, arguments, b', hspan, hkept, hbare, hne, hb, hb'⟩ := typeArguments_found hfound
  -- the pair that is found is the first one too, since no bracket is closed in front of it
  have hfront : a <+: front := by
    refine List.prefix_of_prefix_length_le ⟨rest, hsplit.symm⟩ ⟨_, htext.symm⟩ ?_
    have hoffset : f.start = a.length := by simpa [Place.after, Place.start] using hstart
    rwa [hoffset] at hle
  have hsame : Bracketed t a (b ++ arguments ++ b') f.finish.rest := by
    refine ⟨?_, fun hmem => h.open_front (hfront.subset hmem), ?_, by simp [hne]⟩
    · have hrest : rest = f.text ++ f.finish.rest := hread
      rw [hsplit, hrest, hspan]
      simp
    · have hblank : ∀ {s : Text}, (∀ c ∈ s, Text.isBlank c = true) → Bare s := by
        intro s hs
        exact ⟨fun hmem => absurd (hs _ hmem) (by decide),
          fun hmem => absurd (hs _ hmem) (by decide)⟩
      exact ((hblank hb).append hbare).append (hblank hb')
  rw [lastArgument, hf, Option.bind_some, hkept, h.unique hsame,
    Text.trim_afterLast_blanks (by decide) hb hb']

theorem find?_of_bare {t : Text} (h : Bare t) : typeArguments.find? t = none := by
  cases hf : typeArguments.find? t with
  | none => rfl
  | some f =>
    obtain ⟨a, rest, hsplit, hfound, -⟩ := find?_eq_some_iff.1 hf
    obtain ⟨-, -, hread, -⟩ := foundAt?_eq_some hfound
    obtain ⟨b, arguments, b', hspan, -⟩ := typeArguments_found hfound
    have hrest : rest = f.text ++ f.finish.rest := hread
    refine absurd ?_ h.1
    rw [hsplit, hrest, hspan]
    simp

theorem lastArgument_of_bare {t : Text} (h : Bare t) : lastArgument t = t := by
  rw [lastArgument, find?_of_bare h]
  rfl

/-! ## Lists of models -/

theorem ModelType.comma_notMem_of_bare {t : ModelType} (h : Bare t.written) : ',' ∉ t.written := by
  cases t with
  | plain path isOptional =>
    exact List.not_mem_append (path.notMem (by decide)) fun hmem => absurd (mem_markOf hmem)
      (by decide)
  | generic path arguments isOptional => exact absurd (by simp [written]) h.1

theorem ModelType.lastArgument_listOf (t : ModelType) :
    lastArgument t.listOf.written = lastArgument t.written := by
  rw [t.written_listOf]
  rcases t.bare_or_bracketed with hbare | ⟨front, inner, back, hb⟩
  · have hlist : Bracketed ("IEnumerable<".toList ++ t.written ++ ['>']) "IEnumerable".toList
        t.written [] :=
      ⟨rfl, by decide, hbare, t.written_ne_nil⟩
    rw [lastArgument_of_bracketed hlist, lastArgument_of_bare hbare,
      Text.afterLast_eq_self (comma_notMem_of_bare hbare), t.trim_written]
  · have hlist := (hb.append_left (s := "IEnumerable<".toList) (by decide)).append_right ['>']
    rw [lastArgument_of_bracketed hlist, lastArgument_of_bracketed hb]

/-- The lists of models are about the class that the models are about. -/
theorem ModelType.className_listOf (t : ModelType) :
    className t.listOf.written = className t.written := by
  rw [className, t.listOf.trim_written, t.lastArgument_listOf, className, t.trim_written]

end TypeName

end RazorViews
