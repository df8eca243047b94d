import Mathlib.Data.List.DropRight
import RazorViews.Proofs.Canonical.Types
import RazorViews.Proofs.Pattern.Replace
import RazorViews.Source.TypeName

/-!
# Types in their usual spelling

Bringing a type into its usual spelling moves and removes white space, and takes prefixes away.  No
other character is touched (`solid_spelled`): the three exchanges work on white space around marks,
and keep the marks.

So of the types that a signature can have only one leaves nothing, the bare prefix `System.`
(`clean_eq_nil_iff`).  Signatures do not admit it on purpose; the pattern for types takes dots with
nothing behind them.  Since a property must have a type, this is one of the two ways in which an
extraction can fail (`extract_ok_iff`).

That a type without marks is a word with dots (`eq_word_of_unmarked`) is known from the pattern, and
that the prefixes leave nothing of no other such word from the shape of the prefixes.
-/

namespace RazorViews.TypeName

open Pattern Canonical Member

/-! ## The characters that are not blank -/

/-- The characters of a text that are not blank. -/
def solid (t : Text) : Text := t.filter (!Text.isBlank ·)

theorem solid_append (t u : Text) : solid (t ++ u) = solid t ++ solid u := List.filter_append ..

theorem solid_of_blanks {b : Text} (hb : ∀ c ∈ b, Text.isBlank c = true) : solid b = [] := by
  refine List.filter_eq_nil_iff.2 ?_
  intro c hc
  simp [hb c hc]

theorem solid_of_not_blank {t : Text} (h : ∀ c ∈ t, Text.isBlank c = false) : solid t = t := by
  refine List.filter_eq_self.2 ?_
  intro c hc
  simp [h c hc]

theorem solid_trimLeft (t : Text) : solid (Text.trimLeft t) = solid t := Text.filter_trimLeft t

theorem solid_trim (t : Text) : solid (Text.trim t) = solid t := Text.filter_trim t

/-! ## The usual spelling -/

/-- A type in its usual spelling, with its prefixes. -/
def spelled (rawType : Text) : Text :=
  looseComma.replaceAll (fun _ => [',', ' '])
    (looseBracket.replaceAll (fun found => (found.kept? "mark").getD [])
      (Text.trim (blanks1.replaceAll (fun _ => [' ']) rawType)))

theorem clean_eq (rawType : Text) : clean rawType = dropPrefixes (spelled rawType) := rfl

theorem solid_replaceAll_blanks (t : Text) :
    solid (blanks1.replaceAll (fun _ => [' ']) t) = solid t := by
  refine filter_replaceAll ?_ t
  intro p f hfound
  obtain ⟨hne, hblank⟩ := takes_run1.1 (foundAt?_takes hfound)
  refine ⟨hne, ?_⟩
  show solid [' '] = solid f.text
  rw [solid_of_blanks hblank]
  decide

/-- A match of a mark with white space around it keeps the mark. -/
theorem looseBracket_found {p : Place} {f : Found} (h : looseBracket.foundAt? p = some f) :
    ∃ b mark b', f.text = b ++ mark ++ b' ∧ f.kept? "mark" = some mark ∧ mark ≠ [] ∧
      (∀ c ∈ b, Text.isBlank c = true) ∧ (∀ c ∈ b', Text.isBlank c = true) ∧
      ∀ c ∈ mark, Text.isBlank c = false := by
  obtain ⟨hleads, -, hread⟩ := foundAt?_eq_some h
  obtain ⟨p2, ⟨p1, hfront, hkeep⟩, hback⟩ := hleads
  obtain ⟨b, hb, hblank⟩ := hfront.takes
  obtain ⟨mark, hmark, ⟨c, hc, rfl⟩, hkept⟩ := leads_keep (by decide) hkeep
  obtain ⟨b', hb', hblank'⟩ := hback.takes
  refine ⟨b, [c], b', hread.unique ((hb.trans hmark).trans hb'), ?_, List.cons_ne_nil c [], hblank,
    hblank', ?_⟩
  · rw [Found.kept?, hback.kept (by decide), hkept]
    simp
  · have hmarks : ∀ d ∈ ['<', '>', '?', '[', ']'], Text.isBlank d = false :=
      forall_mem_of_all (by decide)
    intro d hd
    obtain rfl := List.mem_singleton.1 hd
    exact hmarks d (List.contains_iff_mem.1 hc)

theorem solid_replaceAll_brackets (t : Text) :
    solid (looseBracket.replaceAll (fun found => (found.kept? "mark").getD []) t) = solid t := by
  refine filter_replaceAll ?_ t
  intro p f hfound
  obtain ⟨b, mark, b', htext, hkept, hne, hb, hb', -⟩ := looseBracket_found hfound
  refine ⟨by simp [htext, hne], ?_⟩
  show solid ((f.kept? "mark").getD []) = solid f.text
  rw [hkept, htext, solid_append, solid_append, solid_of_blanks hb, solid_of_blanks hb',
    List.append_nil, List.nil_append, Option.getD_some]

theorem solid_replaceAll_commas (t : Text) :
    solid (looseComma.replaceAll (fun _ => [',', ' ']) t) = solid t := by
  refine filter_replaceAll ?_ t
  intro p f hfound
  obtain ⟨_, b', ⟨b, comma, hb, hcomma, rfl⟩, hb', htext⟩ := foundAt?_takes hfound
  obtain rfl := takes_lit.1 hcomma
  refine ⟨by simp [htext], ?_⟩
  show solid [',', ' '] = solid f.text
  rw [htext, solid_append, solid_append, solid_of_blanks hb, solid_of_blanks hb']
  decide

/-- Spelling a type in the usual way moves and removes white space only. -/
theorem solid_spelled (rawType : Text) : solid (spelled rawType) = solid rawType := by
  rw [spelled, solid_replaceAll_commas, solid_replaceAll_brackets, solid_trim,
    solid_replaceAll_blanks]

/-! ## Prefixes -/

theorem stripFront?_eq_some_iff {front t rest : Text} :
    Text.stripFront? front t = some rest ↔ t = front ++ rest := by
  induction front generalizing t with
  | nil => simp [Text.stripFront?, eq_comm]
  | cons f front ih =>
    cases t with
    | nil => simp [Text.stripFront?]
    | cons c t =>
      by_cases hfc : f = c
      · simp [Text.stripFront?, hfc, ih]
      · simp [Text.stripFront?, hfc, Ne.symm hfc]

theorem eq_append_of_stripFront_eq {front t rest : Text} (h : Text.stripFront front t = rest) :
    t = rest ∨ t = front ++ rest := by
  rw [Text.stripFront] at h
  cases hstrip : Text.stripFront? front t with
  | none =>
    rw [hstrip] at h
    exact .inl h
  | some rest' =>
    rw [hstrip] at h
    obtain rfl : rest' = rest := h
    exact .inr (stripFront?_eq_some_iff.1 hstrip)

/-- The texts that are all prefix. -/
def prefixTexts : List Text :=
  ["".toList, "System.".toList, "global::".toList, "global::System.".toList]

theorem mem_prefixTexts {t : Text} (h : dropPrefixes t = []) : t ∈ prefixTexts := by
  rcases eq_append_of_stripFront_eq h with hinner | hinner
  · rcases eq_append_of_stripFront_eq hinner with rfl | rfl <;> decide
  · rcases eq_append_of_stripFront_eq hinner with rfl | rfl <;> decide

/-! ## Question marks behind -/

theorem dropMarks_append_cons {c : Char} (hc : c ≠ '?') (s t : Text) :
    dropMarks (s ++ c :: t) = s ++ c :: dropMarks t := by
  rw [dropMarks, Text.dropEndWhile, List.reverse_append, List.reverse_cons, List.append_assoc,
    List.dropWhile_append]
  split
  · rename_i hempty
    rw [dropMarks, Text.dropEndWhile, List.isEmpty_iff.1 hempty]
    simp [hc]
  · simp [dropMarks, Text.dropEndWhile]

theorem dropMarks_append_marks (t : Text) (n : Nat) :
    dropMarks (t ++ List.replicate n '?') = dropMarks t := by
  induction n with
  | zero => rw [List.replicate_zero, List.append_nil]
  | succ n ih =>
    rw [List.replicate_succ', ← List.append_assoc, ← ih]
    exact List.rdropWhile_concat_pos _ _ _ rfl

/-! ## Types that are all prefix -/

/-- A type without brackets and question marks is a word with dots and white space behind it. -/
theorem eq_word_of_unmarked {u : Text} (hu : memberType.Takes u)
    (hmarks : ∀ c ∈ solid u, c ≠ '<' ∧ c ≠ '[' ∧ c ≠ '?') :
    ∃ b, u = solid u ++ b ∧ (∀ c ∈ b, Text.isBlank c = true) ∧
      ∀ c ∈ solid u, (Text.isWord c || c == '.') = true := by
  obtain ⟨c, word, tail, rfl, hc, hword, htail⟩ := exists_word_of_takes hu
  have hfront : ∀ d ∈ c :: word, (Text.isWord d || d == '.') = true := by
    refine List.forall_mem_cons.2 ⟨?_, hword⟩
    rw [isWord_of_isAsciiWord (isAsciiWord_of_isIdentifierStart hc)]
    rfl
  have hsolid : solid (c :: word) = c :: word :=
    solid_of_not_blank fun d hd => Text.not_isBlank_of_dotted (hfront d hd)
  rw [solid_append, hsolid] at hmarks ⊢
  have hblank : Text.trimLeft tail = [] := by
    cases htrim : Text.trimLeft tail with
    | nil => rfl
    | cons d rest =>
      rw [NoWordNext, htrim] at htail
      have hd : d ∈ solid tail := by
        rw [← solid_trimLeft, htrim]
        refine List.mem_filter.2 ⟨List.mem_cons_self, ?_⟩
        rcases htail d rfl with rfl | rfl | rfl <;> decide
      obtain ⟨hangle, hsquare, hquestion⟩ := hmarks d (List.mem_append_right _ hd)
      rcases htail d rfl with rfl | rfl | rfl
      · exact absurd rfl hangle
      · exact absurd rfl hsquare
      · exact absurd rfl hquestion
  have hnil : solid tail = [] := by
    rw [← solid_trimLeft, hblank]
    rfl
  rw [hnil, List.append_nil]
  refine ⟨tail, rfl, ?_, hfront⟩
  intro d hd
  simpa using List.filter_eq_nil_iff.1 hnil d hd

/-- Of the types of members only one leaves nothing in its usual spelling. -/
theorem clean_eq_nil_iff {u : Text} (hu : memberType.Takes u) :
    clean (Text.trim u) = [] ↔ Text.trim u = "System.".toList := by
  constructor
  · intro h
    have hsolid : ∀ p ∈ prefixTexts, solid p = p := by decide
    have hunmarked : ∀ p ∈ prefixTexts,
        (p.all fun c => c != '<' && (c != '[' && c != '?')) = true := by decide
    have hdotted : ∀ p ∈ prefixTexts, (p.all fun c => Text.isWord c || c == '.') = true →
        p = [] ∨ p = "System.".toList := by decide
    -- what is spelled is all prefix, and so are the characters of the type
    have hmember : spelled (Text.trim u) ∈ prefixTexts := mem_prefixTexts h
    have hsame : spelled (Text.trim u) = solid u := by
      rw [← hsolid _ hmember, solid_spelled, solid_trim]
    rw [hsame] at hmember
    have hmarks : ∀ c ∈ solid u, c ≠ '<' ∧ c ≠ '[' ∧ c ≠ '?' := by
      simpa using hunmarked _ hmember
    obtain ⟨b, hub, hb, hword⟩ := eq_word_of_unmarked hu hmarks
    rcases hdotted _ hmember (List.all_eq_true.2 hword) with hnil | hsystem
    · obtain ⟨c, word, tail, rfl, hc, -, -⟩ := exists_word_of_takes hu
      rw [List.cons_append, solid] at hnil
      have hblank := List.filter_eq_nil_iff.1 hnil c List.mem_cons_self
      rw [Text.not_isBlank_of_isWord
        (isWord_of_isAsciiWord (isAsciiWord_of_isIdentifierStart hc))] at hblank
      exact absurd rfl hblank
    · rw [hub, hsystem, Text.trim_append_blanks hb]
      decide
  · intro h
    rw [h]
    decide +kernel

end RazorViews.TypeName
