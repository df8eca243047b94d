import RazorViews.Proofs.ClassRegion.Between

/-!
# The extent of a class

A class is located in a text by its header, and its region goes from the line on which the header
begins to the line of its closing brace.

## What is proved

`locate?_extent` says so of every text and every name.

* Nothing is located just if no header of the name stands in the text.
* Otherwise it is the extent of the class with the leftmost header, and of nothing else
  (`IsFirstHeader`, `IsExtent`): the region is balanced just if a brace closes the one that ends the
  header, and then goes on to its line; if none does, it goes on to the last line of the text.
* One brace is closed by no two (`Closes`).  The brace that closes it is the one behind which, for
  the first time, no more braces have been opened than closed.
* The first line of a region is not behind its last one, and that is a line of the text.

What a header is, is said by its pattern: `HasHeader` has it begin at one place and end with the
brace at another, through whatever the pattern admits between them.

## What it is not

Braces are counted as characters, so the region is the extent of the class in *erased* source; where
a comment holds a brace the two differ.  And the class that is meant may have its header behind
another one of the same name, which is not looked for.

## The proof

Counting goes by lines, with a part of a line in front of the header.  What is open behind each line
is the sum over the stretch of text so far (`closingLine?_eq_some_iff_closes`), and headers are
found where the pattern leads from the leftmost place (`exists_firstHeader`).
-/

namespace RazorViews.ClassRegion

open Pattern Member

variable {source name t rest : Text} {start brace : Nat} {r : ClassRegion}

/-! ## Braces that belong together -/

/-- The characters of a text from one position to another, both of them included. -/
def stretch (t : Text) (first last : Nat) : Text := (t.take (last + 1)).drop first

/-- The brace at `e` closes the one at `o`: from `o` to `e` as many braces are opened as are closed,
and up to any position before `e` more are opened. -/
structure Closes (t : Text) (o e : Nat) : Prop where
  behind : o < e
  within : e < t.length
  balance : braceBalance (stretch t o e) = 0
  opened : ∀ k, o ≤ k → k < e → 0 < braceBalance (stretch t o k)

/-- No two braces close the same one. -/
theorem Closes.unique {o e e' : Nat} (h : Closes t o e) (h' : Closes t o e') : e = e' := by
  rcases Nat.lt_trichotomy e e' with hlt | heq | hlt
  · have := h'.opened e (Nat.le_of_lt h.behind) hlt
    have := h.balance
    omega
  · exact heq
  · have := h.opened e' (Nat.le_of_lt h'.behind) hlt
    have := h'.balance
    omega

/-- A stretch from an opening brace on. -/
theorem braceBalance_stretch {o n : Nat} (h : t.drop o = '{' :: rest) :
    braceBalance (stretch t o (o + n)) = 1 + braceBalance (rest.take n) := by
  have hdrop : stretch t o (o + n) = '{' :: rest.take n := by
    rw [stretch, List.drop_take, h, Nat.add_assoc, Nat.add_sub_cancel_left, List.take_succ_cons]
  rw [hdrop, braceBalance_cons, if_pos rfl]

theorem braceBalance_singleton_neg {c : Char} (h : braceBalance [c] < 0) : c = '}' := by
  have hzero : braceBalance [] = 0 := rfl
  rw [braceBalance_cons, hzero, Int.add_zero] at h
  split at h
  · exact absurd h (by decide)
  · split at h
    · assumption
    · exact absurd h (by decide)

/-- An opening brace is closed behind the first body that ends in front of a closing one. -/
theorem closes_iff {o e : Nat} (h : t.drop o = '{' :: rest) :
    Closes t o e ↔ ∃ u v, rest = u ++ '}' :: v ∧ IsBody 0 u ∧ e = o + 1 + u.length := by
  have hlength : t.length = o + 1 + rest.length := by
    have hdrop := congrArg List.length h
    rw [List.length_drop, List.length_cons] at hdrop
    omega
  constructor
  · intro hcloses
    obtain ⟨n, rfl⟩ : ∃ n, e = o + (n + 1) :=
      ⟨e - (o + 1), by have := hcloses.behind; omega⟩
    have hn : n < rest.length := by
      have := hcloses.within
      omega
    have hpositive : ∀ j ≤ n, 0 ≤ braceBalance (rest.take j) := by
      intro j hj
      have hopened := hcloses.opened (o + j) (Nat.le_add_right o j) (by omega)
      rw [braceBalance_stretch h] at hopened
      omega
    have hbalance := hcloses.balance
    rw [braceBalance_stretch h, List.take_add_one, List.getElem?_eq_getElem hn, Option.toList_some,
      braceBalance_append] at hbalance
    have hfirst := hpositive n (Nat.le_refl n)
    have hclose : rest[n] = '}' := braceBalance_singleton_neg (by omega)
    have hminus : braceBalance ['}'] = -1 := by decide
    rw [hclose, hminus] at hbalance
    refine ⟨rest.take n, rest.drop (n + 1), ?_, ⟨by omega, ?_⟩, ?_⟩
    · rw [← hclose, ← List.drop_eq_getElem_cons hn, List.take_append_drop]
    · intro front hfront
      have hle := hfront.length_le
      rw [List.length_take] at hle
      rw [List.prefix_iff_eq_take.1 hfront, List.take_take, Nat.min_eq_left (by omega),
        Int.zero_add]
      exact hpositive _ (by omega)
    · rw [List.length_take]
      omega
  · rintro ⟨u, v, rfl, hbody, rfl⟩
    rw [List.length_append, List.length_cons] at hlength
    refine ⟨by omega, by omega, ?_, ?_⟩
    · have hclosed := hbody.closed
      have hminus : braceBalance ['}'] = -1 := by decide
      rw [Nat.add_assoc, Nat.add_comm 1, braceBalance_stretch h, List.take_length_add_append,
        List.take_succ_cons, List.take_zero, braceBalance_append, hminus]
      omega
    · intro k hk hlt
      obtain ⟨j, rfl⟩ := Nat.exists_eq_add_of_le hk
      have hinside := hbody.inside (u.take j) (List.take_prefix j u)
      rw [braceBalance_stretch h, List.take_append_of_le_length (by omega)]
      omega

/-! ## The first header -/

/-- The place behind so many characters of a text. -/
def placeAt (t : Text) (i : Nat) : Place := (Place.start t).after (t.take i) (t.drop i)

/-- A header of the class stands in the text: it begins at `start`, and its brace stands at
`brace`. -/
def HasHeader (source name : Text) (start brace : Nat) : Prop :=
  start ≤ source.length ∧
    ∃ q, (header name).Leads (placeAt source start) q ∧ q.offset = brace + 1

/-- It is the leftmost one. -/
structure IsFirstHeader (source name : Text) (start brace : Nat) : Prop where
  header : HasHeader source name start brace
  first : ∀ start' brace', HasHeader source name start' brace' → start ≤ start'

/-- A header that begins at a place ends there with the same brace, whichever of its parts it is
read into. -/
theorem HasHeader.unique {brace' : Nat} (h : HasHeader source name start brace)
    (h' : HasHeader source name start brace') : brace = brace' := by
  obtain ⟨-, q, hq, hbrace⟩ := h
  obtain ⟨-, q', hq', hbrace'⟩ := h'
  have hend := (counts_headerFront name).unique hq hq'
  omega

theorem IsFirstHeader.unique {start' brace' : Nat} (h : IsFirstHeader source name start brace)
    (h' : IsFirstHeader source name start' brace') : start = start' ∧ brace = brace' := by
  obtain rfl : start = start' :=
    Nat.le_antisymm (h.first _ _ h'.header) (h'.first _ _ h.header)
  exact ⟨rfl, h.header.unique h'.header⟩

theorem placeAt_append (a b : Text) :
    placeAt (a ++ b) a.length = (Place.start (a ++ b)).after a b := by
  rw [placeAt, List.take_left, List.drop_left]

theorem find?_header_eq_none_iff :
    (header name).find? source = none ↔ ∀ start brace, ¬ HasHeader source name start brace := by
  rw [find?_eq_none_iff]
  constructor
  · rintro h start brace ⟨-, q, hq, -⟩
    exact h _ _ (List.take_append_drop start source).symm q hq
  · rintro h a b rfl q hq
    obtain ⟨v, hv, -⟩ := (counts_headerFront name).reads hq
    refine h a.length (a.length + v.length) ⟨?_, q, (placeAt_append a b).symm ▸ hq, ?_⟩
    · rw [List.length_append]
      exact Nat.le_add_right _ _
    · rw [hv.2.1, List.length_append, ← Nat.add_assoc]
      simp [Place.start]

/-- The header that is found is the first one. -/
theorem exists_firstHeader {f : Found} (hf : (header name).find? source = some f) :
    ∃ brace, IsFirstHeader source name f.start brace ∧ source.drop brace = '{' :: f.finish.rest ∧
      Text.lineFeeds (source.take brace) =
        Text.lineFeeds (source.take f.start) + Text.lineFeeds f.text := by
  obtain ⟨a, b, rfl, hfound, hleft⟩ := find?_eq_some_iff.1 hf
  obtain ⟨hlead, hstart, hreads⟩ := foundAt?_eq_some hfound
  obtain ⟨v, htext, -⟩ := (counts_headerFront name).found hfound
  obtain ⟨hb, hoffset, -⟩ := hreads
  have hstart : f.start = a.length := by simpa [Place.start] using hstart
  have hb : b = v ++ '{' :: f.finish.rest := by simpa [htext] using hb
  have hbrace : (a ++ v).length = a.length + v.length := List.length_append
  refine ⟨a.length + v.length, ⟨⟨?_, f.finish, ?_, ?_⟩, ?_⟩, ?_, ?_⟩
  · rw [hstart, List.length_append]
    exact Nat.le_add_right _ _
  · rw [hstart, placeAt_append]
    exact hlead
  · rw [hoffset, htext, List.length_append, ← Nat.add_assoc]
    simp [Place.start]
  · rintro start' brace' ⟨-, q, hq, -⟩
    rw [hstart]
    by_contra hlt
    have hle : start' ≤ (a ++ b).length := by
      rw [List.length_append]
      omega
    have hnone := hleft _ _ (List.take_append_drop start' (a ++ b)).symm (by
      rw [List.length_take, Nat.min_eq_left hle]
      omega)
    exact foundAt?_eq_none_iff.1 hnone q hq
  · rw [hb, ← List.append_assoc, ← hbrace, List.drop_left]
  · rw [hb, ← List.append_assoc, ← hbrace, List.take_left, hstart, List.append_assoc,
      List.take_left, htext]
    simp [Text.lineFeeds]

/-! ## Regions -/

/-- The class whose header begins at `start` and has its brace at `brace` extends over the region:
to the line of the brace that closes this one, or to the last line if none does. -/
structure IsExtent (source : Text) (start brace : Nat) (r : ClassRegion) : Prop where
  firstLine : r.firstLine = Text.lineFeeds (source.take start)
  balanced : r.balanced = true ↔ ∃ e, Closes source brace e
  closed : ∀ e, Closes source brace e → r.lastLine = Text.lineFeeds (source.take e)
  unclosed : r.balanced = false → r.lastLine = Text.lineFeeds source

theorem IsExtent.unique {r' : ClassRegion} (h : IsExtent source start brace r)
    (h' : IsExtent source start brace r') : r = r' := by
  have hbalanced : r.balanced = r'.balanced := by
    rw [Bool.eq_iff_iff, h.balanced, h'.balanced]
  have hlast : r.lastLine = r'.lastLine := by
    cases hclosed : r.balanced with
    | true =>
      obtain ⟨e, he⟩ := h.balanced.1 hclosed
      rw [h.closed e he, h'.closed e he]
    | false => rw [h.unclosed hclosed, h'.unclosed (hbalanced ▸ hclosed)]
  cases r
  cases r'
  simp only at hbalanced hlast
  rw [ClassRegion.mk.injEq]
  exact ⟨h.firstLine.trans h'.firstLine.symm, hlast, hbalanced⟩

/-- The counter of open braces finds the brace that closes the one in front of it. -/
theorem closingLine?_eq_some_iff_closes (h : source.drop brace = '{' :: rest) (k : Nat) :
    closingLine? 0 (Text.lineFeeds (source.take brace)) rest = some k ↔
      ∃ e, Closes source brace e ∧ k = Text.lineFeeds (source.take e) := by
  have hfeeds : ∀ u v, rest = u ++ '}' :: v →
      Text.lineFeeds (source.take (brace + 1 + u.length)) =
        Text.lineFeeds (source.take brace) + Text.lineFeeds u := by
    intro u v hrest
    rw [Nat.add_assoc, Nat.add_comm 1, List.take_add, h, List.take_succ_cons, hrest,
      List.take_left, Text.lineFeeds, List.count_append, List.count_cons_of_ne (by decide)]
    rfl
  rw [closingLine?_eq_some_iff]
  simp only [closes_iff h]
  constructor
  · rintro ⟨u, v, hrest, hbody, rfl⟩
    exact ⟨_, ⟨u, v, hrest, hbody, rfl⟩, (hfeeds u v hrest).symm⟩
  · rintro ⟨e, ⟨u, v, hrest, hbody, rfl⟩, rfl⟩
    exact ⟨u, v, hrest, hbody, hfeeds u v hrest⟩

theorem exists_extent (hr : locate? source name = some r) :
    ∃ start brace, IsFirstHeader source name start brace ∧ IsExtent source start brace r := by
  obtain ⟨f, hf, hregion⟩ := Option.map_eq_some_iff.1 hr
  obtain ⟨brace, hfirst, hdrop, hfeeds⟩ := exists_firstHeader hf
  have hclosing := closingLine?_eq_some_iff_closes hdrop
  refine ⟨f.start, brace, hfirst, ?_⟩
  dsimp only at hregion
  rw [← hfeeds] at hregion
  cases hclose : closingLine? 0 (Text.lineFeeds (source.take brace)) f.finish.rest with
  | some k =>
    obtain ⟨e, he, rfl⟩ := (hclosing k).1 hclose
    rw [hclose] at hregion
    subst hregion
    refine ⟨rfl, iff_of_true rfl ⟨e, he⟩, ?_, fun h => absurd h (by simp)⟩
    intro e' he'
    rw [he.unique he']
  | none =>
    have hnone : ∀ e, ¬ Closes source brace e := by
      intro e he
      have hsome := (hclosing _).2 ⟨e, he, rfl⟩
      exact absurd (hclose.symm.trans hsome) (by simp)
    rw [hclose] at hregion
    subst hregion
    exact ⟨rfl, iff_of_false (by simp) fun ⟨e, he⟩ => hnone e he, fun e he => absurd he (hnone e),
      fun _ => rfl⟩

theorem locate?_eq_none_iff :
    locate? source name = none ↔ ∀ start brace, ¬ HasHeader source name start brace := by
  rw [locate?, Option.map_eq_none_iff, find?_header_eq_none_iff]

theorem locate?_eq_some_iff :
    locate? source name = some r ↔
      ∃ start brace, IsFirstHeader source name start brace ∧ IsExtent source start brace r := by
  constructor
  · exact exists_extent
  · rintro ⟨start, brace, hfirst, hextent⟩
    cases hr : locate? source name with
    | none => exact absurd hfirst.header (locate?_eq_none_iff.1 hr start brace)
    | some r' =>
      obtain ⟨start', brace', hfirst', hextent'⟩ := exists_extent hr
      obtain ⟨rfl, rfl⟩ := hfirst.unique hfirst'
      rw [hextent.unique hextent']

theorem lineFeeds_take_le {i j : Nat} (h : i ≤ j) (t : Text) :
    Text.lineFeeds (t.take i) ≤ Text.lineFeeds (t.take j) :=
  (List.take_prefix_take_left h).sublist.count_le '\n'

theorem HasHeader.start_le (h : HasHeader source name start brace) : start ≤ brace := by
  obtain ⟨hle, q, hq, hbrace⟩ := h
  obtain ⟨v, hv, -⟩ := (counts_headerFront name).reads hq
  have hoffset := hv.2.1
  have hstart : (placeAt source start).offset = start := by
    simp [placeAt, Place.start, hle]
  rw [hbrace, hstart, List.length_append, List.length_singleton] at hoffset
  omega

/-- The lines of a region are lines of the text, in order. -/
theorem lines_of_locate? (h : locate? source name = some r) :
    r.firstLine ≤ r.lastLine ∧ r.lastLine ≤ Text.lineFeeds source := by
  obtain ⟨start, brace, hfirst, hextent⟩ := exists_extent h
  have hall : ∀ i, Text.lineFeeds (source.take i) ≤ Text.lineFeeds source :=
    fun i => (List.take_sublist i source).count_le '\n'
  rw [hextent.firstLine]
  cases hclosed : r.balanced with
  | true =>
    obtain ⟨e, he⟩ := hextent.balanced.1 hclosed
    rw [hextent.closed e he]
    have hle := hfirst.header.start_le
    have hlt := he.behind
    exact ⟨lineFeeds_take_le (by omega) source, hall e⟩
  | false =>
    rw [hextent.unclosed hclosed]
    exact ⟨hall start, Nat.le_refl _⟩

/-- **The region of a class is its extent.**  There is none just if no header of the class stands in
the text.  Otherwise it is the extent of the class with the leftmost header: it is balanced just if
a brace closes the one that ends the header, no other brace does, and its lines are those of the
text from the header to that brace or to the end. -/
theorem locate?_extent (source name : Text) :
    (locate? source name = none ↔ ∀ start brace, ¬ HasHeader source name start brace) ∧
    (∀ r, locate? source name = some r ↔
      ∃ start brace, IsFirstHeader source name start brace ∧ IsExtent source start brace r) ∧
    (∀ o e e', Closes source o e → Closes source o e' → e = e') ∧
    ∀ r, locate? source name = some r →
      r.firstLine ≤ r.lastLine ∧ r.lastLine ≤ Text.lineFeeds source :=
  ⟨locate?_eq_none_iff, fun _ => locate?_eq_some_iff, fun _ _ _ h h' => h.unique h',
    fun _ => lines_of_locate?⟩

/-- Two classes of a name; the braces of the first one nest. -/
def nested : Text :=
  "class Q;\nclass Node<T> :\n  Base where T : new()\n\x7b Kind \x7b\x7d\n\x7d \x7d\n".toList ++
    "class Node \x7b".toList

theorem closes_nested : Closes nested 48 58 where
  behind := by decide
  within := by decide
  balance := by decide +kernel
  opened := by decide +kernel

theorem locate?_extent_nested :
    locate? nested "Node".toList = some ⟨1, 4, true⟩ ∧
      (∃ start brace, IsFirstHeader nested "Node".toList start brace ∧
        IsExtent nested start brace ⟨1, 4, true⟩) ∧
      Closes nested 48 58 ∧ (∀ e, Closes nested 48 e → e = 58) ∧
      4 ≤ Text.lineFeeds nested := by
  have hfound : locate? nested "Node".toList = some ⟨1, 4, true⟩ := by decide +kernel
  obtain ⟨-, hextent, hunique, hlines⟩ := locate?_extent nested "Node".toList
  refine ⟨hfound, (hextent _).1 hfound, closes_nested, ?_, (hlines _ hfound).2⟩
  intro e he
  exact hunique 48 e 58 he closes_nested

end RazorViews.ClassRegion
