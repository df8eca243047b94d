import RazorViews.Proofs.Pattern.Local
import RazorViews.Proofs.Pattern.Takes

/-!
# How often a pattern reads a character

A pattern none of whose tests accepts a character never reads it (`counts_of_avoids`).  A pattern
that always reads a character equally often, and last of all, can end at one place only
(`Counts.unique`), whichever of its parts take part and however often its repetitions turn.

So a match of such a pattern does not move when text is put around (`find?_between`): it is found in
the whole at the place where it is found in the part, unless one begins further left.  What stands
behind a match may be exchanged altogether (`find?_behind`).

Headers of classes are patterns of this kind, with the opening brace for the character.  The
condition that the pattern is local (`isLocal`) leaves out anchors, which look at where a text
begins and ends.
-/

namespace RazorViews.Pattern

/-- No test of the pattern accepts the character. -/
def avoids (x : Char) : Pattern → Bool
  | one accepts | run accepts _ => !accepts x
  | seq a b | either a b => a.avoids x && b.avoids x
  | many body | keep _ body => body.avoids x
  | nothing | wordEdge | atStart | atEnd => true

/-- Whatever the pattern may read holds the character `n` times. -/
def Counts (x : Char) (n : Nat) (P : Pattern) : Prop := ∀ u, P.Takes u → u.count x = n

variable {x : Char}

theorem Counts.seq {a b : Pattern} {m n : Nat} (ha : Counts x m a) (hb : Counts x n b) :
    Counts x (m + n) (a ++ b) := by
  intro u hu
  obtain ⟨v, w, hv, hw, rfl⟩ := takes_append.1 hu
  rw [List.count_append, ha v hv, hb w hw]

theorem counts_of_avoids {P : Pattern} (hP : P.avoids x = true) : Counts x 0 P := by
  intro u hu
  apply List.count_eq_zero_of_not_mem
  induction P generalizing u with
  | one accepts =>
    obtain ⟨c, hc, rfl⟩ := hu
    intro hx
    rw [avoids, List.mem_singleton.1 hx, hc] at hP
    exact absurd hP (by simp)
  | run accepts greed =>
    intro hx
    rw [avoids, hu x hx] at hP
    exact absurd hP (by simp)
  | seq a b iha ihb =>
    rw [avoids, Bool.and_eq_true] at hP
    obtain ⟨v, w, hv, hw, rfl⟩ := hu
    intro hx
    rcases List.mem_append.1 hx with hx | hx
    · exact iha hP.1 v hv hx
    · exact ihb hP.2 w hw hx
  | either a b iha ihb =>
    rw [avoids, Bool.and_eq_true] at hP
    rcases hu with hu | hu
    · exact iha hP.1 u hu
    · exact ihb hP.2 u hu
  | many turn ih =>
    obtain ⟨vs, hall, rfl⟩ := hu
    intro hx
    obtain ⟨v, hv, hx⟩ := List.mem_flatten.1 hx
    exact ih hP v (hall v hv) hx
  | keep name body ih => exact ih hP u hu
  | nothing | wordEdge | atStart | atEnd =>
    obtain rfl : u = [] := hu
    exact List.not_mem_nil

/-- A text without regard to case holds a character as often as it does with regard to it, if the
character has no other case. -/
theorem counts_anyCase (hx : ∀ c d, Text.eqFold c d = true → (c = x ↔ d = x)) (t : Text) :
    Counts x (t.count x) (anyCase t) := by
  induction t with
  | nil =>
    rintro u rfl
    rfl
  | cons c t ih =>
    rintro u ⟨v, w, ⟨d, hcd, rfl⟩, hw, rfl⟩
    have hsame : (d == x) = (c == x) := by
      rw [Bool.eq_iff_iff, beq_iff_eq, beq_iff_eq]
      exact (hx c d hcd).symm
    rw [List.singleton_append, List.count_cons, List.count_cons, ih w hw, hsame]

/-! ## Patterns that end with a character -/

/-- What stands in front of the last of `n` occurrences of a character holds fewer of them. -/
theorem eq_nil_of_count {d u v w : Text} (h : d ++ u ++ w = v ++ [x])
    (hcount : u.count x = (v ++ [x]).count x) : w = [] := by
  rcases List.eq_nil_or_concat w with hw | ⟨w', c, hw⟩
  · exact hw
  · rw [List.concat_eq_append] at hw
    subst hw
    rw [← List.append_assoc] at h
    obtain ⟨_, hc⟩ := List.append_inj' h rfl
    obtain rfl := (List.cons.inj hc).1
    rw [← h, List.count_append, List.count_append, List.count_append, List.count_singleton_self]
      at hcount
    omega

/-- A pattern and a character behind it. -/
def endingWith (front : Pattern) (x : Char) : Pattern := front ++ one (· == x)

theorem leads_endingWith {front : Pattern} {p q : Place} :
    (front.endingWith x).Leads p q ↔
      ∃ m rest, front.Leads p m ∧ m.rest = x :: rest ∧ q = m.after [x] rest := by
  constructor
  · rintro ⟨m, hm, c, rest, hrest, hc, rfl⟩
    obtain rfl := beq_iff_eq.1 hc
    exact ⟨m, rest, hm, hrest, rfl⟩
  · rintro ⟨m, rest, hm, hrest, rfl⟩
    exact ⟨m, hm, x, rest, hrest, beq_self_eq_true x, rfl⟩

theorem Reads.unique {p q : Place} {u u' : Text} (h : Reads p u q) (h' : Reads p u' q) : u = u' :=
  List.append_cancel_right (h.1.symm.trans h'.1)

/-- What is read ends with the character, which it holds once more than what stands in front of
it. -/
theorem Counts.reads {front : Pattern} {n : Nat} (hfront : Counts x n front) {p q : Place}
    (h : (front.endingWith x).Leads p q) :
    ∃ v, Reads p (v ++ [x]) q ∧ (v ++ [x]).count x = n + 1 := by
  obtain ⟨m, rest, hm, hrest, rfl⟩ := leads_endingWith.1 h
  obtain ⟨v, hv, htake⟩ := hm.takes
  refine ⟨v, hv.trans (reads_after hrest), ?_⟩
  rw [List.count_append, hfront v htake, List.count_singleton_self]

theorem Counts.found {front : Pattern} {n : Nat} (hfront : Counts x n front) {p : Place}
    {f : Found} (h : (front.endingWith x).foundAt? p = some f) :
    ∃ v, f.text = v ++ [x] ∧ (v ++ [x]).count x = n + 1 := by
  obtain ⟨hlead, _, hreads⟩ := foundAt?_eq_some h
  obtain ⟨v, hlast, hcount⟩ := hfront.reads hlead
  exact ⟨v, hreads.unique hlast, hcount⟩

/-- Of two stretches with equally many of the characters they end with, the one that begins no
further left ends no further left. -/
theorem exists_append_of_count {d u u' v v' w w' : Text} (h : d ++ u ++ w = u' ++ w')
    (hu : u = v ++ [x]) (hu' : u' = v' ++ [x]) (hcount : (v ++ [x]).count x = (v' ++ [x]).count x) :
    ∃ r, d ++ u = u' ++ r ∧ w' = r ++ w := by
  rcases List.append_eq_append_iff.1 h with ⟨s, hs, hw⟩ | ⟨r, hr, hw⟩
  · obtain rfl : s = [] := eq_nil_of_count (hs.symm.trans hu') (hu ▸ hcount)
    exact ⟨[], by simpa using hs.symm, by simpa using hw.symm⟩
  · exact ⟨r, hr, hw⟩

/-- A pattern that ends with a character it reads equally often leads to one place only. -/
theorem Counts.unique {front : Pattern} {n : Nat} (hfront : Counts x n front) {p q q' : Place}
    (h : (front.endingWith x).Leads p q) (h' : (front.endingWith x).Leads p q') :
    q.offset = q'.offset := by
  obtain ⟨v, hv, hcount⟩ := hfront.reads h
  obtain ⟨v', hv', hcount'⟩ := hfront.reads h'
  have hsame : [] ++ (v ++ [x]) ++ q.rest = (v' ++ [x]) ++ q'.rest := hv.1.symm.trans hv'.1
  have hsame' : [] ++ (v' ++ [x]) ++ q'.rest = (v ++ [x]) ++ q.rest := hsame.symm
  obtain ⟨r, hr, -⟩ := exists_append_of_count hsame rfl rfl (hcount.trans hcount'.symm)
  obtain ⟨r', hr', -⟩ := exists_append_of_count hsame' rfl rfl (hcount'.trans hcount.symm)
  have hlength := congrArg List.length hr
  have hlength' := congrArg List.length hr'
  rw [hv.2.1, hv'.2.1]
  simp only [List.nil_append, List.length_append] at hlength hlength' ⊢
  omega

/-! ## A text and the same text between others -/

variable {front : Pattern} {shift : Nat} {pre post more : Text} {p p' q : Place}

theorem leads_endingWith_extend (hfront : front.isLocal = true) (hp : Beside shift more p p')
    (h : (front.endingWith x).Leads p q) : ∃ q', (front.endingWith x).Leads p' q' := by
  obtain ⟨m, rest, hm, hrest, rfl⟩ := leads_endingWith.1 h
  obtain ⟨m', hm', hbeside⟩ := hm.extend hfront hp (.inl (by simp [hrest]))
  have hrest' : m'.rest = x :: (rest ++ more) := by
    rw [hbeside.rest, hrest]
    rfl
  exact ⟨_, leads_endingWith.2 ⟨m', _, hm', hrest', rfl⟩⟩

theorem leads_endingWith_restrict (hfront : front.isLocal = true) (hp : Beside shift more p p')
    (h : (front.endingWith x).Leads p' q) {r : Text} (hq : q.rest = r ++ more) :
    ∃ q', (front.endingWith x).Leads p q' := by
  obtain ⟨m', rest, hm', hrest', rfl⟩ := leads_endingWith.1 h
  obtain rfl : rest = r ++ more := hq
  obtain ⟨m, hm, hbeside⟩ := hm'.restrict hfront hp (.inl (List.cons_ne_nil x r)) hrest'
  have hrest : m.rest = x :: r := List.append_cancel_right (hbeside.rest.symm.trans hrest')
  exact ⟨_, leads_endingWith.2 ⟨m, _, hm, hrest, rfl⟩⟩

/-- A place of a text is beside the same place of the text between others, if no word character
stands in front of it. -/
theorem beside_between (post a b : Text) (hpre : isWordSide pre.getLast? = false) :
    Beside pre.length post ((Place.start (a ++ b)).after a b)
      ((Place.start (pre ++ (a ++ b) ++ post)).after (pre ++ a) (b ++ post)) where
  offset := by
    simp only [Place.offset_after, Place.start, List.length_append]
    omega
  previous := by
    rw [Place.previous_after, Place.previous_after, List.getLast?_append]
    cases a.getLast? with
    | some c => rfl
    | none =>
      show isWordSide (pre.getLast?.or none) = false
      rwa [Option.or_none]
  rest := rfl
  kept := rfl

/-- **A match does not move.**  A local pattern that ends with a character, which it reads equally
often every time, is found in a text as in the same text between others, unless it is found in
what stands in front. -/
theorem find?_between {n : Nat} (hlocal : front.isLocal = true) (hfront : Counts x n front)
    {t : Text} (hpre : isWordSide pre.getLast? = false) {f : Found}
    (h : (front.endingWith x).find? t = some f)
    (hnone : ∀ g, (front.endingWith x).find? (pre ++ t ++ post) = some g →
      pre.length ≤ g.start) :
    ∃ g, (front.endingWith x).find? (pre ++ t ++ post) = some g ∧
      g.start = pre.length + f.start ∧ g.text = f.text ∧
      g.finish.rest = f.finish.rest ++ post := by
  obtain ⟨a, b, rfl, hf, hleft⟩ := find?_eq_some_iff.1 h
  obtain ⟨hlead, hstart, hreads⟩ := foundAt?_eq_some hf
  obtain ⟨v, hftext, hfcount⟩ := hfront.found hf
  have hfstart : f.start = a.length := by simpa [Place.start] using hstart
  -- the match is one of the longer text as well, so something is found there no further right
  have hassoc : pre ++ (a ++ b) ++ post = (pre ++ a) ++ (b ++ post) := by
    simp only [List.append_assoc]
  obtain ⟨_, hlead'⟩ := leads_endingWith_extend hlocal (beside_between post a b hpre) hlead
  obtain ⟨g, hg, hgle⟩ := exists_find? (hassoc ▸ hlead')
  rw [← hassoc] at hg
  refine ⟨g, hg, ?_⟩
  -- it begins in the text, some `d` before the match there
  obtain ⟨A, B, hAB, hgfound, _⟩ := find?_eq_some_iff.1 hg
  obtain ⟨hglead, hgstart, hgreads⟩ := foundAt?_eq_some hgfound
  obtain ⟨v', hgtext, hgcount⟩ := hfront.found hgfound
  have hgA : g.start = A.length := by simpa [Place.start] using hgstart
  have hge := hnone g hg
  obtain ⟨d, hd⟩ : A <+: pre ++ a :=
    List.prefix_of_prefix_length_le ⟨B, hAB.symm⟩ ⟨b ++ post, hassoc.symm⟩ (hgA ▸ hgle)
  obtain ⟨a', rfl⟩ : pre <+: A := by
    refine List.prefix_of_prefix_length_le ?_ ⟨B, hAB.symm⟩ (hgA ▸ hge)
    exact ⟨(a ++ b) ++ post, (List.append_assoc pre (a ++ b) post).symm⟩
  obtain rfl : a' ++ d = a := List.append_cancel_left ((List.append_assoc pre a' d).symm.trans hd)
  obtain rfl : d ++ b ++ post = B := by
    simp only [List.append_assoc] at hAB
    simpa only [List.append_assoc] using List.append_cancel_left (List.append_cancel_left hAB)
  -- and ends no further right, so it is a match of the text
  have hall : d ++ f.text ++ (f.finish.rest ++ post) = g.text ++ g.finish.rest := by
    have hb : b = f.text ++ f.finish.rest := hreads.1
    rw [← hgreads.1, Place.rest_after, hb]
    simp only [List.append_assoc]
  obtain ⟨r, htext, hgrest⟩ :=
    exists_append_of_count hall hftext hgtext (hfcount.trans hgcount.symm)
  rw [← List.append_assoc] at hgrest
  obtain ⟨_, hwithin⟩ :=
    leads_endingWith_restrict hlocal (beside_between post a' (d ++ b) hpre) hglead hgrest
  -- which is not before the leftmost one there
  obtain rfl : d = [] := by
    cases d with
    | nil => rfl
    | cons c d =>
      have hno := hleft a' (c :: d ++ b) (List.append_assoc a' (c :: d) b)
        (by rw [List.length_append, List.length_cons]; omega)
      exact absurd hwithin (foundAt?_eq_none_iff.1 hno _)
  obtain rfl : r = [] := by
    refine eq_nil_of_count (d := []) (htext.symm.trans hftext) ?_
    rw [← hgtext] at hgcount
    exact hgcount.trans hfcount.symm
  refine ⟨?_, ?_, hgrest⟩
  · rw [hgA, hfstart, List.append_nil, List.length_append]
  · rw [← List.append_nil g.text, ← htext, List.nil_append]

/-- What stands behind a match may be exchanged: the match is found in front of anything else. -/
theorem find?_behind {n : Nat} (hlocal : front.isLocal = true) (hfront : Counts x n front)
    {t behind : Text} {f : Found} (h : (front.endingWith x).find? (t ++ behind) = some f)
    (hrest : f.finish.rest = behind) (more : Text) :
    ∃ g, (front.endingWith x).find? (t ++ more) = some g ∧
      g.start = f.start ∧ g.text = f.text ∧ g.finish.rest = more := by
  have hside : isWordSide ([] : Text).getLast? = false := rfl
  have hnothing : ∀ s g, (front.endingWith x).find? ([] ++ t ++ s) = some g →
      ([] : Text).length ≤ g.start := fun _ g _ => Nat.zero_le g.start
  obtain ⟨a, b, hab, hf, _⟩ := find?_eq_some_iff.1 h
  obtain ⟨hlead, _, hreads⟩ := foundAt?_eq_some hf
  -- the text in front of what stands behind has a match
  obtain ⟨c, rfl, rfl⟩ : ∃ c, t = a ++ c ∧ b = c ++ behind := by
    have hb : b = f.text ++ f.finish.rest := hreads.1
    rw [hb, hrest, ← List.append_assoc] at hab
    exact ⟨f.text, List.append_cancel_right hab, by rw [hb, hrest]⟩
  have hbeside := beside_between behind a c hside
  rw [List.nil_append, List.nil_append, List.append_assoc] at hbeside
  obtain ⟨q, hq⟩ := leads_endingWith_restrict (r := []) hlocal hbeside hlead hrest
  obtain ⟨g, hg, _⟩ := exists_find? hq
  -- it is the same one, and it ends there
  obtain ⟨g', hg', hstart, htext, hend⟩ :=
    find?_between hlocal hfront hside hg (hnothing behind)
  rw [List.nil_append, h] at hg'
  obtain rfl := Option.some.inj hg'
  have hgrest : g.finish.rest = [] := by
    rw [hrest] at hend
    exact List.append_left_eq_self.1 hend.symm
  obtain ⟨k, hk, hkstart, hktext, hkend⟩ :=
    find?_between hlocal hfront hside hg (hnothing more)
  refine ⟨k, hk, ?_, hktext.trans htext.symm, ?_⟩
  · rw [hkstart, hstart]
  · rw [hkend, hgrest, List.nil_append]

end RazorViews.Pattern
