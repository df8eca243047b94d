import Mathlib.Data.List.Forall2
import RazorViews.Proofs.Pattern.Counts
import RazorViews.Proofs.Text.Seam

/-!
# Searching a text put together at a separator

A local pattern that reads no separator is found in a text put together at one just if it is found
in one of the parts: `isIn_append_cons`.  Where it is found, and what it reads, is another question.

A pattern that does read separators may still never read over a given one (`StaysIn`).  Then the
matcher goes the same ways in the part in front as in the whole text, in the same order, since what
it tries beyond the separator leads nowhere: `goesAlike`.  So what is kept in the whole text is kept
in the part in front, or else in the part behind: `keptIn?_seam`.

That the matcher goes the same ways is more than that it can be led to the same places: the text
that is kept is that of the reading which it prefers.  `GoesAlike` compares its answers for any two
continuations that are alike in the part and fail beyond it, and there is one lemma for each
constructor of patterns.  Of repetitions only those of single characters are dealt with (`isFlat`),
which stop at places that can be listed.
-/

namespace RazorViews.Pattern

variable {P : Pattern} {a b : Text} {c : Char}

/-! ## Places in the parts and in the whole -/

/-- A place in the part in front. -/
theorem beside_front (t t' more x z : Text) :
    Beside 0 more ((Place.start t).after x z) ((Place.start t').after x (z ++ more)) :=
  ⟨rfl, rfl, rfl, rfl⟩

/-- A place in the part behind, if no word character stands in front of it. -/
theorem beside_back (t t' x z : Text) {front : Text} (hfront : isWordSide front.getLast? = false) :
    Beside front.length [] ((Place.start t).after x z) ((Place.start t').after (front ++ x) z) where
  offset := by simp [Place.start, Nat.add_comm]
  previous := by
    rw [Place.previous_after, Place.previous_after, List.getLast?_append]
    cases x.getLast? with
    | some d => rfl
    | none =>
      show isWordSide (front.getLast?.or none) = false
      rwa [Option.or_none]
  rest := (List.append_nil z).symm
  kept := rfl

/-- A pattern is in a text just if it leads somewhere from a place of it. -/
theorem isIn_iff {t : Text} :
    P.isIn t = true ↔ ∃ x z q, t = x ++ z ∧ P.Leads ((Place.start t).after x z) q := by
  rw [isIn, Option.isSome_iff_ne_none, ne_eq, find?_eq_none_iff]
  push Not
  constructor
  · rintro ⟨x, z, ht, q, hq⟩
    exact ⟨x, z, q, ht, hq⟩
  · rintro ⟨x, z, q, ht, hq⟩
    exact ⟨x, z, ht, q, hq⟩

/-- What a pattern without the separator reads in front of one ends in front of it. -/
theorem leads_within {v more : Text} {p q : Place} (havoids : P.avoids c = true)
    (hp : p.rest = v ++ c :: more) (h : P.Leads p q) :
    ∃ u w, P.Takes u ∧ v = u ++ w ∧ q.rest = w ++ c :: more := by
  obtain ⟨u, hread, htake⟩ := h.takes
  have hnone : c ∉ u := List.count_eq_zero.1 (counts_of_avoids havoids u htake)
  obtain ⟨w, hv, hrest⟩ := Text.exists_of_notMem hnone (hp.symm.trans hread.1)
  exact ⟨u, w, htake, hv, hrest⟩

/-- **A pattern that reads no separator** is in one of the parts that are put together at it. -/
theorem isIn_append_cons (hlocal : P.isLocal = true) (havoids : P.avoids c = true)
    (hc : Text.isWord c = false) (a b : Text) :
    P.isIn (a ++ c :: b) = (P.isIn a || P.isIn b) := by
  have hside : isWordSide (c :: b).head? = false := hc
  have hfront : isWordSide (a ++ [c]).getLast? = false := by simpa [isWordSide] using hc
  rw [Bool.eq_iff_iff, Bool.or_eq_true, isIn_iff, isIn_iff, isIn_iff]
  constructor
  · rintro ⟨x, z, q, hsplit, hq⟩
    rcases Text.append_cons_cases hsplit with ⟨z', rfl, rfl⟩ | ⟨x', rfl, rfl⟩
    · obtain ⟨_, _, -, -, hrest⟩ := leads_within havoids rfl hq
      obtain ⟨q', hq', -⟩ :=
        hq.restrict hlocal (beside_front (x ++ z') _ (c :: b) x z') (.inr hside) hrest
      exact .inl ⟨x, z', q', rfl, hq'⟩
    · have hplace := beside_back (x' ++ z) (a ++ c :: (x' ++ z)) x' z hfront
      rw [List.append_assoc, List.singleton_append] at hplace
      obtain ⟨q', hq', -⟩ := hq.restrict hlocal hplace (.inr rfl) (List.append_nil _).symm
      exact .inr ⟨x', z, q', rfl, hq'⟩
  · rintro (⟨x, z, q, rfl, hq⟩ | ⟨x, z, q, rfl, hq⟩)
    · obtain ⟨q', hq', -⟩ := hq.extend hlocal (beside_front _ ((x ++ z) ++ c :: b) (c :: b) x z)
        (.inr hside)
      exact ⟨x, z ++ c :: b, q', List.append_assoc x z _, hq'⟩
    · have hplace := beside_back (x ++ z) (a ++ c :: (x ++ z)) x z hfront
      rw [List.append_assoc, List.singleton_append] at hplace
      obtain ⟨q', hq', -⟩ := hq.extend hlocal hplace (.inr rfl)
      exact ⟨a ++ c :: x, z, q', by simp, hq'⟩

/-! ## The matcher in a part and in the whole -/

/-- The pattern repeats single characters only. -/
def isFlat : Pattern → Bool
  | nothing | one _ | run .. | wordEdge | atStart | atEnd => true
  | seq a b | either a b => a.isFlat && b.isFlat
  | keep _ body => body.isFlat
  | many _ => false

variable {shift : Nat} {more : Text} {p p' : Place}

/-- The stops of a run in the whole are those in the part, and farther ones beyond it. -/
theorem exists_stops_beside (accepts : Char → Bool) (hp : Beside shift more p p') :
    ∃ near beyond, stops accepts p' = near ++ beyond ∧
      List.Forall₂ (Beside shift more) (stops accepts p) near ∧
      ∀ q ∈ beyond, q.rest.length < more.length := by
  generalize ht : p.rest = t
  induction t generalizing p p' with
  | nil =>
    have hrest : p'.rest = more := by rw [hp.rest, ht, List.nil_append]
    have hfirst : List.Forall₂ (Beside shift more) (stops accepts p) [p'] := by
      rw [stops, ht, stops.go]
      exact .cons hp .nil
    cases hmore : more with
    | nil => exact ⟨[p'], [], by rw [stops, hrest, hmore, stops.go]; rfl, hmore ▸ hfirst, by simp⟩
    | cons c m =>
      rw [stops, hrest, hmore, stops.go]
      by_cases hc : accepts c = true
      · rw [if_pos hc]
        refine ⟨[p'], _, rfl, hmore ▸ hfirst, ?_⟩
        intro q hq
        obtain ⟨u, v, huv, -, rfl⟩ := mem_stops (p := p'.step c m).1 hq
        have hlen := congrArg List.length (show m = u ++ v from huv)
        rw [List.length_append] at hlen
        rw [Place.rest_after, List.length_cons]
        omega
      · rw [if_neg hc]
        exact ⟨[p'], [], rfl, hmore ▸ hfirst, by simp⟩
  | cons c t ih =>
    have hrest : p'.rest = c :: (t ++ more) := by rw [hp.rest, ht, List.cons_append]
    have hstep : Beside shift more (p.step c t) (p'.step c (t ++ more)) := hp.after [c] t
    obtain ⟨near, beyond, hstops, hnear, hbeyond⟩ := ih hstep rfl
    rw [stops, stops, hrest, ht, stops.go, stops.go]
    by_cases hc : accepts c = true
    · rw [if_pos hc, if_pos hc]
      refine ⟨p' :: near, beyond, ?_, .cons hp hnear, hbeyond⟩
      rw [List.cons_append, ← hstops]
      rfl
    · rw [if_neg hc, if_neg hc]
      exact ⟨[p'], [], rfl, .cons hp .nil, by simp⟩

variable {ρ ρ' : Type} {S : ρ → ρ' → Prop}

theorem rel_first {r₁ r₂ : Option ρ} {s₁ s₂ : Option ρ'} :
    Option.Rel S r₁ s₁ → Option.Rel S r₂ s₂ →
      Option.Rel S (match r₁ with | some r => some r | none => r₂)
        (match s₁ with | some s => some s | none => s₂) := by
  intro h₁ h₂
  cases h₁ with
  | some h => exact .some h
  | none => exact h₂

theorem rel_findSome? {α β : Type} {R : α → β → Prop} {l : List α} {l' : List β}
    {f : α → Option ρ} {f' : β → Option ρ'} (h : List.Forall₂ R l l')
    (hf : ∀ x ∈ l, ∀ y ∈ l', R x y → Option.Rel S (f x) (f' y)) :
    Option.Rel S (l.findSome? f) (l'.findSome? f') := by
  induction h with
  | nil => exact .none
  | @cons x y l l' hxy _ ih =>
    have hfirst := hf x List.mem_cons_self y List.mem_cons_self hxy
    have hrest := ih fun z hz w hw =>
      hf z (List.mem_cons_of_mem x hz) w (List.mem_cons_of_mem y hw)
    rw [List.findSome?_cons, List.findSome?_cons]
    exact rel_first hfirst hrest

/-- From places beside one another the matcher goes the same ways: it answers alike if it is
answered alike at the places in the part and not at all beyond it. -/
def GoesAlike (S : ρ → ρ' → Prop) (shift : Nat) (more : Text) (P : Pattern) : Prop :=
  ∀ {p p' : Place} {next : Place → Option ρ} {next' : Place → Option ρ'},
    Beside shift more p p' →
    (∀ q q', P.Leads p q → P.Leads p' q' → Beside shift more q q' →
      Option.Rel S (next q) (next' q')) →
    (∀ q', P.Leads p' q' → q'.rest.length < more.length → next' q' = none) →
    Option.Rel S (P.match? next p) (P.match? next' p')

theorem goesAlike_one (accepts : Char → Bool) : GoesAlike S shift more (one accepts) := by
  intro p p' next next' hp hnext hbeyond
  rw [match?, match?, hp.rest]
  cases hrest : p.rest with
  | nil =>
    have hnone : ∀ c m, more = c :: m → accepts c = true → next' (p'.step c m) = none := by
      intro c m hcons hc
      have hread : p'.rest = c :: m := by rw [hp.rest, hrest, List.nil_append, hcons]
      refine hbeyond _ ⟨c, m, hread, hc, rfl⟩ ?_
      rw [hcons]
      exact Nat.lt_succ_self m.length
    rw [List.nil_append]
    cases hcons : more with
    | nil => exact .none
    | cons c m =>
      show Option.Rel S none (if accepts c = true then next' (p'.step c m) else none)
      split
      · rw [hnone c m hcons ‹_›]
        exact .none
      · exact .none
  | cons c t =>
    show Option.Rel S (if accepts c = true then next (p.step c t) else none)
      (if accepts c = true then next' (p'.step c (t ++ more)) else none)
    have hrest' : p'.rest = c :: (t ++ more) := by rw [hp.rest, hrest, List.cons_append]
    split
    · exact hnext _ _ ⟨c, t, hrest, ‹_›, rfl⟩ ⟨c, t ++ more, hrest', ‹_›, rfl⟩ (hp.after [c] t)
    · exact .none

/-- Of the stops of a run those in the part count alone, in whichever order they are tried. -/
theorem goesAlike_run (accepts : Char → Bool) (greed : Greed) :
    GoesAlike S shift more (run accepts greed) := by
  intro p p' next next' hp hnext hbeyond
  obtain ⟨near, beyond, hstops, hnear, hfar⟩ := exists_stops_beside accepts hp
  have hall : ∀ q' ∈ stops accepts p', (run accepts greed).Leads p' q' :=
    fun q' hq' => mem_stops.1 hq'
  rw [hstops] at hall
  have hpairs : ∀ q ∈ stops accepts p, ∀ q' ∈ near, Beside shift more q q' →
      Option.Rel S (next q) (next' q') := fun q hq q' hq' =>
    hnext q q' (mem_stops.1 hq) (hall q' (List.mem_append_left beyond hq'))
  have hnone : ∀ q' ∈ beyond, next' q' = none := fun q' hq' =>
    hbeyond q' (hall q' (List.mem_append_right near hq')) (hfar q' hq')
  cases greed with
  | most =>
    have hlast : beyond.reverse.findSome? next' = none :=
      List.findSome?_eq_none_iff.2 fun q' hq' => hnone q' (List.mem_reverse.1 hq')
    rw [match?, match?, hstops, List.reverse_append, List.findSome?_append, hlast,
      Option.none_or]
    exact rel_findSome? (List.forall₂_reverse_iff.2 hnear) fun q hq q' hq' =>
      hpairs q (List.mem_reverse.1 hq) q' (List.mem_reverse.1 hq')
  | least =>
    rw [match?, match?, hstops, List.findSome?_append, List.findSome?_eq_none_iff.2 hnone,
      Option.or_none]
    exact rel_findSome? hnear hpairs

/-- From a place beyond the part only places beyond it are reached. -/
theorem match?_beyond {next' : Place → Option ρ'} {m' : Place}
    (hbeyond : ∀ q', P.Leads m' q' → q'.rest.length < more.length → next' q' = none)
    (hlt : m'.rest.length < more.length) : P.match? next' m' = none := by
  cases hmatch : P.match? next' m' with
  | none => rfl
  | some r =>
    obtain ⟨q', hq', hr⟩ := match?_sound hmatch
    obtain ⟨u, hu⟩ := hq'.reads
    have hlen := congrArg List.length hu.1
    rw [List.length_append] at hlen
    rw [hbeyond q' hq' (by omega)] at hr
    exact absurd hr (by simp)

theorem GoesAlike.seq {a b : Pattern} (ha : GoesAlike S shift more a)
    (hb : GoesAlike S shift more b) : GoesAlike S shift more (a.seq b) := by
  intro p p' next next' hp hnext hbeyond
  refine ha hp ?_ ?_
  · intro m m' hm hm' hbeside
    exact hb hbeside (fun q q' hq hq' => hnext q q' ⟨m, hm, hq⟩ ⟨m', hm', hq'⟩)
      fun q' hq' => hbeyond q' ⟨m', hm', hq'⟩
  · intro m' hm' hlt
    exact match?_beyond (fun q' hq' => hbeyond q' ⟨m', hm', hq'⟩) hlt

theorem GoesAlike.either {a b : Pattern} (ha : GoesAlike S shift more a)
    (hb : GoesAlike S shift more b) : GoesAlike S shift more (a.either b) := by
  intro p p' next next' hp hnext hbeyond
  have hfirst := ha hp (fun q q' hq hq' => hnext q q' (.inl hq) (.inl hq'))
    fun q' hq' => hbeyond q' (.inl hq')
  have hsecond := hb hp (fun q q' hq hq' => hnext q q' (.inr hq) (.inr hq'))
    fun q' hq' => hbeyond q' (.inr hq')
  rw [match?, match?]
  exact rel_first hfirst hsecond

theorem GoesAlike.keep {body : Pattern} (h : GoesAlike S shift more body) (name : String) :
    GoesAlike S shift more (keep name body) := by
  intro p p' next next' hp hnext hbeyond
  refine h hp ?_ fun m' hm' => hbeyond _ ⟨m', hm', rfl⟩
  intro m m' hm hm' hbeside
  obtain ⟨u, hu⟩ := hm.reads
  exact hnext _ _ ⟨m, hm, rfl⟩ ⟨m', hm', rfl⟩ (hp.keep hu hbeside name)

theorem goesAlike_wordEdge (hmore : isWordSide more.head? = false) :
    GoesAlike S shift more wordEdge := by
  intro p p' next next' hp hnext hbeyond
  have hsame := hp.onWordEdge (.inr hmore)
  rw [match?, match?, hsame]
  split
  · rename_i hedge
    exact hnext p p' ⟨hedge, rfl⟩ ⟨hsame.trans hedge, rfl⟩ hp
  · exact .none

/-- **The matcher goes the same ways** in a part of a text as in the whole, if no word goes on
behind the part. -/
theorem goesAlike (hlocal : P.isLocal = true) (hflat : P.isFlat = true)
    (hmore : isWordSide more.head? = false) : GoesAlike S shift more P := by
  induction P with
  | nothing =>
    intro p p' next next' hp hnext hbeyond
    exact hnext p p' rfl rfl hp
  | one accepts => exact goesAlike_one accepts
  | run accepts greed => exact goesAlike_run accepts greed
  | seq a b iha ihb =>
    rw [isLocal, Bool.and_eq_true] at hlocal
    rw [isFlat, Bool.and_eq_true] at hflat
    exact GoesAlike.seq (iha hlocal.1 hflat.1) (ihb hlocal.2 hflat.2)
  | either a b iha ihb =>
    rw [isLocal, Bool.and_eq_true] at hlocal
    rw [isFlat, Bool.and_eq_true] at hflat
    exact GoesAlike.either (iha hlocal.1 hflat.1) (ihb hlocal.2 hflat.2)
  | many turn => exact absurd hflat (by simp [isFlat])
  | keep name body ih => exact GoesAlike.keep (ih hlocal hflat) name
  | wordEdge => exact goesAlike_wordEdge hmore
  | atStart | atEnd => exact absurd hlocal (by simp [isLocal])

/-- Matches at places beside one another end at such places, if nothing is read beyond the part. -/
theorem rel_foundAt? (hlocal : P.isLocal = true) (hflat : P.isFlat = true)
    (hmore : isWordSide more.head? = false) (hp : Beside shift more p p')
    (hstay : ∀ q', P.Leads p' q' → more.length ≤ q'.rest.length) :
    Option.Rel (fun f g => Beside shift more f.finish g.finish) (P.foundAt? p) (P.foundAt? p') := by
  have hrel : Option.Rel (Beside shift more) (P.match? some p) (P.match? some p') :=
    goesAlike hlocal hflat hmore hp (fun _ _ _ _ h => .some h)
      fun q' hq' hlt => absurd (hstay q' hq') (Nat.not_le.2 hlt)
  rw [foundAt?, foundAt?]
  generalize P.match? some p = r, P.match? some p' = r' at hrel
  cases hrel with
  | none => exact .none
  | some h => exact .some h

/-! ## What is kept in the whole -/

/-- The text kept under a name where the pattern is found. -/
def keptIn? (name : String) (P : Pattern) (t : Text) : Option Text :=
  (P.find? t).bind (·.kept? name)

theorem eq_none_of_rel {s : Option ρ'} (h : Option.Rel S none s) : s = none := by
  cases h
  rfl

theorem exists_of_rel {r : ρ} {s : Option ρ'} (h : Option.Rel S (some r) s) :
    ∃ r', s = some r' ∧ S r r' := by
  cases h with
  | some h => exact ⟨_, rfl, h⟩

theorem foundAt?_of_find?_eq_none {t x z : Text} (h : P.find? t = none) (ht : t = x ++ z) :
    P.foundAt? ((Place.start t).after x z) = none :=
  foundAt?_eq_none_iff.2 (find?_eq_none_iff.1 h x z ht)

variable {R : Found → Found → Prop} {t front behind : Text}

/-- Found in the part in front, a pattern is found in the whole. -/
theorem exists_find?_front (ht : t = front ++ behind)
    (hfront : ∀ x z, front = x ++ z → Option.Rel R (P.foundAt? ((Place.start front).after x z))
      (P.foundAt? ((Place.start t).after x (z ++ behind)))) {f : Found}
    (hf : P.find? front = some f) : ∃ g, P.find? t = some g ∧ R f g := by
  obtain ⟨x, z, hsplit, hfound, hleft⟩ := find?_eq_some_iff.1 hf
  obtain ⟨g, hg, hrel⟩ := exists_of_rel (hfound ▸ hfront x z hsplit)
  refine ⟨g, find?_eq_some_iff.2 ⟨x, z ++ behind, ?_, hg, ?_⟩, hrel⟩
  · rw [ht, hsplit, List.append_assoc]
  · intro x' z' ht' hlt
    rcases List.append_eq_append_iff.1 (ht.symm.trans ht') with ⟨w, rfl, -⟩ | ⟨w, hsplit', rfl⟩
    · rw [hsplit, List.length_append, List.length_append] at hlt
      omega
    · exact eq_none_of_rel (hleft x' w hsplit' hlt ▸ hfront x' w hsplit')

/-- Found nowhere in the part in front, a pattern is found in the whole as in the part behind. -/
theorem rel_find?_behind (ht : t = front ++ behind)
    (hnone : ∀ x z, t = x ++ z → x.length < front.length →
      P.foundAt? ((Place.start t).after x z) = none)
    (hbehind : ∀ x z, behind = x ++ z →
      Option.Rel R (P.foundAt? ((Place.start behind).after x z))
        (P.foundAt? ((Place.start t).after (front ++ x) z))) :
    Option.Rel R (P.find? behind) (P.find? t) := by
  -- a place of the whole is one of the part behind, or nothing is found there
  have hplaces : ∀ x z, t = x ++ z → P.foundAt? ((Place.start t).after x z) = none ∨
      ∃ y, x = front ++ y ∧ behind = y ++ z := by
    intro x z hsplit
    rcases List.append_eq_append_iff.1 (ht.symm.trans hsplit) with ⟨y, hx, hy⟩ | ⟨w, hx, hz⟩
    · exact .inr ⟨y, hx, hy⟩
    · cases w with
      | nil => exact .inr ⟨[], by rw [hx, List.append_nil, List.append_nil], hz.symm⟩
      | cons c w => exact .inl (hnone x z hsplit (by simp [hx]))
  cases hb : P.find? behind with
  | none =>
    have hfind : P.find? t = none := by
      refine find?_eq_none_iff.2 fun x z hsplit => foundAt?_eq_none_iff.1 ?_
      rcases hplaces x z hsplit with hx | ⟨y, rfl, hy⟩
      · exact hx
      · exact eq_none_of_rel (foundAt?_of_find?_eq_none hb hy ▸ hbehind y z hy)
    rw [hfind]
    exact .none
  | some f =>
    obtain ⟨x, z, hsplit, hf, hleft⟩ := find?_eq_some_iff.1 hb
    obtain ⟨g, hg, hrel⟩ := exists_of_rel (hf ▸ hbehind x z hsplit)
    have hfind : P.find? t = some g := by
      refine find?_eq_some_iff.2 ⟨front ++ x, z, ?_, hg, ?_⟩
      · rw [ht, hsplit, List.append_assoc]
      · intro x' z' hsplit' hlt
        rcases hplaces x' z' hsplit' with hx | ⟨y, rfl, hy⟩
        · exact hx
        · rw [List.length_append, List.length_append, Nat.add_lt_add_iff_left] at hlt
          exact eq_none_of_rel (hleft y z' hy hlt ▸ hbehind y z' hy)
    rw [hfind]
    exact .some hrel

/-- From no place of the text the pattern reads on beyond a comma, a space and another text. -/
def StaysIn (P : Pattern) (a b : Text) : Prop :=
  ∀ u v q, a = u ++ v → P.Leads ((Place.start a).after u (v ++ ',' :: ' ' :: b)) q →
    b.length + 2 ≤ q.rest.length

/-- **What is kept of two texts put together** is kept of the one in front, or else of the one
behind, if the pattern does not read from the one into the other nor begins with a space. -/
theorem keptIn?_seam (hlocal : P.isLocal = true) (hflat : P.isFlat = true)
    (hspace : ∀ p q, p.rest.head? = some ' ' → ¬ P.Leads p q) {name : String}
    (hkeeps : ∀ p q, P.Leads p q → (q.kept.lookup name).isSome = true) (hstay : P.StaysIn a b) :
    keptIn? name P (a ++ ',' :: ' ' :: b) = (keptIn? name P a).or (keptIn? name P b) := by
  generalize htext : a ++ ',' :: ' ' :: b = t
  have hfront : ∀ x z, a = x ++ z →
      Option.Rel (fun f g => Beside 0 (',' :: ' ' :: b) f.finish g.finish)
        (P.foundAt? ((Place.start a).after x z))
        (P.foundAt? ((Place.start t).after x (z ++ ',' :: ' ' :: b))) := fun x z ha =>
    rel_foundAt? hlocal hflat rfl (beside_front a t _ x z) fun q hq => hstay x z q ha hq
  rw [keptIn?, keptIn?, keptIn?]
  cases ha : P.find? a with
  | some f =>
    obtain ⟨g, hfound, hbeside⟩ := exists_find?_front htext.symm hfront ha
    obtain ⟨x, z, -, hf, -⟩ := find?_eq_some_iff.1 ha
    obtain ⟨v, hv⟩ := Option.isSome_iff_exists.1 (hkeeps _ _ (foundAt?_eq_some hf).1)
    rw [hfound, Option.bind_some, Option.bind_some, Found.kept?, Found.kept?, hbeside.kept, hv,
      Option.some_or]
  | none =>
    have hside : isWordSide (a ++ [',', ' ']).getLast? = false := by simp; rfl
    have hnone : ∀ x z, t = x ++ z → x.length < (a ++ [',', ' ']).length →
        P.foundAt? ((Place.start t).after x z) = none := by
      intro x z ht hlt
      rcases Text.append_cons_cases (htext.trans ht) with ⟨z', hsplit, rfl⟩ | ⟨x', rfl, hx⟩
      · exact eq_none_of_rel (foundAt?_of_find?_eq_none ha hsplit ▸ hfront x z' hsplit)
      · -- the place between the comma and the space
        rw [List.length_append, List.length_append, Nat.add_lt_add_iff_left] at hlt
        have hlen : x'.length < 1 := Nat.lt_of_succ_lt_succ hlt
        obtain rfl : x' = [] := List.eq_nil_of_length_eq_zero (Nat.lt_one_iff.1 hlen)
        refine foundAt?_eq_none_iff.2 fun q => hspace _ q ?_
        rw [Place.rest_after, ← List.nil_append z, ← hx]
        rfl
    have ht : t = (a ++ [',', ' ']) ++ b := by simp [← htext]
    have hrel := rel_find?_behind ht hnone fun x z _ =>
      rel_foundAt? hlocal hflat rfl (beside_back b t x z hside) fun q _ => Nat.zero_le _
    generalize P.find? b = r, P.find? t = s at hrel
    cases hrel with
    | none => rfl
    | some hbeside =>
      rw [Option.bind_some, Option.bind_some, Option.bind_none, Option.none_or, Found.kept?,
        Found.kept?, hbeside.kept]

end RazorViews.Pattern
