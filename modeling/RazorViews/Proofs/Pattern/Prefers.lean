import RazorViews.Proofs.Pattern.Takes

/-!
# The reading that a pattern prefers

Of the readings of a pattern the matcher tries the one first that the order of preference names
first, whatever is to follow.  `Prefers` says that a reading is this one: a continuation that
accepts its end decides the match there.

Preferred readings compose, so the match of a pattern is found by putting together the readings of
its parts.

* A sequence prefers what its parts prefer one after another (`Prefers.append`).
* An alternative prefers its first branch, and the second one where the first leads nowhere
  (`Prefers.either_of_not_leads`).
* A run prefers to end where no more is accepted (`prefers_run`), or at the first place from which
  what follows it leads on, if it takes as little as it can (`prefers_run_least`).
* Only where a repetition must give characters back to what follows it are both taken together
  (`prefers_run_before`).

`ReadsOff` and `Keeps` say so of stretches, wherever they stand: in front of a certain text the
pattern prefers to read a certain stretch.  With these a text that was written part by part is read
part by part, and what is kept of it is collected on the way (`Keeps.front?`).
-/

namespace RazorViews.Pattern

variable {ρ : Type} {a b P : Pattern} {p q m : Place} {u v : Text} {accepts : Char → Bool}

/-- The reading from `p` to `q` is the first one that the matcher tries. -/
def Prefers (P : Pattern) (p q : Place) : Prop :=
  ∀ ⦃ρ : Type⦄ (next : Place → Option ρ) (r : ρ), next q = some r → P.match? next p = some r

theorem Prefers.foundAt? (h : P.Prefers p q) :
    P.foundAt? p = some ⟨p.offset, p.rest.take (q.offset - p.offset), q⟩ := by
  rw [Pattern.foundAt?, h some q rfl]
  rfl

/-- What a pattern prefers at the start of a text is found there. -/
theorem Prefers.find? {t : Text} (h : P.Prefers (Place.start t) q) :
    P.find? t = some ⟨0, t.take q.offset, q⟩ := by
  refine find?_eq_some_iff.2 ⟨[], t, rfl, ?_, fun _ _ _ hlt => absurd hlt (Nat.not_lt_zero _)⟩
  have hstart : (Place.start t).after [] t = Place.start t := Place.after_nil rfl
  rw [hstart, h.foundAt?]
  rfl

/-! ## Sequences and alternatives -/

theorem prefers_nothing (p : Place) : nothing.Prefers p p := fun _ _ _ h => h

theorem Prefers.append (ha : a.Prefers p m) (hb : b.Prefers m q) : (a ++ b).Prefers p q :=
  fun _ next r h => ha (b.match? next) r (hb next r h)

theorem Prefers.keep (h : P.Prefers p q) (name : String) :
    (keep name P).Prefers p
      { q with kept := (name, p.rest.take (q.offset - p.offset)) :: q.kept } :=
  fun _ _ r hr => h _ r hr

theorem Prefers.either (h : a.Prefers p q) (b : Pattern) : (either a b).Prefers p q := by
  intro ρ next r hr
  rw [match?, h next r hr]

/-- The second branch is tried first where the first one leads nowhere. -/
theorem Prefers.either_of_not_leads (h : b.Prefers p q) (hno : ∀ q, ¬ a.Leads p q) :
    (Pattern.either a b).Prefers p q := by
  intro ρ next r hr
  rw [match?]
  cases hfirst : a.match? next p with
  | some r' =>
    obtain ⟨q', hq', -⟩ := match?_sound hfirst
    exact absurd hq' (hno q')
  | none => exact h next r hr

/-- What may be there is not, where it cannot begin. -/
theorem prefers_maybe_nothing (hno : ∀ q, ¬ a.Leads p q) : (maybe a).Prefers p p :=
  Prefers.either_of_not_leads (prefers_nothing p) hno

theorem prefers_atStart (h : p.offset = 0) : atStart.Prefers p p := by
  intro ρ next r hr
  rwa [match?, if_pos (beq_iff_eq.2 h)]

theorem prefers_atEnd (h : onEnd p = true) : atEnd.Prefers p p := by
  intro ρ next r hr
  rwa [match?, if_pos h]

theorem prefers_wordEdge (h : onWordEdge p = true) : wordEdge.Prefers p p := by
  intro ρ next r hr
  rwa [match?, if_pos h]

/-! ## Single characters and literals -/

theorem prefers_one {c : Char} (hp : p.rest = c :: v) (hc : accepts c = true) :
    (one accepts).Prefers p (p.after [c] v) := by
  intro ρ next r hr
  rw [match?, hp]
  simpa [hc, Place.step_eq_after] using hr

theorem prefers_exactly {t : Text} (hp : p.rest = t ++ v) :
    (exactly t).Prefers p (p.after t v) := by
  induction t generalizing p with
  | nil =>
    rw [Place.after_nil (v := v) hp]
    exact prefers_nothing p
  | cons c t ih =>
    have hrest : (p.after [c] (t ++ v)).rest = t ++ v := rfl
    have hmore := ih hrest
    rw [Place.after_after] at hmore
    have hfirst : (one (· == c)).Prefers p (p.after [c] (t ++ v)) :=
      prefers_one hp (beq_self_eq_true c)
    exact hfirst.append hmore

/-- A literal cannot begin in front of another character than its first. -/
theorem not_leads_exactly_append {c : Char} {t : Text} (h : p.rest.head? ≠ some c) (q : Place) :
    ¬ (exactly (c :: t) ++ b).Leads p q := by
  rintro ⟨_, ⟨_, ⟨d, rest, hrest, hd, -⟩, -⟩, -⟩
  obtain rfl := beq_iff_eq.1 hd
  exact h (by rw [hrest]; rfl)

theorem not_leads_exactly {c : Char} {t : Text} (h : p.rest.head? ≠ some c) (q : Place) :
    ¬ (exactly (c :: t)).Leads p q := by
  rintro ⟨_, ⟨d, rest, hrest, hd, -⟩, -⟩
  obtain rfl := beq_iff_eq.1 hd
  exact h (by rw [hrest]; rfl)

/-! ## Runs -/

theorem exists_stops (accepts : Char → Bool) (p : Place) :
    ∃ farther, stops accepts p = p :: farther ∧
      ∀ q ∈ farther, ∃ u v, p.rest = u ++ v ∧ u ≠ [] ∧ (∀ c ∈ u, accepts c = true) ∧
        q = p.after u v := by
  rw [stops]
  cases hrest : p.rest with
  | nil => exact ⟨[], rfl, fun q hq => absurd hq List.not_mem_nil⟩
  | cons c rest =>
    rw [stops.go]
    by_cases hc : accepts c = true
    · rw [if_pos hc]
      refine ⟨_, rfl, ?_⟩
      intro q hq
      obtain ⟨u, v, huv, hall, rfl⟩ := mem_stops (p := p.step c rest).1 hq
      refine ⟨c :: u, v, ?_, List.cons_ne_nil c u, List.forall_mem_cons.2 ⟨hc, hall⟩, ?_⟩
      · exact congrArg (c :: ·) huv
      · rw [Place.step_eq_after, Place.after_after]
        rfl
    · rw [if_neg hc]
      exact ⟨[], rfl, fun q hq => absurd hq List.not_mem_nil⟩

/-- Behind an accepted beginning the stops are those from there. -/
theorem exists_stops_append (hp : p.rest = u ++ v) (hu : ∀ c ∈ u, accepts c = true) :
    ∃ nearer, stops accepts p = nearer ++ stops accepts (p.after u v) := by
  induction u generalizing p with
  | nil => exact ⟨[], by rw [Place.after_nil (v := v) hp, List.nil_append]⟩
  | cons c u ih =>
    obtain ⟨nearer, hmore⟩ := ih (p := p.after [c] (u ++ v)) rfl (List.forall_mem_cons.1 hu).2
    rw [Place.after_after] at hmore
    refine ⟨p :: nearer, ?_⟩
    rw [List.cons_append, ← List.singleton_append (x := c), ← hmore, stops, hp, List.cons_append,
      stops.go, if_pos (hu c List.mem_cons_self), Place.step_eq_after]
    rfl

/-- A run that takes as much as it can gives back no more than what follows it asks for. -/
theorem match?_run_most {next : Place → Option ρ} {r : ρ} (hp : p.rest = u ++ v)
    (hu : ∀ c ∈ u, accepts c = true) (hnext : next (p.after u v) = some r)
    (hfarther : ∀ w x, v = w ++ x → w ≠ [] → (∀ c ∈ w, accepts c = true) →
      next (p.after (u ++ w) x) = none) :
    (run accepts .most).match? next p = some r := by
  obtain ⟨nearer, hnearer⟩ := exists_stops_append hp hu
  obtain ⟨farther, hstops, hmem⟩ := exists_stops accepts (p.after u v)
  rw [match?, hnearer, hstops, List.reverse_append, List.reverse_cons, List.findSome?_append,
    List.findSome?_append]
  have hnone : farther.reverse.findSome? next = none := by
    rw [List.findSome?_eq_none_iff]
    intro q hq
    obtain ⟨w, x, hv, hne, hall, rfl⟩ := hmem q (List.mem_reverse.1 hq)
    rw [Place.after_after]
    exact hfarther w x hv hne hall
  rw [hnone, List.findSome?_singleton, hnext]
  rfl

/-- A run prefers to end where no more is accepted. -/
theorem prefers_run (hp : p.rest = u ++ v) (hu : ∀ c ∈ u, accepts c = true)
    (hv : ∀ c ∈ v.head?, accepts c = false) :
    (run accepts .most).Prefers p (p.after u v) := by
  intro ρ next r hr
  refine match?_run_most hp hu hr ?_
  intro w x hwx hne hall
  obtain ⟨c, w, rfl⟩ := List.exists_cons_of_ne_nil hne
  have hc := hv c (by rw [hwx]; rfl)
  rw [hall c List.mem_cons_self] at hc
  exact absurd hc (by simp)

theorem prefers_run1 (hp : p.rest = u ++ v) (hne : u ≠ []) (hu : ∀ c ∈ u, accepts c = true)
    (hv : ∀ c ∈ v.head?, accepts c = false) : (run1 accepts).Prefers p (p.after u v) := by
  obtain ⟨c, u, rfl⟩ := List.exists_cons_of_ne_nil hne
  obtain ⟨hc, hu⟩ := List.forall_mem_cons.1 hu
  have hmore := prefers_run (p := p.after [c] (u ++ v)) rfl hu hv
  rw [Place.after_after] at hmore
  exact (prefers_one hp hc).append hmore

/-- A run that takes as little as it can ends at the first place from which what follows it leads
on. -/
theorem prefers_run_least (hp : p.rest = u ++ v) (hu : ∀ c ∈ u, accepts c = true)
    (hb : b.Prefers (p.after u v) q)
    (hno : ∀ w x, u = w ++ x → x ≠ [] → ∀ q, ¬ b.Leads (p.after w (x ++ v)) q) :
    (run accepts .least ++ b).Prefers p q := by
  induction u generalizing p with
  | nil =>
    rw [Place.after_nil (v := v) hp] at hb
    intro ρ next r hr
    obtain ⟨farther, hstops, -⟩ := exists_stops accepts p
    show (stops accepts p).findSome? (b.match? next) = some r
    rw [hstops, List.findSome?_cons, hb next r hr]
  | cons c u ih =>
    have hfirst := hno [] (c :: u) rfl (List.cons_ne_nil c u)
    rw [Place.after_nil hp] at hfirst
    obtain ⟨hc, hu⟩ := List.forall_mem_cons.1 hu
    have hmore : (run accepts .least ++ b).Prefers (p.after [c] (u ++ v)) q := by
      refine ih rfl hu ?_ ?_
      · rwa [Place.after_after]
      · intro w x hwx hne q'
        rw [Place.after_after]
        exact hno (c :: w) x (by rw [hwx]; rfl) hne q'
    intro ρ next r hr
    have hnone : b.match? next p = none := by
      cases hmatch : b.match? next p with
      | none => rfl
      | some r' =>
        obtain ⟨q', hq', -⟩ := match?_sound hmatch
        exact absurd hq' (hfirst q')
    show (stops accepts p).findSome? (b.match? next) = some r
    rw [stops, hp, List.cons_append, stops.go, if_pos hc, List.findSome?_cons, hnone]
    exact hmore next r hr

/-- A run and a character behind it prefer to end at the last such character that the run can
reach. -/
theorem prefers_run_before {x : Char} {w : Text} (hp : p.rest = u ++ x :: (w ++ v))
    (hu : ∀ c ∈ u, accepts c = true) (hw : x ∉ w) (hv : ∀ c ∈ v.head?, accepts c = false ∧ c ≠ x) :
    (run accepts .most ++ exactly [x]).Prefers p (p.after (u ++ [x]) (w ++ v)) := by
  intro ρ next r hr
  rw [← Place.after_after p u [x] (w ++ v) (x :: (w ++ v))] at hr
  refine match?_run_most hp hu (prefers_exactly (t := [x]) rfl next r hr) ?_
  -- behind the character the run goes on to places in front of something else
  intro s y hsy hne hall
  obtain ⟨c, s, rfl⟩ := List.exists_cons_of_ne_nil hne
  obtain ⟨rfl, hbehind⟩ := List.cons.inj hsy
  have hhead : y.head? ≠ some x := by
    rcases List.append_eq_append_iff.1 hbehind with ⟨z, rfl, hv'⟩ | ⟨z, rfl, rfl⟩
    · cases z with
      | nil =>
        intro hx
        exact (hv x (by rw [hv']; exact hx)).2 rfl
      | cons d z =>
        have hd := (hv d (by rw [hv']; rfl)).1
        rw [hall d (by simp)] at hd
        exact absurd hd (by simp)
    · cases z with
      | nil =>
        intro hx
        exact (hv x hx).2 rfl
      | cons d z =>
        intro hx
        obtain rfl : d = x := Option.some.inj hx
        exact hw (by simp)
  cases hmatch : (exactly [x]).match? next (p.after (u ++ x :: s) y) with
  | none => rfl
  | some r' =>
    obtain ⟨q, hq, -⟩ := match?_sound hmatch
    exact absurd hq (not_leads_exactly (p := p.after (u ++ x :: s) y) hhead q)

/-! ## Stretches -/

/-- In front of `v` the pattern prefers to read `u`, wherever it stands. -/
def ReadsOff (P : Pattern) (u v : Text) : Prop :=
  ∀ ⦃p : Place⦄, p.rest = u ++ v → P.Prefers p (p.after u v)

theorem ReadsOff.append {w : Text} (ha : ReadsOff a u (v ++ w)) (hb : ReadsOff b v w) :
    ReadsOff (a ++ b) (u ++ v) w := by
  intro p hp
  rw [List.append_assoc] at hp
  have hmore : b.Prefers (p.after u (v ++ w)) ((p.after u (v ++ w)).after v w) := hb rfl
  rw [Place.after_after] at hmore
  exact (ha hp).append hmore

theorem readsOff_exactly (t v : Text) : ReadsOff (exactly t) t v := fun _ => prefers_exactly

theorem readsOff_blanks (hu : ∀ c ∈ u, Text.isBlank c = true)
    (hv : ∀ c ∈ v.head?, Text.isBlank c = false) : ReadsOff blanks u v :=
  fun _ hp => prefers_run hp hu hv

theorem readsOff_one {c : Char} (hc : accepts c = true) (v : Text) :
    ReadsOff (one accepts) [c] v := fun _ hp => prefers_one hp hc

theorem readsOff_run (hu : ∀ c ∈ u, accepts c = true)
    (hv : ∀ c ∈ v.head?, accepts c = false) : ReadsOff (run accepts .most) u v :=
  fun _ hp => prefers_run hp hu hv

theorem readsOff_run1 (hne : u ≠ [])
    (hu : ∀ c ∈ u, accepts c = true) (hv : ∀ c ∈ v.head?, accepts c = false) :
    ReadsOff (run1 accepts) u v := fun _ hp => prefers_run1 hp hne hu hv

theorem readsOff_lit {s : String} {c : Char} (hs : s.toList = [c]) (v : Text) :
    ReadsOff (lit s) [c] v := by
  rw [← hs]
  exact readsOff_exactly s.toList v

/-- The first of several literals that can be read, none of which begins like another, is the one
that is there. -/
theorem readsOff_firstOf {words : List String} {word : String} (hword : word ∈ words)
    (hfirst : ∀ w ∈ words, w.toList ≠ [] ∧ (w ≠ word → w.toList.head? ≠ word.toList.head?))
    (v : Text) : ReadsOff (firstOf (words.map lit)) word.toList v := by
  induction words with
  | nil => exact absurd hword List.not_mem_nil
  | cons w words ih =>
    obtain ⟨⟨hne, hother⟩, hfirst⟩ := List.forall_mem_cons.1 hfirst
    cases words with
    | nil =>
      obtain rfl : word = w := List.mem_singleton.1 hword
      exact readsOff_exactly word.toList v
    | cons w' words =>
      intro p hp
      by_cases hw : w = word
      · subst hw
        exact Prefers.either (readsOff_exactly w.toList v hp) _
      · have hmem : word ∈ w' :: words := (List.mem_cons.1 hword).resolve_left (Ne.symm hw)
        refine Prefers.either_of_not_leads (ih hmem hfirst hp) fun q hq => ?_
        obtain ⟨u, hread, htake⟩ := hq.takes
        obtain rfl := takes_lit.1 htake
        obtain ⟨c, rest, hc⟩ := List.exists_cons_of_ne_nil hne
        obtain ⟨d, rest', hd⟩ := List.exists_cons_of_ne_nil (hfirst word hmem).1
        have hsame := hp.symm.trans hread.1
        rw [hc, hd] at hsame
        refine hother hw ?_
        rw [hc, hd, (List.cons.inj hsame).1]
        rfl

theorem turns_of_readsOff {turn : Pattern} {us : List Text}
    (hturn : ∀ front w back, us = front ++ w :: back → ReadsOff turn w (back.flatten ++ v))
    (hend : ∀ p : Place, p.rest = v → ∀ q, ¬ turn.Leads p q) {fuel : Nat} (hfuel : us.length ≤ fuel)
    {p : Place} (hp : p.rest = us.flatten ++ v) (next : Place → Option ρ) {r : ρ}
    (hr : next (p.after us.flatten v) = some r) : turns turn.match? fuel next p = some r := by
  induction us generalizing p fuel with
  | nil =>
    rw [List.flatten_nil, Place.after_nil (v := v) hp] at hr
    cases fuel with
    | zero => exact hr
    | succ fuel =>
      rw [turns]
      cases hmatch : turn.match? (turns turn.match? fuel next) p with
      | none => exact hr
      | some r' =>
        obtain ⟨q, hq, -⟩ := match?_sound hmatch
        exact absurd hq (hend p hp q)
  | cons w us ih =>
    cases fuel with
    | zero => exact absurd hfuel (Nat.not_succ_le_zero _)
    | succ fuel =>
      rw [List.flatten_cons, List.append_assoc] at hp
      rw [List.flatten_cons, ← Place.after_after p w us.flatten v (us.flatten ++ v)] at hr
      have hmore := ih (fun front w' back hsplit => hturn (w :: front) w' back
        (by rw [hsplit, List.cons_append])) (Nat.le_of_succ_le_succ hfuel)
        (p := p.after w (us.flatten ++ v)) rfl hr
      rw [turns, hturn [] w us rfl hp _ r hmore]

/-- Turns are preferred as long as there is one more. -/
theorem readsOff_many {turn : Pattern} {us : List Text} (hne : ∀ w ∈ us, w ≠ [])
    (hturn : ∀ front w back, us = front ++ w :: back → ReadsOff turn w (back.flatten ++ v))
    (hend : ∀ p : Place, p.rest = v → ∀ q, ¬ turn.Leads p q) :
    ReadsOff (many turn) us.flatten v := by
  intro p hp ρ next r hr
  have hfuel : us.length ≤ p.rest.length := by
    rw [hp, List.length_append]
    exact Nat.le_trans (length_le_length_flatten hne) (Nat.le_add_right _ _)
  exact turns_of_readsOff hturn hend hfuel hp next hr

/-! ## Stretches, with what is kept of them -/

/-- In front of `v` the pattern prefers to read `u` and keeps `kept` of it, wherever it stands. -/
def Keeps (P : Pattern) (u v : Text) (kept : List (String × Text)) : Prop :=
  ∀ ⦃p : Place⦄, p.rest = u ++ v →
    P.Prefers p { p.after u v with kept := kept ++ p.kept }

variable {kept kept' : List (String × Text)}

theorem ReadsOff.keeps (h : ReadsOff P u v) : Keeps P u v [] := h

theorem ReadsOff.keep (h : ReadsOff P u v) (name : String) :
    Keeps (Pattern.keep name P) u v [(name, u)] := by
  intro p hp
  have hkeep := (h hp).keep name
  have htext : p.rest.take ((p.after u v).offset - p.offset) = u := by
    rw [hp, Place.offset_after, Nat.add_sub_cancel_left, List.take_left]
  rw [htext] at hkeep
  exact hkeep

theorem Keeps.append {w : Text} (ha : Keeps a u (v ++ w) kept) (hb : Keeps b v w kept') :
    Keeps (a ++ b) (u ++ v) w (kept' ++ kept) := by
  intro p hp
  rw [List.append_assoc] at hp
  have hmore := (ha hp).append (hb (p := { p.after u (v ++ w) with kept := kept ++ p.kept }) rfl)
  rw [List.append_assoc, ← Place.after_after p u v w (v ++ w)]
  exact hmore

/-- At the end of a text nothing follows. -/
theorem Keeps.append_end (ha : Keeps a u v kept) (hb : Keeps b v [] kept') :
    Keeps (a ++ b) (u ++ v) [] (kept' ++ kept) := by
  rw [← List.append_nil v] at ha
  exact ha.append hb

theorem Keeps.maybe (h : Keeps P u v kept) : Keeps (maybe P) u v kept :=
  fun _ hp => (h hp).either nothing

theorem ReadsOff.maybe (h : ReadsOff P u v) :
    ReadsOff (Pattern.maybe P) u v := fun _ hp => (h hp).either nothing

theorem readsOff_maybe_nothing (hno : ∀ p : Place, p.rest = v → ∀ q, ¬ P.Leads p q) :
    ReadsOff (maybe P) [] v := by
  intro p hp
  rw [Place.after_nil (v := v) hp]
  exact prefers_maybe_nothing (hno p hp)

/-- What is read of a whole text. -/
theorem Keeps.front? {t : Text} (h : Keeps P t [] kept) :
    ∃ f, (atStart ++ P ++ atEnd).front? t = some f ∧ f.finish.kept = kept := by
  have hread := h (p := Place.start t) (List.append_nil t).symm
  have hmatch := ((prefers_atStart (p := Place.start t) rfl).append hread).append
    (prefers_atEnd (by rfl))
  exact ⟨_, hmatch.foundAt?, List.append_nil kept⟩

end RazorViews.Pattern
