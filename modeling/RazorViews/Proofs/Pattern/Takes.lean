import RazorViews.Proofs.Pattern.Find

/-!
# The texts that a pattern may read

`Takes` says which texts a pattern may read, wherever it stands: edges and anchors are left out of
account.  Whatever is read is such a text (`Leads.takes`), and a pattern without edges and anchors
reads every such text that it meets (`Takes.leads`).

So what a pattern reads is known from both sides by the language that it stands for.  What it takes
can be taken apart by the form of the pattern: a sequence takes two texts one behind the other
(`takes_append`), a run characters of a kind (`takes_run1`), a literal itself (`takes_lit`), and one
without regard to case any text of its length that is equal to it so (`takes_anyCase`).

Which of several such texts is read is a question of preference, and is answered elsewhere
(`Prefers`).
-/

namespace RazorViews.Pattern

/-- The texts that a pattern may read. -/
def Takes : Pattern → Text → Prop
  | nothing, u => u = []
  | one accepts, u => ∃ c, accepts c = true ∧ u = [c]
  | run accepts _, u => ∀ c ∈ u, accepts c = true
  | seq a b, u => ∃ v w, a.Takes v ∧ b.Takes w ∧ u = v ++ w
  | either a b, u => a.Takes u ∨ b.Takes u
  | many turn, u => ∃ vs : List Text, (∀ v ∈ vs, turn.Takes v) ∧ u = vs.flatten
  | keep _ body, u => body.Takes u
  | wordEdge, u | atStart, u | atEnd, u => u = []

theorem takes_append {a b : Pattern} {u : Text} :
    (a ++ b).Takes u ↔ ∃ v w, a.Takes v ∧ b.Takes w ∧ u = v ++ w := Iff.rfl

theorem takes_run1 {accepts : Char → Bool} {u : Text} :
    (run1 accepts).Takes u ↔ u ≠ [] ∧ ∀ c ∈ u, accepts c = true := by
  constructor
  · rintro ⟨v, w, ⟨c, hc, rfl⟩, hw, rfl⟩
    refine ⟨List.cons_ne_nil c w, ?_⟩
    intro d hd
    rcases List.mem_cons.1 hd with rfl | hd
    · exact hc
    · exact hw d hd
  · rintro ⟨hne, hall⟩
    cases u with
    | nil => exact absurd rfl hne
    | cons c u =>
      exact ⟨[c], u, ⟨c, hall c List.mem_cons_self, rfl⟩,
        fun d hd => hall d (List.mem_cons_of_mem c hd), rfl⟩

theorem takes_exactly {t u : Text} : (exactly t).Takes u ↔ u = t := by
  induction t generalizing u with
  | nil => exact Iff.rfl
  | cons c t ih =>
    constructor
    · rintro ⟨v, w, ⟨d, hd, rfl⟩, hw, rfl⟩
      obtain rfl := beq_iff_eq.1 hd
      rw [ih.1 hw]
      rfl
    · rintro rfl
      exact ⟨[c], t, ⟨c, beq_self_eq_true c, rfl⟩, ih.2 rfl, rfl⟩

theorem takes_lit {s : String} {u : Text} : (lit s).Takes u ↔ u = s.toList := takes_exactly

theorem takes_firstOf {ps : List Pattern} (hps : ps ≠ []) {u : Text} :
    (firstOf ps).Takes u ↔ ∃ P ∈ ps, P.Takes u := by
  induction ps with
  | nil => exact absurd rfl hps
  | cons P ps ih =>
    cases ps with
    | nil => simp [firstOf]
    | cons P' ps =>
      rw [firstOf.eq_3 _ _ (List.cons_ne_nil P' ps), Takes, ih (List.cons_ne_nil P' ps)]
      simp only [List.mem_cons, exists_eq_or_imp]

/-! ## Whatever is read is taken -/

theorem Turns.takes {turn : Pattern}
    (hturn : ∀ p q, turn.Leads p q → ∃ u, Reads p u q ∧ turn.Takes u) {n : Nat} {p q : Place}
    (h : Turns turn.Leads n p q) :
    ∃ vs : List Text, Reads p vs.flatten q ∧ ∀ v ∈ vs, turn.Takes v := by
  induction n generalizing p with
  | zero => exact ⟨[], h ▸ ⟨rfl, rfl, rfl⟩, by simp⟩
  | succ n ih =>
    obtain ⟨m, hm, hrest⟩ := h
    obtain ⟨u, hu, htake⟩ := hturn p m hm
    obtain ⟨vs, hvs, hall⟩ := ih hrest
    refine ⟨u :: vs, hu.trans hvs, ?_⟩
    intro v hv
    rcases List.mem_cons.1 hv with rfl | hv
    · exact htake
    · exact hall v hv

theorem Leads.takes {P : Pattern} {p q : Place} (h : P.Leads p q) :
    ∃ u, Reads p u q ∧ P.Takes u := by
  induction P generalizing p q with
  | nothing => exact ⟨[], h ▸ ⟨rfl, rfl, rfl⟩, rfl⟩
  | one accepts =>
    obtain ⟨c, rest, hrest, hc, rfl⟩ := h
    exact ⟨[c], reads_after hrest, c, hc, rfl⟩
  | run accepts greed =>
    obtain ⟨u, v, huv, hall, rfl⟩ := h
    exact ⟨u, reads_after huv, hall⟩
  | seq a b iha ihb =>
    obtain ⟨m, ha, hb⟩ := h
    obtain ⟨u, hu, hta⟩ := iha ha
    obtain ⟨v, hv, htb⟩ := ihb hb
    exact ⟨u ++ v, hu.trans hv, u, v, hta, htb, rfl⟩
  | either a b iha ihb =>
    rcases h with h | h
    · obtain ⟨u, hu, ht⟩ := iha h
      exact ⟨u, hu, .inl ht⟩
    · obtain ⟨u, hu, ht⟩ := ihb h
      exact ⟨u, hu, .inr ht⟩
  | many turn ih =>
    obtain ⟨n, _, hturns⟩ := h
    obtain ⟨vs, hvs, hall⟩ := hturns.takes fun _ _ => ih
    exact ⟨vs.flatten, hvs, vs, hall, rfl⟩
  | keep name body ih =>
    obtain ⟨m, hm, rfl⟩ := h
    obtain ⟨u, hu, ht⟩ := ih hm
    exact ⟨u, hu, ht⟩
  | wordEdge | atStart | atEnd => exact ⟨[], h.2 ▸ ⟨rfl, rfl, rfl⟩, rfl⟩

/-! ## Whatever is taken is read -/

/-- The pattern has neither edges nor anchors. -/
def isFree : Pattern → Bool
  | nothing | one _ | run .. => true
  | seq a b | either a b => a.isFree && b.isFree
  | many body | keep _ body => body.isFree
  | wordEdge | atStart | atEnd => false

theorem turns_of_takes {turn : Pattern} {vs : List Text}
    (hturn : ∀ u ∈ vs, ∀ p v, p.rest = u ++ v → ∃ q, turn.Leads p q ∧ Reads p u q)
    {p : Place} {v : Text} (hp : p.rest = vs.flatten ++ v) :
    ∃ q, Turns turn.Leads vs.length p q ∧ Reads p vs.flatten q := by
  induction vs generalizing p with
  | nil => exact ⟨p, rfl, rfl, rfl, rfl⟩
  | cons u vs ih =>
    rw [List.flatten_cons, List.append_assoc] at hp
    obtain ⟨m, hm, hu⟩ := hturn u List.mem_cons_self p _ hp
    have hrest : m.rest = vs.flatten ++ v := List.append_cancel_left (hu.1.symm.trans hp)
    obtain ⟨q, hq, hvs⟩ := ih (fun u hu => hturn u (List.mem_cons_of_mem _ hu)) hrest
    exact ⟨q, ⟨m, hm, hq⟩, hu.trans hvs⟩

theorem length_le_length_flatten {vs : List Text} (h : ∀ v ∈ vs, v ≠ []) :
    vs.length ≤ vs.flatten.length := by
  induction vs with
  | nil => exact Nat.le_refl 0
  | cons v vs ih =>
    have hv := List.length_pos_iff.2 (h v List.mem_cons_self)
    have hvs := ih fun w hw => h w (List.mem_cons_of_mem v hw)
    rw [List.length_cons, List.flatten_cons, List.length_append]
    omega

theorem Takes.leads {P : Pattern} (hP : P.isFree = true) {u v : Text} (h : P.Takes u) {p : Place}
    (hp : p.rest = u ++ v) : ∃ q, P.Leads p q ∧ Reads p u q := by
  induction P generalizing u v p with
  | nothing =>
    obtain rfl : u = [] := h
    exact ⟨p, rfl, rfl, rfl, rfl⟩
  | one accepts =>
    obtain ⟨c, hc, rfl⟩ := h
    exact ⟨_, ⟨c, v, hp, hc, rfl⟩, reads_after hp⟩
  | run accepts greed => exact ⟨_, ⟨u, v, hp, h, rfl⟩, reads_after hp⟩
  | seq a b iha ihb =>
    rw [isFree, Bool.and_eq_true] at hP
    obtain ⟨u, w, ha, hb, rfl⟩ := h
    rw [List.append_assoc] at hp
    obtain ⟨m, hm, hu⟩ := iha hP.1 ha hp
    obtain ⟨q, hq, hw⟩ := ihb hP.2 hb (List.append_cancel_left (hu.1.symm.trans hp))
    exact ⟨q, ⟨m, hm, hq⟩, hu.trans hw⟩
  | either a b iha ihb =>
    rw [isFree, Bool.and_eq_true] at hP
    rcases h with h | h
    · obtain ⟨q, hq, hu⟩ := iha hP.1 h hp
      exact ⟨q, .inl hq, hu⟩
    · obtain ⟨q, hq, hu⟩ := ihb hP.2 h hp
      exact ⟨q, .inr hq, hu⟩
  | many turn ih =>
    -- turns that take nothing are left out, so no more are made than there are characters
    obtain ⟨vs, hall, rfl⟩ := h
    obtain ⟨ws, hflat, hws⟩ : ∃ ws : List Text, ws.flatten = vs.flatten ∧
        ∀ w ∈ ws, w ≠ [] ∧ w ∈ vs := by
      refine ⟨vs.filter (· ≠ []), List.flatten_filter_ne_nil, ?_⟩
      intro w hw
      obtain ⟨hmem, hne⟩ := List.mem_filter.1 hw
      exact ⟨of_decide_eq_true hne, hmem⟩
    rw [← hflat] at hp ⊢
    obtain ⟨q, hq, hu⟩ := turns_of_takes (fun u hu p v => ih hP (hall u (hws u hu).2)) hp
    have hlen := length_le_length_flatten fun w hw => (hws w hw).1
    refine ⟨q, ⟨ws.length, ?_, hq⟩, hu⟩
    rw [hp, List.length_append]
    omega
  | keep name body ih =>
    obtain ⟨q, hq, hu⟩ := ih hP h hp
    exact ⟨_, ⟨q, hq, rfl⟩, hu⟩
  | wordEdge | atStart | atEnd => exact absurd hP (by simp [isFree])

theorem leads_append_assoc {a b c : Pattern} {p q : Place} :
    ((a ++ b) ++ c).Leads p q ↔ (a ++ (b ++ c)).Leads p q := by
  constructor
  · rintro ⟨m', ⟨m, ha, hb⟩, hc⟩
    exact ⟨m, ha, m', hb, hc⟩
  · rintro ⟨m, ha, m', hb, hc⟩
    exact ⟨m', ⟨m, ha, hb⟩, hc⟩

theorem leads_atStart_append {b : Pattern} {t : Text} {q : Place} :
    (atStart ++ b).Leads (Place.start t) q ↔ b.Leads (Place.start t) q := by
  constructor
  · rintro ⟨_, ⟨-, rfl⟩, hb⟩
    exact hb
  · intro hb
    exact ⟨_, ⟨rfl, rfl⟩, hb⟩

/-- A text that is taken ends where it is read to. -/
theorem exists_leads_atEnd {a : Pattern} (ha : a.isFree = true) {t : Text} (h : a.Takes t) :
    ∃ q, (a ++ atEnd).Leads (Place.start t) q := by
  obtain ⟨q, hq, hread⟩ := h.leads ha (p := Place.start t) (v := []) (List.append_nil t).symm
  have hrest : q.rest = [] :=
    List.append_cancel_left (hread.1.symm.trans (List.append_nil t).symm)
  exact ⟨q, q, hq, by rw [onEnd, hrest], rfl⟩

/-! ## Texts without regard to case -/

theorem length_of_takes_anyCase {t u : Text} (h : (anyCase t).Takes u) : u.length = t.length := by
  induction t generalizing u with
  | nil =>
    obtain rfl : u = [] := h
    rfl
  | cons c t ih =>
    obtain ⟨v, w, ⟨d, -, rfl⟩, hw, rfl⟩ := h
    rw [List.singleton_append, List.length_cons, List.length_cons, ih hw]

theorem takes_anyCase (t : Text) : (anyCase t).Takes t := by
  have hself : ∀ c, Text.eqFold c c = true := by
    intro c
    rw [Text.eqFold]
    split <;> simp
  induction t with
  | nil => rfl
  | cons c t ih => exact ⟨[c], t, ⟨c, hself c, rfl⟩, ih, rfl⟩

theorem isFree_anyCase (t : Text) : (anyCase t).isFree = true := by
  induction t with
  | nil => rfl
  | cons c t ih => exact ih

/-! ## What is kept -/

/-- The pattern keeps nothing. -/
def isPlain : Pattern → Bool
  | nothing | one _ | run .. | wordEdge | atStart | atEnd => true
  | seq a b | either a b => a.isPlain && b.isPlain
  | many body => body.isPlain
  | keep .. => false

theorem Leads.kept {P : Pattern} (hP : P.isPlain = true) {p q : Place} (h : P.Leads p q) :
    q.kept = p.kept := by
  induction P generalizing p q with
  | nothing => exact h ▸ rfl
  | one accepts =>
    obtain ⟨_, _, _, _, rfl⟩ := h
    rfl
  | run accepts greed =>
    obtain ⟨_, _, _, _, rfl⟩ := h
    rfl
  | seq a b iha ihb =>
    rw [isPlain, Bool.and_eq_true] at hP
    obtain ⟨m, ha, hb⟩ := h
    exact (ihb hP.2 hb).trans (iha hP.1 ha)
  | either a b iha ihb =>
    rw [isPlain, Bool.and_eq_true] at hP
    rcases h with h | h
    · exact iha hP.1 h
    · exact ihb hP.2 h
  | many turn ih =>
    obtain ⟨n, hn, hturns⟩ := h
    clear hn
    induction n generalizing p with
    | zero => exact hturns ▸ rfl
    | succ n ihn =>
      obtain ⟨m, hm, hrest⟩ := hturns
      exact (ihn hrest).trans (ih hP hm)
  | keep => exact absurd hP (by simp [isPlain])
  | wordEdge | atStart | atEnd => exact h.2 ▸ rfl

/-- A pattern that is kept reads what it keeps. -/
theorem leads_keep {name : String} {body : Pattern} (hbody : body.isPlain = true) {p q : Place}
    (h : (keep name body).Leads p q) :
    ∃ u, Reads p u q ∧ body.Takes u ∧ q.kept = (name, u) :: p.kept := by
  obtain ⟨m, hm, rfl⟩ := h
  obtain ⟨u, hu, htake⟩ := hm.takes
  refine ⟨u, hu, htake, ?_⟩
  rw [hm.kept hbody]
  simp only [hu.1, hu.2.1, Nat.add_sub_cancel_left, List.take_left]

end RazorViews.Pattern
