import RazorViews.Text.Pattern

/-!
# What a pattern reads

`Leads` says which places a pattern can lead to from a place, in whatever order the matcher tries
them: a sequence composes, an alternative joins, a repetition iterates.  The matcher with its
continuation is sound and complete for it:

* `match?_sound`: what the matcher answers, it answers at a place that the pattern leads to;
* `match?_complete`: where the pattern leads to a place that the continuation accepts, the matcher
  answers.

So a match exists exactly where the pattern leads somewhere, and whatever holds of all places that
it leads to holds of the one that the order of preference picks.

A place has the text on both sides of it, and what has been kept on the way.  Everything that is
read is a stretch of the text (`Leads.reads`), so a relation between places comes down to one
between texts wherever nothing is looked at but what is read; see `Takes`.

Completeness has one difficulty, repetitions, which end when a turn reads nothing.  A turn that
reads nothing leads nowhere new, so it can be left out (`turns_complete`).
-/

namespace RazorViews.Pattern

/-! ## Places -/

/-- The place behind the stretch `u`, in front of `v`. -/
def Place.after (p : Place) (u v : Text) : Place :=
  ⟨p.offset + u.length, u.getLast?.or p.previous, v, p.kept⟩

@[simp] theorem Place.rest_after (p : Place) (u v : Text) : (p.after u v).rest = v := rfl

@[simp] theorem Place.kept_after (p : Place) (u v : Text) : (p.after u v).kept = p.kept := rfl

@[simp] theorem Place.offset_after (p : Place) (u v : Text) :
    (p.after u v).offset = p.offset + u.length := rfl

@[simp] theorem Place.previous_after (p : Place) (u v : Text) :
    (p.after u v).previous = u.getLast?.or p.previous := rfl

theorem Place.after_nil {p : Place} {v : Text} (h : p.rest = v) : p.after [] v = p := by
  subst h
  simp [Place.after]

theorem Place.after_after (p : Place) (u v w x : Text) :
    (p.after u x).after v w = p.after (u ++ v) w := by
  simp only [Place.after, List.length_append, List.getLast?_append, Option.or_assoc, Nat.add_assoc]

theorem Place.step_eq_after (p : Place) (c : Char) (rest : Text) :
    p.step c rest = p.after [c] rest := rfl

/-- From `p` to `q` a stretch `u` is read; only what is kept may differ besides. -/
def Reads (p : Place) (u : Text) (q : Place) : Prop :=
  p.rest = u ++ q.rest ∧ q.offset = p.offset + u.length ∧ q.previous = u.getLast?.or p.previous

theorem reads_after {p : Place} {u v : Text} (h : p.rest = u ++ v) : Reads p u (p.after u v) :=
  ⟨h, rfl, rfl⟩

theorem Reads.trans {p q r : Place} {u v : Text} (h : Reads p u q) (h' : Reads q v r) :
    Reads p (u ++ v) r := by
  refine ⟨?_, ?_, ?_⟩
  · rw [h.1, h'.1, List.append_assoc]
  · rw [h'.2.1, h.2.1, List.length_append, Nat.add_assoc]
  · rw [h'.2.2, h.2.2, List.getLast?_append, Option.or_assoc]

/-! ## Where a pattern leads -/

/-- `n` steps of a relation between places. -/
def Turns (R : Place → Place → Prop) : Nat → Place → Place → Prop
  | 0, p, q => q = p
  | n + 1, p, q => ∃ m, R p m ∧ Turns R n m q

/-- The pattern can be read from `p` to `q`. -/
def Leads : Pattern → Place → Place → Prop
  | nothing, p, q => q = p
  | one accepts, p, q => ∃ c rest, p.rest = c :: rest ∧ accepts c = true ∧ q = p.after [c] rest
  | run accepts _, p, q =>
    ∃ u v, p.rest = u ++ v ∧ (∀ c ∈ u, accepts c = true) ∧ q = p.after u v
  | seq a b, p, q => ∃ m, a.Leads p m ∧ b.Leads m q
  | either a b, p, q => a.Leads p q ∨ b.Leads p q
  | many turn, p, q => ∃ n ≤ p.rest.length, Turns turn.Leads n p q
  | keep name body, p, q =>
    ∃ m, body.Leads p m ∧
      q = { m with kept := (name, p.rest.take (m.offset - p.offset)) :: m.kept }
  | wordEdge, p, q => onWordEdge p = true ∧ q = p
  | atStart, p, q => p.offset = 0 ∧ q = p
  | atEnd, p, q => onEnd p = true ∧ q = p

theorem Turns.reads {R : Place → Place → Prop} (hR : ∀ p q, R p q → ∃ u, Reads p u q) {n : Nat}
    {p q : Place} (h : Turns R n p q) : ∃ u, Reads p u q := by
  induction n generalizing p with
  | zero => exact ⟨[], h ▸ ⟨rfl, rfl, rfl⟩⟩
  | succ n ih =>
    obtain ⟨m, hm, hrest⟩ := h
    obtain ⟨u, hu⟩ := hR p m hm
    obtain ⟨v, hv⟩ := ih hrest
    exact ⟨u ++ v, hu.trans hv⟩

theorem Leads.reads {P : Pattern} {p q : Place} (h : P.Leads p q) : ∃ u, Reads p u q := by
  induction P generalizing p q with
  | nothing => exact ⟨[], h ▸ ⟨rfl, rfl, rfl⟩⟩
  | one accepts =>
    obtain ⟨c, rest, hrest, _, rfl⟩ := h
    exact ⟨[c], reads_after hrest⟩
  | run accepts greed =>
    obtain ⟨u, v, huv, _, rfl⟩ := h
    exact ⟨u, reads_after huv⟩
  | seq a b iha ihb =>
    obtain ⟨m, ha, hb⟩ := h
    obtain ⟨u, hu⟩ := iha ha
    obtain ⟨v, hv⟩ := ihb hb
    exact ⟨u ++ v, hu.trans hv⟩
  | either a b iha ihb =>
    rcases h with h | h
    · exact iha h
    · exact ihb h
  | many turn ih =>
    obtain ⟨n, _, hn⟩ := h
    exact hn.reads fun _ _ => ih
  | keep name body ih =>
    obtain ⟨m, hm, rfl⟩ := h
    obtain ⟨u, hu⟩ := ih hm
    exact ⟨u, hu⟩
  | wordEdge => exact ⟨[], h.2 ▸ ⟨rfl, rfl, rfl⟩⟩
  | atStart => exact ⟨[], h.2 ▸ ⟨rfl, rfl, rfl⟩⟩
  | atEnd => exact ⟨[], h.2 ▸ ⟨rfl, rfl, rfl⟩⟩

/-! ## The matcher -/

/-- The stops of a run are the places behind its accepted beginnings. -/
theorem mem_stops {accepts : Char → Bool} {p q : Place} :
    q ∈ stops accepts p ↔
      ∃ u v, p.rest = u ++ v ∧ (∀ c ∈ u, accepts c = true) ∧ q = p.after u v := by
  suffices hgo : ∀ (t : Text) (p : Place), p.rest = t → (q ∈ stops.go accepts p t ↔
      ∃ u v, t = u ++ v ∧ (∀ c ∈ u, accepts c = true) ∧ q = p.after u v) from hgo p.rest p rfl
  intro t
  induction t with
  | nil =>
    intro p hp
    simp only [stops.go, List.mem_singleton]
    constructor
    · rintro rfl
      exact ⟨[], [], rfl, by simp, (Place.after_nil hp).symm⟩
    · rintro ⟨u, v, huv, _, rfl⟩
      obtain ⟨rfl, rfl⟩ := List.append_eq_nil_iff.1 huv.symm
      exact Place.after_nil hp
  | cons c rest ih =>
    intro p hp
    have hmore : (∃ u v, c :: rest = u ++ v ∧ (∀ d ∈ u, accepts d = true) ∧ q = p.after u v) ↔
        q = p ∨ accepts c = true ∧
          ∃ u v, rest = u ++ v ∧ (∀ d ∈ u, accepts d = true) ∧ q = (p.step c rest).after u v := by
      constructor
      · rintro ⟨u, v, huv, hall, rfl⟩
        cases u with
        | nil =>
          left
          rw [List.nil_append] at huv
          exact Place.after_nil (hp.trans huv)
        | cons d u =>
          obtain ⟨rfl, rfl⟩ := List.cons.inj huv
          refine .inr ⟨hall c (by simp), u, v, rfl, fun d hd => hall d (by simp [hd]), ?_⟩
          rw [Place.step_eq_after, Place.after_after]
          rfl
      · rintro (rfl | ⟨hc, u, v, rfl, hall, rfl⟩)
        · exact ⟨[], c :: rest, rfl, by simp, (Place.after_nil hp).symm⟩
        · refine ⟨c :: u, v, rfl, ?_, ?_⟩
          · intro d hd
            rcases List.mem_cons.1 hd with rfl | hd
            · exact hc
            · exact hall d hd
          · rw [Place.step_eq_after, Place.after_after]
            rfl
    rw [hmore, stops.go]
    by_cases hc : accepts c = true
    · rw [if_pos hc, List.mem_cons, ih (p.step c rest) rfl]
      simp [hc]
    · rw [if_neg hc, List.mem_singleton]
      simp [hc]

variable {ρ : Type}

/-- What turns of a sound matcher answer, they answer behind some turns. -/
theorem turns_sound {R : Place → Place → Prop} {turn : (Place → Option ρ) → Place → Option ρ}
    (hturn : ∀ next p r, turn next p = some r → ∃ q, R p q ∧ next q = some r)
    {fuel : Nat} {next : Place → Option ρ} {p : Place} {r : ρ}
    (h : turns turn fuel next p = some r) :
    ∃ n ≤ fuel, ∃ q, Turns R n p q ∧ next q = some r := by
  induction fuel generalizing p with
  | zero => exact ⟨0, Nat.le_refl 0, p, rfl, h⟩
  | succ fuel ih =>
    rw [turns] at h
    cases hfirst : turn (turns turn fuel next) p with
    | some r' =>
      rw [hfirst] at h
      obtain rfl := Option.some.inj h
      obtain ⟨m, hm, hnext⟩ := hturn _ p r' hfirst
      obtain ⟨n, hn, q, hq, hr⟩ := ih hnext
      exact ⟨n + 1, Nat.succ_le_succ hn, q, ⟨m, hm, hq⟩, hr⟩
    | none =>
      rw [hfirst] at h
      exact ⟨0, Nat.zero_le _, p, rfl, h⟩

/-- Turns of a complete matcher answer where some turns lead to an accepted place. -/
theorem turns_complete {R : Place → Place → Prop}
    {turn : (Place → Option ρ) → Place → Option ρ}
    (hturn : ∀ next p q, R p q → (next q).isSome = true → (turn next p).isSome = true)
    {fuel n : Nat} (hn : n ≤ fuel) {next : Place → Option ρ} {p q : Place} (h : Turns R n p q)
    (hq : (next q).isSome = true) : (turns turn fuel next p).isSome = true := by
  induction fuel generalizing n p with
  | zero =>
    obtain rfl := Nat.le_zero.1 hn
    obtain rfl : q = p := h
    exact hq
  | succ fuel ih =>
    rw [turns]
    cases n with
    | zero =>
      obtain rfl : q = p := h
      split
      · rfl
      · exact hq
    | succ n =>
      obtain ⟨m, hm, hrest⟩ := h
      have hsome := hturn _ p m hm (ih (Nat.le_of_succ_le_succ hn) hrest)
      obtain ⟨r, hr⟩ := Option.isSome_iff_exists.1 hsome
      rw [hr]
      rfl

/-- What the matcher answers, it answers at a place that the pattern leads to. -/
theorem match?_sound {P : Pattern} {next : Place → Option ρ} {p : Place} {r : ρ}
    (h : P.match? next p = some r) : ∃ q, P.Leads p q ∧ next q = some r := by
  induction P generalizing next p r with
  | nothing => exact ⟨p, rfl, h⟩
  | one accepts =>
    rw [match?] at h
    split at h
    · exact absurd h (by simp)
    · rename_i c rest hrest
      split at h
      · rename_i hc
        exact ⟨_, ⟨c, rest, hrest, hc, rfl⟩, h⟩
      · exact absurd h (by simp)
  | run accepts greed =>
    have hmem : ∃ q ∈ stops accepts p, next q = some r := by
      cases greed with
      | most =>
        obtain ⟨q, hq, hr⟩ := List.exists_of_findSome?_eq_some h
        exact ⟨q, List.mem_reverse.1 hq, hr⟩
      | least => exact List.exists_of_findSome?_eq_some h
    obtain ⟨q, hq, hr⟩ := hmem
    exact ⟨q, mem_stops.1 hq, hr⟩
  | seq a b iha ihb =>
    obtain ⟨m, hm, hnext⟩ := iha h
    obtain ⟨q, hq, hr⟩ := ihb hnext
    exact ⟨q, ⟨m, hm, hq⟩, hr⟩
  | either a b iha ihb =>
    rw [match?] at h
    cases hfirst : a.match? next p with
    | some r' =>
      rw [hfirst] at h
      obtain ⟨q, hq, hr⟩ := iha hfirst
      exact ⟨q, .inl hq, hr.trans h⟩
    | none =>
      rw [hfirst] at h
      obtain ⟨q, hq, hr⟩ := ihb h
      exact ⟨q, .inr hq, hr⟩
  | many turn ih =>
    obtain ⟨n, hn, q, hq, hr⟩ := turns_sound (R := turn.Leads) (fun _ _ _ hm => ih hm) h
    exact ⟨q, ⟨n, hn, hq⟩, hr⟩
  | keep name body ih =>
    obtain ⟨m, hm, hr⟩ := ih h
    exact ⟨_, ⟨m, hm, rfl⟩, hr⟩
  | wordEdge =>
    rw [match?] at h
    split at h
    · rename_i hedge
      exact ⟨p, ⟨hedge, rfl⟩, h⟩
    · exact absurd h (by simp)
  | atStart =>
    rw [match?] at h
    split at h
    · rename_i hstart
      exact ⟨p, ⟨beq_iff_eq.1 hstart, rfl⟩, h⟩
    · exact absurd h (by simp)
  | atEnd =>
    rw [match?] at h
    split at h
    · rename_i hend
      exact ⟨p, ⟨hend, rfl⟩, h⟩
    · exact absurd h (by simp)

/-- Where the pattern leads to a place that the continuation accepts, the matcher answers. -/
theorem match?_complete {P : Pattern} {next : Place → Option ρ} {p q : Place} (h : P.Leads p q)
    (hq : (next q).isSome = true) : (P.match? next p).isSome = true := by
  induction P generalizing next p q with
  | nothing =>
    obtain rfl : q = p := h
    exact hq
  | one accepts =>
    obtain ⟨c, rest, hrest, hc, rfl⟩ := h
    rw [match?, hrest]
    simpa [hc, Place.step_eq_after] using hq
  | run accepts greed =>
    have hmem : q ∈ stops accepts p := mem_stops.2 h
    cases greed with
    | most => exact List.findSome?_isSome_iff.2 ⟨q, List.mem_reverse.2 hmem, hq⟩
    | least => exact List.findSome?_isSome_iff.2 ⟨q, hmem, hq⟩
  | seq a b iha ihb =>
    obtain ⟨m, ha, hb⟩ := h
    exact iha ha (ihb hb hq)
  | either a b iha ihb =>
    rw [match?]
    split
    · rfl
    · rename_i hnone
      rcases h with h | h
      · have := iha h hq
        rw [hnone] at this
        exact absurd this (by simp)
      · exact ihb h hq
  | many turn ih =>
    obtain ⟨n, hn, hturns⟩ := h
    exact turns_complete (R := turn.Leads) (fun _ _ _ hm hq => ih hm hq) hn hturns hq
  | keep name body ih =>
    obtain ⟨m, hm, rfl⟩ := h
    exact ih hm hq
  | wordEdge =>
    obtain ⟨hedge, rfl⟩ := h
    rwa [match?, if_pos hedge]
  | atStart =>
    obtain ⟨hstart, rfl⟩ := h
    rwa [match?, if_pos (beq_iff_eq.2 hstart)]
  | atEnd =>
    obtain ⟨hend, rfl⟩ := h
    rwa [match?, if_pos hend]

end RazorViews.Pattern
