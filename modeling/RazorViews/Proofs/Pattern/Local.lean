import RazorViews.Proofs.Pattern.Find

/-!
# Patterns that look no further than they read

A pattern without the anchors of a text, whose repeated parts take at least one character each,
reads the same in a longer text: neither what comes before, apart from the side of a word edge, nor
what comes behind a character not yet read makes a difference, nor what comes behind the end of the
text, unless it begins with a word character.

* `Leads.extend`: what such a pattern reads, it also reads where the text goes on.
* `Leads.restrict`: what it reads of a longer text within the shorter one, it also reads there.

A place in a text and the same place in a longer one stand `Beside` one another.  That repeated
parts take a character each (`least`) is needed for the matcher, which counts turns by the length of
the text that is left, and so counts them otherwise in a longer text.
-/

namespace RazorViews.Pattern

/-- The fewest characters that a pattern reads. -/
def least : Pattern → Nat
  | one _ => 1
  | seq a b => a.least + b.least
  | either a b => min a.least b.least
  | keep _ body => body.least
  | nothing | run .. | many _ | wordEdge | atStart | atEnd => 0

/-- The pattern has no anchors, and what it repeats takes at least one character. -/
def isLocal : Pattern → Bool
  | nothing | one _ | run .. | wordEdge => true
  | seq a b | either a b => a.isLocal && b.isLocal
  | many turn => turn.isLocal && 0 < turn.least
  | keep _ body => body.isLocal
  | atStart | atEnd => false

theorem Leads.least_le {P : Pattern} {p q : Place} (h : P.Leads p q) :
    P.least + q.rest.length ≤ p.rest.length := by
  induction P generalizing p q with
  | one accepts =>
    obtain ⟨c, rest, hrest, _, rfl⟩ := h
    rw [hrest, Place.rest_after, List.length_cons, least]
    omega
  | seq a b iha ihb =>
    obtain ⟨m, ha, hb⟩ := h
    have := iha ha
    have := ihb hb
    rw [least]
    omega
  | either a b iha ihb =>
    rw [least]
    rcases h with h | h
    · have := iha h
      omega
    · have := ihb h
      omega
  | keep name body ih =>
    obtain ⟨m, hm, rfl⟩ := h
    exact ih (p := p) (q := m) hm
  | nothing | run | many | wordEdge | atStart | atEnd =>
    obtain ⟨u, hu⟩ := h.reads
    rw [hu.1, List.length_append, least]
    omega

/-- Turns that take a character each are no more than the characters they read. -/
theorem Turns.length_le {turn : Pattern} (hturn : 0 < turn.least) {n : Nat} {p q : Place}
    (h : Turns turn.Leads n p q) : n + q.rest.length ≤ p.rest.length := by
  induction n generalizing p with
  | zero =>
    obtain rfl : q = p := h
    omega
  | succ n ih =>
    obtain ⟨m, hm, hrest⟩ := h
    have := hm.least_le
    have := ih hrest
    omega

/-- A place in a text beside the same place in a longer text, in which `shift` characters more come
before and `more` comes behind. -/
structure Beside (shift : Nat) (more : Text) (p p' : Place) : Prop where
  offset : p'.offset = p.offset + shift
  previous : isWordSide p'.previous = isWordSide p.previous
  rest : p'.rest = p.rest ++ more
  kept : p'.kept = p.kept

variable {shift : Nat} {more : Text} {p p' q q' : Place}

/-- Reading the same on both sides leads to places beside one another. -/
theorem Beside.after (h : Beside shift more p p') (u v : Text) :
    Beside shift more (p.after u v) (p'.after u (v ++ more)) where
  offset := by
    rw [Place.offset_after, Place.offset_after, h.offset]
    omega
  previous := by
    rw [Place.previous_after, Place.previous_after]
    cases u.getLast? with
    | none => exact h.previous
    | some c => rfl
  rest := rfl
  kept := h.kept

/-- An edge is an edge on both sides, unless it is the end of the text and a word character stands
behind. -/
theorem Beside.onWordEdge (h : Beside shift more p p')
    (hrest : p.rest ≠ [] ∨ isWordSide more.head? = false) :
    Pattern.onWordEdge p' = Pattern.onWordEdge p := by
  rw [Pattern.onWordEdge, Pattern.onWordEdge, h.previous, h.rest]
  cases hp : p.rest with
  | nil =>
    rw [List.nil_append, hrest.resolve_left fun hne => hne hp]
    rfl
  | cons c rest => rfl

/-- What is kept on the way is the same on both sides. -/
theorem Beside.keep (hp : Beside shift more p p') {u : Text} (hread : Reads p u q)
    (hq : Beside shift more q q') (name : String) :
    Beside shift more { q with kept := (name, p.rest.take (q.offset - p.offset)) :: q.kept }
      { q' with kept := (name, p'.rest.take (q'.offset - p'.offset)) :: q'.kept } := by
  have hlen : q'.offset - p'.offset = q.offset - p.offset := by
    rw [hq.offset, hp.offset]
    omega
  have htake : q.offset - p.offset ≤ p.rest.length := by
    rw [hread.2.1, hread.1, List.length_append]
    omega
  refine ⟨hq.offset, hq.previous, hq.rest, ?_⟩
  simp only [hlen, hp.rest, hq.kept, List.take_append_of_le_length htake]

/-- What comes before a stretch that is read is longer than what comes behind it. -/
theorem Reads.rest_ne_nil {u : Text} (h : Reads p u q) (hq : q.rest ≠ []) : p.rest ≠ [] := by
  rw [h.1]
  exact List.append_ne_nil_of_right_ne_nil u hq

/-- What a local pattern reads, it also reads where the text goes on. -/
theorem Leads.extend {P : Pattern} (hP : P.isLocal = true) (hp : Beside shift more p p')
    (h : P.Leads p q) (hq : q.rest ≠ [] ∨ isWordSide more.head? = false) :
    ∃ q', P.Leads p' q' ∧ Beside shift more q q' := by
  induction P generalizing p p' q with
  | nothing =>
    obtain rfl : q = p := h
    exact ⟨p', rfl, hp⟩
  | one accepts =>
    obtain ⟨c, rest, hrest, hc, rfl⟩ := h
    exact ⟨_, ⟨c, rest ++ more, by rw [hp.rest, hrest]; rfl, hc, rfl⟩, hp.after [c] rest⟩
  | run accepts greed =>
    obtain ⟨u, v, huv, hall, rfl⟩ := h
    exact ⟨_, ⟨u, v ++ more, by rw [hp.rest, huv, List.append_assoc], hall, rfl⟩, hp.after u v⟩
  | seq a b iha ihb =>
    rw [isLocal, Bool.and_eq_true] at hP
    obtain ⟨m, ha, hb⟩ := h
    obtain ⟨u, hu⟩ := hb.reads
    obtain ⟨m', ha', hm⟩ := iha hP.1 hp ha (hq.imp hu.rest_ne_nil id)
    obtain ⟨q', hb', hq'⟩ := ihb hP.2 hm hb hq
    exact ⟨q', ⟨m', ha', hb'⟩, hq'⟩
  | either a b iha ihb =>
    rw [isLocal, Bool.and_eq_true] at hP
    rcases h with h | h
    · obtain ⟨q', h', hq'⟩ := iha hP.1 hp h hq
      exact ⟨q', .inl h', hq'⟩
    · obtain ⟨q', h', hq'⟩ := ihb hP.2 hp h hq
      exact ⟨q', .inr h', hq'⟩
  | many turn ih =>
    rw [isLocal, Bool.and_eq_true] at hP
    obtain ⟨n, hn, hturns⟩ := h
    have hlen : n ≤ p'.rest.length := by
      rw [hp.rest, List.length_append]
      omega
    suffices hall : ∃ q', Turns turn.Leads n p' q' ∧ Beside shift more q q' by
      obtain ⟨q', hturns', hq'⟩ := hall
      exact ⟨q', ⟨n, hlen, hturns'⟩, hq'⟩
    clear hn hlen
    induction n generalizing p p' with
    | zero =>
      obtain rfl : q = p := hturns
      exact ⟨p', rfl, hp⟩
    | succ n ihn =>
      obtain ⟨m, hm, hrest⟩ := hturns
      obtain ⟨u, hu⟩ := hrest.reads fun _ _ => Leads.reads
      obtain ⟨m', hm', hbeside⟩ := ih hP.1 hp hm (hq.imp hu.rest_ne_nil id)
      obtain ⟨q', hrest', hq'⟩ := ihn hbeside hrest
      exact ⟨q', ⟨m', hm', hrest'⟩, hq'⟩
  | keep name body ih =>
    rw [isLocal] at hP
    obtain ⟨m, hm, rfl⟩ := h
    obtain ⟨m', hm', hbeside⟩ := ih hP hp hm hq
    obtain ⟨u, hu⟩ := hm.reads
    exact ⟨_, ⟨m', hm', rfl⟩, hp.keep hu hbeside name⟩
  | wordEdge =>
    obtain ⟨hedge, rfl⟩ := h
    exact ⟨p', ⟨(hp.onWordEdge hq).trans hedge, rfl⟩, hp⟩
  | atStart | atEnd => exact absurd hP (by simp [isLocal])

/-- What a local pattern reads of a longer text within the shorter one, it also reads there. -/
theorem Leads.restrict {P : Pattern} (hP : P.isLocal = true) (hp : Beside shift more p p')
    (h : P.Leads p' q') {r : Text} (hr : r ≠ [] ∨ isWordSide more.head? = false)
    (hq : q'.rest = r ++ more) :
    ∃ q, P.Leads p q ∧ Beside shift more q q' := by
  induction P generalizing p p' q' r with
  | nothing =>
    obtain rfl : q' = p' := h
    exact ⟨p, rfl, hp⟩
  | one accepts =>
    obtain ⟨c, rest, hrest, hc, rfl⟩ := h
    obtain rfl : rest = r ++ more := hq
    have hpr : p.rest = c :: r := List.append_cancel_right (hp.rest.symm.trans hrest)
    exact ⟨_, ⟨c, r, hpr, hc, rfl⟩, hp.after [c] r⟩
  | run accepts greed =>
    obtain ⟨u, v, huv, hall, rfl⟩ := h
    obtain rfl : v = r ++ more := hq
    have hpr : p.rest = u ++ r := by
      have heq : p.rest ++ more = (u ++ r) ++ more := by rw [← hp.rest, huv, List.append_assoc]
      exact List.append_cancel_right heq
    exact ⟨_, ⟨u, r, hpr, hall, rfl⟩, hp.after u r⟩
  | seq a b iha ihb =>
    rw [isLocal, Bool.and_eq_true] at hP
    obtain ⟨m', ha, hb⟩ := h
    obtain ⟨u, hu⟩ := hb.reads
    have hm' : m'.rest = (u ++ r) ++ more := by rw [hu.1, hq, List.append_assoc]
    obtain ⟨m, ha', hm⟩ :=
      iha hP.1 hp ha (hr.imp (List.append_ne_nil_of_right_ne_nil u) id) hm'
    obtain ⟨q, hb', hq'⟩ := ihb hP.2 hm hb hr hq
    exact ⟨q, ⟨m, ha', hb'⟩, hq'⟩
  | either a b iha ihb =>
    rw [isLocal, Bool.and_eq_true] at hP
    rcases h with h | h
    · obtain ⟨q, h', hq'⟩ := iha hP.1 hp h hr hq
      exact ⟨q, .inl h', hq'⟩
    · obtain ⟨q, h', hq'⟩ := ihb hP.2 hp h hr hq
      exact ⟨q, .inr h', hq'⟩
  | many turn ih =>
    rw [isLocal, Bool.and_eq_true, decide_eq_true_eq] at hP
    obtain ⟨n, hn, hturns⟩ := h
    suffices hall : ∃ q, Turns turn.Leads n p q ∧ Beside shift more q q' by
      obtain ⟨q, hturns', hq'⟩ := hall
      have := hturns'.length_le hP.2
      exact ⟨q, ⟨n, by omega, hturns'⟩, hq'⟩
    clear hn
    induction n generalizing p p' with
    | zero =>
      obtain rfl : q' = p' := hturns
      exact ⟨p, rfl, hp⟩
    | succ n ihn =>
      obtain ⟨m', hm, hrest⟩ := hturns
      obtain ⟨u, hu⟩ := hrest.reads fun _ _ => Leads.reads
      have hm' : m'.rest = (u ++ r) ++ more := by rw [hu.1, hq, List.append_assoc]
      obtain ⟨m, hlead, hbeside⟩ :=
        ih hP.1 hp hm (hr.imp (List.append_ne_nil_of_right_ne_nil u) id) hm'
      obtain ⟨q, hrest', hq'⟩ := ihn hbeside hrest
      exact ⟨q, ⟨m, hlead, hrest'⟩, hq'⟩
  | keep name body ih =>
    rw [isLocal] at hP
    obtain ⟨m', hm, rfl⟩ := h
    obtain ⟨m, hlead, hbeside⟩ := ih hP hp hm hr hq
    obtain ⟨u, hu⟩ := hlead.reads
    exact ⟨_, ⟨m, hlead, rfl⟩, hp.keep hu hbeside name⟩
  | wordEdge =>
    obtain ⟨hedge, rfl⟩ := h
    have hsame : p.rest = r := List.append_cancel_right (hp.rest.symm.trans hq)
    exact ⟨p, ⟨(hp.onWordEdge (hsame ▸ hr)).symm.trans hedge, rfl⟩, hp⟩
  | atStart | atEnd => exact absurd hP (by simp [isLocal])

end RazorViews.Pattern
