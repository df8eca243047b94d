import RazorViews.Proofs.Pattern.Leads

/-!
# Where a pattern is found

A match at a place is a stretch that the pattern reads from there, and there is one as soon as the
pattern leads anywhere (`foundAt?_eq_none_iff`).  The match found in a text is the one at the
leftmost place that has any (`find?_eq_some_iff`), so nothing is found just if the pattern leads
nowhere from any place of the text (`find?_eq_none_iff`).

With these it can be said what is found without speaking of the matcher: by where the pattern leads,
and if it leads to several places from the leftmost one, by which it prefers (`Prefers.find?`).
-/

namespace RazorViews.Pattern

/-- A match at a place begins there and is what the pattern reads. -/
theorem foundAt?_eq_some {P : Pattern} {p : Place} {f : Found} (h : P.foundAt? p = some f) :
    P.Leads p f.finish ∧ f.start = p.offset ∧ Reads p f.text f.finish := by
  obtain ⟨q, hq, rfl⟩ := Option.map_eq_some_iff.1 h
  obtain ⟨q', hlead, hnext⟩ := match?_sound hq
  obtain rfl := Option.some.inj hnext
  obtain ⟨u, hu⟩ := hlead.reads
  have htext : p.rest.take (q'.offset - p.offset) = u := by
    rw [hu.1, hu.2.1, Nat.add_sub_cancel_left, List.take_left]
  exact ⟨hlead, rfl, htext ▸ hu⟩

/-- There is no match at a place from which the pattern leads nowhere, and at no other. -/
theorem foundAt?_eq_none_iff {P : Pattern} {p : Place} :
    P.foundAt? p = none ↔ ∀ q, ¬ P.Leads p q := by
  constructor
  · intro h q hq
    have hnone := Option.map_eq_none_iff.1 h
    have hsome : (P.match? some p).isSome = true := match?_complete hq rfl
    rw [hnone] at hsome
    exact absurd hsome (by simp)
  · intro h
    cases hf : P.foundAt? p with
    | none => rfl
    | some f => exact absurd (foundAt?_eq_some hf).1 (h f.finish)

theorem exists_foundAt? {P : Pattern} {p q : Place} (h : P.Leads p q) :
    ∃ f, P.foundAt? p = some f := by
  cases hf : P.foundAt? p with
  | none => exact absurd h (foundAt?_eq_none_iff.1 hf q)
  | some f => exact ⟨f, rfl⟩

/-- The match that is found is one at a place with none at a place before. -/
theorem findFrom?_eq_some_iff {P : Pattern} {previous : Option Char} {offset : Nat} {t : Text}
    {f : Found} :
    P.findFrom? previous offset t = some f ↔
      ∃ a b, t = a ++ b ∧ P.foundAt? (Place.after ⟨offset, previous, t, []⟩ a b) = some f ∧
        ∀ a' b', t = a' ++ b' → a'.length < a.length →
          P.foundAt? (Place.after ⟨offset, previous, t, []⟩ a' b') = none := by
  induction t generalizing previous offset with
  | nil =>
    rw [findFrom?]
    constructor
    · intro h
      exact ⟨[], [], rfl, h, fun _ _ _ hlt => absurd hlt (Nat.not_lt_zero _)⟩
    · rintro ⟨a, b, hab, h, _⟩
      obtain ⟨rfl, rfl⟩ := List.append_eq_nil_iff.1 hab.symm
      exact h
  | cons c rest ih =>
    have hhere : Place.after ⟨offset, previous, c :: rest, []⟩ [] (c :: rest) =
        ⟨offset, previous, c :: rest, []⟩ := Place.after_nil rfl
    have hthere : ∀ a b, Place.after ⟨offset, previous, c :: rest, []⟩ (c :: a) b =
        Place.after ⟨offset + 1, some c, rest, []⟩ a b :=
      fun a b => (Place.after_after ⟨offset, previous, c :: rest, []⟩ [c] a b rest).symm
    rw [findFrom?]
    cases hfirst : P.foundAt? ⟨offset, previous, c :: rest, []⟩ with
    | some g =>
      constructor
      · intro h
        obtain rfl := Option.some.inj h
        exact ⟨[], c :: rest, rfl, hhere ▸ hfirst, fun _ _ _ hlt => absurd hlt (Nat.not_lt_zero _)⟩
      · rintro ⟨a, b, hab, h, hleft⟩
        cases a with
        | nil =>
          obtain rfl : c :: rest = b := hab
          rw [hhere, hfirst] at h
          exact h
        | cons d a =>
          have hnone := hleft [] (c :: rest) rfl (Nat.succ_pos _)
          rw [hhere, hfirst] at hnone
          exact absurd hnone (by simp)
    | none =>
      rw [ih]
      constructor
      · rintro ⟨a, b, rfl, h, hleft⟩
        refine ⟨c :: a, b, rfl, (hthere a b).symm ▸ h, ?_⟩
        intro a' b' hab hlt
        cases a' with
        | nil =>
          obtain rfl : c :: (a ++ b) = b' := hab
          rw [hhere, hfirst]
        | cons d a' =>
          obtain ⟨rfl, htail⟩ := List.cons.inj hab
          rw [hthere]
          exact hleft a' b' htail (Nat.lt_of_succ_lt_succ hlt)
      · rintro ⟨a, b, hab, h, hleft⟩
        cases a with
        | nil =>
          obtain rfl : c :: rest = b := hab
          rw [hhere, hfirst] at h
          exact absurd h (by simp)
        | cons d a =>
          obtain ⟨rfl, htail⟩ := List.cons.inj hab
          refine ⟨a, b, htail, (hthere a b) ▸ h, ?_⟩
          intro a' b' hab' hlt
          rw [← hthere]
          exact hleft (c :: a') b' (by rw [hab']; rfl) (Nat.succ_lt_succ hlt)

theorem find?_eq_some_iff {P : Pattern} {t : Text} {f : Found} :
    P.find? t = some f ↔
      ∃ a b, t = a ++ b ∧ P.foundAt? ((Place.start t).after a b) = some f ∧
        ∀ a' b', t = a' ++ b' → a'.length < a.length →
          P.foundAt? ((Place.start t).after a' b') = none :=
  findFrom?_eq_some_iff

/-- Where a pattern leads anywhere from a place of the text, it is found there or before. -/
theorem exists_find? {P : Pattern} {a b : Text} {q : Place}
    (h : P.Leads ((Place.start (a ++ b)).after a b) q) :
    ∃ f, P.find? (a ++ b) = some f ∧ f.start ≤ a.length := by
  -- the induction goes to the left: either there is no match before, or one at a shorter distance
  generalize ht : a ++ b = t at h ⊢
  induction hn : a.length using Nat.strongRecOn generalizing a b q with
  | ind n ih =>
    subst hn
    by_cases hbefore : ∃ a' b', t = a' ++ b' ∧ a'.length < a.length ∧
        P.foundAt? ((Place.start t).after a' b') ≠ none
    · obtain ⟨a', b', hab, hlt, hfound⟩ := hbefore
      obtain ⟨g, hg⟩ := Option.ne_none_iff_exists'.1 hfound
      obtain ⟨f, hf, hle⟩ := ih a'.length hlt hab.symm (foundAt?_eq_some hg).1 rfl
      exact ⟨f, hf, Nat.le_trans hle (Nat.le_of_lt hlt)⟩
    · obtain ⟨f, hf⟩ := exists_foundAt? h
      refine ⟨f, find?_eq_some_iff.2 ⟨a, b, ht.symm, hf, ?_⟩, ?_⟩
      · intro a' b' hab hlt
        cases hfound : P.foundAt? ((Place.start t).after a' b') with
        | none => rfl
        | some g => exact absurd ⟨a', b', hab, hlt, by simp [hfound]⟩ hbefore
      · rw [(foundAt?_eq_some hf).2.1]
        simp [Place.start]

/-- Nothing is found just if the pattern leads nowhere from any place of the text. -/
theorem find?_eq_none_iff {P : Pattern} {t : Text} :
    P.find? t = none ↔ ∀ a b, t = a ++ b → ∀ q, ¬ P.Leads ((Place.start t).after a b) q := by
  constructor
  · rintro h a b rfl q hq
    obtain ⟨f, hf, -⟩ := exists_find? hq
    exact absurd (h.symm.trans hf) (by simp)
  · intro h
    cases hf : P.find? t with
    | none => rfl
    | some f =>
      obtain ⟨a, b, hab, hfound, -⟩ := find?_eq_some_iff.1 hf
      exact absurd (foundAt?_eq_some hfound).1 (h a b hab f.finish)

end RazorViews.Pattern
