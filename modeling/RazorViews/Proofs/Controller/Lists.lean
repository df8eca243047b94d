import RazorViews.Proofs.Canonical.Types
import RazorViews.Proofs.Controller.Fragments

/-!
# Dividing parameter lists

A parameter list is read twice, once up to the parenthesis that closes it and once to be divided at
its commas.  Neither reader stops within a text whose brackets and quotes are closed where they were
opened, `Nested`: the first passes over it (`untilClosed_nested`), and to the second it is a text of
the kind that types are (`Nested.fragment`).

So entries of this kind, joined by commas and enclosed in parentheses, are found there again,
whatever stands behind the closing one: `splitList_listAt_join`.  An entry has no comma outside its
brackets, and no white space at its ends (`Entry`), which the reader would take off.

The two readers do not agree on everything.  The first one minds parentheses only, and the second
one brackets of all kinds, angle brackets included; a text with operators is one to the first and
not to the second, which is why expressions are dealt with by themselves
(`splitList_join_declared`).
-/

namespace RazorViews.Parameter

variable {commas : Bool} {s t : Text} {depth : Int}

/-! ## Nested text -/

/-- Texts whose brackets and quotes are closed where they were opened.  Within brackets there may be
commas anywhere; `commas` says whether there may be commas outside. -/
inductive Nested : Bool → Text → Prop where
  | nil {commas : Bool} : Nested commas []
  | plain {commas : Bool} {c : Char} {t : Text} (hplain : isPlain c = true)
      (hcomma : c = ',' → commas = true) (rest : Nested commas t) : Nested commas (c :: t)
  | enclosed {commas : Bool} {left right : Char} {s t : Text}
      (pair : (left, right) ∈ bracketPairs) (inside : Nested true s) (rest : Nested commas t) :
      Nested commas (left :: (s ++ right :: t))
  | quoted {commas : Bool} {s t : Text} (hs : ∀ c ∈ s, c ≠ '"' ∧ c ≠ '\\')
      (rest : Nested commas t) : Nested commas ('"' :: (s ++ '"' :: t))

theorem Nested.append (hs : Nested commas s) (ht : Nested commas t) : Nested commas (s ++ t) := by
  induction hs with
  | nil => exact ht
  | plain hplain hcomma _ ih => exact .plain hplain hcomma (ih ht)
  | enclosed pair inside _ _ ih =>
    rw [List.cons_append, List.append_assoc, List.cons_append]
    exact .enclosed pair inside (ih ht)
  | quoted hs _ ih =>
    rw [List.cons_append, List.append_assoc, List.cons_append]
    exact .quoted hs (ih ht)

/-- Where commas are allowed there need not be any. -/
theorem Nested.allow (h : Nested commas t) : Nested true t := by
  induction h with
  | nil => exact .nil
  | plain hplain _ _ ih => exact .plain hplain (fun _ => rfl) ih
  | enclosed pair inside _ _ ih => exact .enclosed pair inside ih
  | quoted hs _ ih => exact .quoted hs ih

/-- Text of characters of a kind that no bracket and no quotation mark is of, and no comma unless it
is allowed. -/
theorem nested_of_forall {p : Char → Bool}
    (hmarks : (['<', '>', '[', ']', '(', ')', '"', '\''].all fun d => p d == false) = true)
    (hcomma : p ',' = false ∨ commas = true) (h : ∀ c ∈ t, p c = true) : Nested commas t := by
  induction t with
  | nil => exact .nil
  | cons c t ih =>
    obtain ⟨hc, ht⟩ := List.forall_mem_cons.1 h
    refine .plain ?_ ?_ (ih ht)
    · rw [isPlain, Bool.not_eq_true', ← Bool.not_eq_true, List.contains_iff_mem]
      intro hmem
      exact absurd ((Canonical.forall_mem_of_all hmarks c hmem).symm.trans hc) (by simp)
    · rintro rfl
      exact hcomma.resolve_left (by simp [hc])

/-- Nested text is a text of the kind that types are. -/
theorem Nested.fragment (h : Nested commas t) : Fragment false commas t := by
  induction h with
  | nil => exact .nil
  | plain hplain hcomma _ ih => exact .plain hplain hcomma ih
  | enclosed pair _ _ ihInside ihRest => exact .enclosed pair (fun _ => rfl) ihInside ihRest
  | quoted hs _ ih => exact .quoted (by decide) (quoteBody_of_forall hs) ih

/-! ## The closing parenthesis -/

/-- In a quote, no further than its end, a character leaves the reader where it is. -/
theorem next_quoted {c : Char} (hquote : c ≠ '"') (hslash : c ≠ '\\') :
    (Quoting.mk (some '"') false).next c = ⟨some '"', false⟩ := by
  simp [Quoting.next, hquote, hslash]

theorem untilClosed_quoted (hs : ∀ c ∈ s, c ≠ '"' ∧ c ≠ '\\') (rest : Text) :
    untilClosed depth ⟨some '"', false⟩ (s ++ '"' :: rest) =
      s ++ '"' :: untilClosed depth .outside rest := by
  induction s with
  | nil => simp [untilClosed, Quoting.next]
  | cons c s ih =>
    obtain ⟨⟨hquote, hslash⟩, hs⟩ := List.forall_mem_cons.1 hs
    have hinside : untilClosed depth ⟨some '"', false⟩ (c :: (s ++ '"' :: rest)) =
        c :: untilClosed depth ((Quoting.mk (some '"') false).next c) (s ++ '"' :: rest) := rfl
    rw [List.cons_append, hinside, next_quoted hquote hslash, ih hs, List.cons_append]

theorem untilClosed_other {c : Char} (hleft : c ≠ '(') (hright : c ≠ ')') (rest : Text) :
    untilClosed depth .outside (c :: rest) =
      c :: untilClosed depth (Quoting.outside.next c) rest := by
  simp [untilClosed, Quoting.outside, hleft, hright]

/-- Nested text within the parentheses does not close them. -/
theorem untilClosed_nested (h : Nested commas t) (hdepth : 1 ≤ depth) (rest : Text) :
    untilClosed depth .outside (t ++ rest) = t ++ untilClosed depth .outside rest := by
  induction h generalizing depth rest with
  | nil => rfl
  | plain hplain _ _ ih =>
    rw [List.cons_append, untilClosed_other, next_plain hplain, ih hdepth, List.cons_append]
    · rintro rfl
      exact absurd hplain (by decide)
    · rintro rfl
      exact absurd hplain (by decide)
  | @enclosed _ left right s t pair _ _ ihInside ihRest =>
    obtain ⟨-, -, -, -, hnext, hnext'⟩ := bracketStep_pair pair
    rw [List.cons_append, List.append_assoc, List.cons_append]
    by_cases hparen : left = '('
    · obtain rfl : right = ')' := by
        subst hparen
        simpa [bracketPairs] using pair
      subst hparen
      have hclose : ¬ (depth + 1 - 1 == 0) = true := by simp; omega
      have hopen : untilClosed depth .outside ('(' :: (s ++ ')' :: (t ++ rest))) =
          '(' :: untilClosed (depth + 1) .outside (s ++ ')' :: (t ++ rest)) := by
        simp [untilClosed, Quoting.outside]
      have hshut : untilClosed (depth + 1) .outside (')' :: (t ++ rest)) =
          ')' :: untilClosed depth .outside (t ++ rest) := by
        rw [untilClosed, if_neg (by decide), if_neg (by decide), if_pos (by decide), if_neg hclose,
          show depth + 1 - 1 = depth by omega]
      rw [hopen, ihInside (by omega), hshut, ihRest hdepth]
      simp
    · have hothers : left ≠ ')' ∧ right ≠ '(' ∧ right ≠ ')' := by
        simp only [bracketPairs, List.mem_cons, Prod.mk.injEq, List.not_mem_nil, or_false] at pair
        rcases pair with ⟨rfl, rfl⟩ | ⟨rfl, rfl⟩ | ⟨rfl, rfl⟩
        · decide
        · decide
        · exact absurd rfl hparen
      rw [untilClosed_other hparen hothers.1, hnext, ihInside hdepth,
        untilClosed_other hothers.2.1 hothers.2.2, hnext', ihRest hdepth]
      simp
  | quoted hs _ ih =>
    have hnext : Quoting.outside.next '"' = ⟨some '"', false⟩ := rfl
    rw [List.cons_append, List.append_assoc, List.cons_append,
      untilClosed_other (by decide) (by decide), hnext, untilClosed_quoted hs, ih hdepth]
    simp

/-- The list that begins with a parenthesis ends at the one that closes it. -/
theorem listAt_nested (h : Nested commas t) (back : Text) :
    listAt ('(' :: (t ++ ')' :: back)) = t := by
  have hopen : untilClosed 0 .outside ('(' :: (t ++ ')' :: back)) =
      '(' :: untilClosed 1 .outside (t ++ ')' :: back) := by
    simp [untilClosed, Quoting.outside]
  have hshut : untilClosed 1 .outside (')' :: back) = [] := by
    simp [untilClosed, Quoting.outside]
  rw [listAt, hopen, untilClosed_nested h (by decide), hshut]
  simp

/-! ## Lists -/

/-- A text that may stand in a list: it is nested, it has no commas outside brackets, and it is
trimmed. -/
structure Entry (t : Text) : Prop where
  ne_nil : t ≠ []
  nested : Nested false t
  trimmed : Text.trim t = t

theorem Entry.item (h : Entry t) : Item t :=
  ⟨h.ne_nil, h.trimmed, h.nested.fragment.head?_ne_comma, h.nested.fragment.closed⟩

/-- Joined entries are divided into the entries again. -/
theorem splitList_join {ts : List Text} (h : ∀ t ∈ ts, Entry t) :
    splitList (Text.join separator ts) = ts := by
  refine (splitList_join_iff fun t ht => (h t ht).item).2 ⟨fun t ht => ?_, fun t ht => ?_⟩
  · exact (h t ht).nested.fragment.guarded (by simp) (by decide) (by simp)
  · exact (h t (List.dropLast_subset ts ht)).nested.fragment.surplus_eq_zero (by simp)

theorem nested_join {ts : List Text} (h : ∀ t ∈ ts, Entry t) :
    Nested true (Text.join separator ts) := by
  induction ts with
  | nil => exact .nil
  | cons t ts ih =>
    obtain ⟨ht, hts⟩ := List.forall_mem_cons.1 h
    cases ts with
    | nil => simpa using ht.nested.allow
    | cons u us =>
      rw [join_separator_cons]
      exact ht.nested.allow.append
        (.plain (by decide) (fun _ => rfl) (.plain (by decide) (by decide) (ih hts)))

/-- Entries that are joined within parentheses are found there again. -/
theorem splitList_listAt_join {ts : List Text} (h : ∀ t ∈ ts, Entry t) (back : Text) :
    splitList (listAt ('(' :: (Text.join separator ts ++ ')' :: back))) = ts := by
  rw [listAt_nested (nested_join h), splitList_join h]

end RazorViews.Parameter
