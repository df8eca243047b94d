import RazorViews.Proofs.Controller.Commas

/-!
# Texts with closed brackets

Types and expressions are texts whose brackets and quotes are closed where they were opened
(`Fragment`).  They differ in the angle brackets: in a type these come in pairs like all others, in
an expression they are parts of operators, and any number of them may stand anywhere.

* Every fragment closes its quotes (`Fragment.closed`), whatever stands in them.
* Outside the angle brackets every bracket that is opened is closed, so what is left of the count
  behind a fragment is the angle brackets (`Fragment.surplus_code`).
* Where none of these is in the way, the count is back at zero (`Fragment.surplus_eq_zero`), and no
  comma within brackets divides the fragment (`Fragment.guarded`).

In a quote a backslash hides the character behind it, as it does to the reader; a verbatim literal
that ends with one is no fragment.
-/

namespace RazorViews.Parameter

variable {operators commas : Bool} {mark c : Char} {depth : Int} {s t : Text}

/-! ## Characters -/

/-- The brackets that are counted. -/
def bracketPairs : List (Char × Char) := [('<', '>'), ('[', ']'), ('(', ')')]

/-- A character that is neither a bracket nor a quotation mark. -/
def isPlain (c : Char) : Bool := !(['<', '>', '[', ']', '(', ')', '"', '\''].contains c)

theorem next_plain {c : Char} (hc : isPlain c = true) : Quoting.outside.next c = .outside := by
  simp only [isPlain, List.contains_cons, List.contains_nil] at hc
  simp_all [Quoting.next, Quoting.outside]

theorem bracketStep_plain {c : Char} (hc : isPlain c = true) : bracketStep c = 0 := by
  simp only [isPlain, List.contains_cons, List.contains_nil] at hc
  simp_all [bracketStep]

/-- An opening bracket adds one to the count, and the closing one takes it away again. -/
theorem bracketStep_pair {left right : Char} (h : (left, right) ∈ bracketPairs) :
    bracketStep left = 1 ∧ bracketStep right = -1 ∧ left ≠ ',' ∧ right ≠ ',' ∧
      Quoting.outside.next left = .outside ∧ Quoting.outside.next right = .outside := by
  simp only [bracketPairs, List.mem_cons, Prod.mk.injEq, List.not_mem_nil, or_false] at h
  rcases h with ⟨rfl, rfl⟩ | ⟨rfl, rfl⟩ | ⟨rfl, rfl⟩ <;> decide

/-! ## Quotes -/

/-- What may stand between two marks of a kind: behind a backslash anything, and else no mark. -/
inductive QuoteBody (mark : Char) : Text → Prop where
  | nil : QuoteBody mark []
  | other {c : Char} {t : Text} (hmark : c ≠ mark) (hslash : c ≠ '\\') (rest : QuoteBody mark t) :
      QuoteBody mark (c :: t)
  | escaped {c : Char} {t : Text} (rest : QuoteBody mark t) : QuoteBody mark ('\\' :: c :: t)

/-- The marks of quotes. -/
def quoteMarks : List Char := ['"', '\'']

theorem quoteMark_facts (h : mark ∈ quoteMarks) :
    mark ≠ '\\' ∧ mark ≠ ',' ∧ mark ≠ '<' ∧ mark ≠ '>' ∧ bracketStep mark = 0 ∧
      Quoting.outside.next mark = ⟨some mark, false⟩ := by
  simp only [quoteMarks, List.mem_cons, List.not_mem_nil, or_false] at h
  rcases h with rfl | rfl <;> decide

/-- No character of a quote counts, and its second mark closes it. -/
theorem QuoteBody.closed (h : QuoteBody mark s) (hmark : mark ≠ '\\') :
    codeFrom ⟨some mark, false⟩ (s ++ [mark]) = [] ∧
      (Quoting.mk (some mark) false).after (s ++ [mark]) = .outside := by
  induction h with
  | nil => simp [codeFrom, Quoting.next, hmark]
  | @other c t hc hslash _ ih =>
    have hnext : (Quoting.mk (some mark) false).next c = ⟨some mark, false⟩ := by
      simp [Quoting.next, hslash, hc]
    rw [List.cons_append, codeFrom, Quoting.after_cons, hnext]
    exact ih
  | @escaped c t _ ih =>
    have hnext : ((Quoting.mk (some mark) false).next '\\').next c = ⟨some mark, false⟩ := by
      simp [Quoting.next]
    rw [List.cons_append, List.cons_append, codeFrom, codeFrom, Quoting.after_cons,
      Quoting.after_cons, hnext]
    exact ih

theorem closed_quote (hmark : mark ∈ quoteMarks) (h : QuoteBody mark s) :
    code (mark :: (s ++ [mark])) = [mark] ∧ QuotesClosed (mark :: (s ++ [mark])) := by
  obtain ⟨hslash, -, -, -, -, hnext⟩ := quoteMark_facts hmark
  obtain ⟨hcode, hafter⟩ := h.closed hslash
  constructor
  · rw [code, codeFrom, hnext, hcode]
    rfl
  · rw [QuotesClosed, Quoting.after_cons, hnext, hafter]

/-! ## Types and expressions -/

/-- Texts whose brackets and quotes are closed where they were opened.  Within brackets there may be
commas anywhere; `commas` says whether there may be commas outside.  In a type the angle brackets
are brackets like others; in an expression, where `operators` is true, they are parts of operators
and come in any order. -/
inductive Fragment (operators : Bool) : Bool → Text → Prop where
  | nil {commas : Bool} : Fragment operators commas []
  | plain {commas : Bool} {c : Char} {t : Text} (hplain : isPlain c = true)
      (hcomma : c = ',' → commas = true) (rest : Fragment operators commas t) :
      Fragment operators commas (c :: t)
  | operator {commas : Bool} {c : Char} {t : Text} (hoperators : operators = true)
      (hc : c ∈ ['<', '>']) (rest : Fragment operators commas t) :
      Fragment operators commas (c :: t)
  | enclosed {commas : Bool} {left right : Char} {s t : Text}
      (pair : (left, right) ∈ bracketPairs) (hleft : left = '<' → operators = false)
      (inside : Fragment operators true s) (rest : Fragment operators commas t) :
      Fragment operators commas (left :: (s ++ right :: t))
  | quoted {commas : Bool} {mark : Char} {s t : Text} (hmark : mark ∈ quoteMarks)
      (body : QuoteBody mark s) (rest : Fragment operators commas t) :
      Fragment operators commas (mark :: (s ++ mark :: t))

/-- How a character outside quotes is read. -/
theorem code_cons (h : Quoting.outside.next c = .outside) (t : Text) :
    code (c :: t) = c :: code t := by
  have hclosed : QuotesClosed [c] := h
  exact hclosed.code_append t

theorem next_angle (hc : c ∈ ['<', '>']) : Quoting.outside.next c = .outside := by
  simp only [List.mem_cons, List.not_mem_nil, or_false] at hc
  rcases hc with rfl | rfl <;> decide

theorem Fragment.closed (h : Fragment operators commas t) : QuotesClosed t := by
  induction h with
  | nil => rfl
  | @plain _ c t hplain _ _ ih =>
    have hfirst : QuotesClosed [c] := next_plain hplain
    exact hfirst.append ih
  | @operator _ c t _ hc _ ih =>
    have hfirst : QuotesClosed [c] := next_angle hc
    exact hfirst.append ih
  | @enclosed _ left right s t pair _ _ _ ihInside ihRest =>
    obtain ⟨-, -, -, -, hnext, hnext'⟩ := bracketStep_pair pair
    have hleft : QuotesClosed [left] := hnext
    have hright : QuotesClosed [right] := hnext'
    exact hleft.append (ihInside.append (hright.append ihRest))
  | @quoted _ mark s t hmark body _ ih =>
    have hquote := (closed_quote hmark body).2.append ih
    simpa using hquote

/-- The code of a text in brackets. -/
theorem Fragment.code_enclosed {left right : Char} (pair : (left, right) ∈ bracketPairs)
    (inside : Fragment operators commas s) (t : Text) :
    code (left :: (s ++ right :: t)) = left :: (code s ++ right :: code t) := by
  obtain ⟨-, -, -, -, hnext, hnext'⟩ := bracketStep_pair pair
  rw [code_cons hnext, inside.closed.code_append, code_cons hnext']

theorem code_quote_append (hmark : mark ∈ quoteMarks) (body : QuoteBody mark s) (t : Text) :
    code (mark :: (s ++ mark :: t)) = mark :: code t := by
  obtain ⟨hcode, hclosed⟩ := closed_quote hmark body
  have hsplit : mark :: (s ++ mark :: t) = mark :: (s ++ [mark]) ++ t := by simp
  rw [hsplit, hclosed.code_append, hcode]
  rfl

/-! ## Angle brackets -/

/-- How many more angle brackets open than close. -/
def angles (t : Text) : Int := t.count '<' - t.count '>'

theorem angles_append (s t : Text) : angles (s ++ t) = angles s + angles t := by
  simp only [angles, List.count_append]
  omega

theorem angles_cons_of_ne (hopen : c ≠ '<') (hclose : c ≠ '>') (t : Text) :
    angles (c :: t) = angles t := by
  rw [angles, List.count_cons_of_ne hopen, List.count_cons_of_ne hclose, angles]

theorem angles_cons_angle (hc : c ∈ ['<', '>']) (t : Text) :
    angles (c :: t) = bracketStep c + angles t := by
  simp only [List.mem_cons, List.not_mem_nil, or_false] at hc
  rcases hc with rfl | rfl <;> simp [angles, bracketStep] <;> omega

/-- Outside the angle brackets every bracket that is opened is closed. -/
theorem Fragment.surplus_code (h : Fragment operators commas t) :
    surplus (code t) = if operators then angles (code t) else 0 := by
  induction h with
  | nil => cases operators <;> rfl
  | @plain _ c t hplain _ _ ih =>
    have hopen : c ≠ '<' := by
      rintro rfl
      exact absurd hplain (by decide)
    have hclose : c ≠ '>' := by
      rintro rfl
      exact absurd hplain (by decide)
    rw [code_cons (next_plain hplain), surplus_cons, bracketStep_plain hplain, ih,
      angles_cons_of_ne hopen hclose, Int.zero_add]
  | @operator _ c t hoperators hc _ ih =>
    rw [code_cons (next_angle hc), surplus_cons, ih, hoperators, if_pos rfl, if_pos rfl,
      angles_cons_angle hc]
  | @enclosed _ left right s t pair hleft inside _ ihInside ihRest =>
    obtain ⟨hstep, hstep', -⟩ := bracketStep_pair pair
    rw [inside.code_enclosed pair, surplus_cons, surplus_append, surplus_cons, hstep, hstep',
      ihInside, ihRest]
    cases operators with
    | false => simp
    | true =>
      have hne : left ≠ '<' := fun h => absurd (hleft h) (by decide)
      have hothers : left ≠ '>' ∧ right ≠ '<' ∧ right ≠ '>' := by
        simp only [bracketPairs, List.mem_cons, Prod.mk.injEq, List.not_mem_nil, or_false] at pair
        rcases pair with ⟨rfl, rfl⟩ | ⟨rfl, rfl⟩ | ⟨rfl, rfl⟩
        · exact absurd rfl hne
        · decide
        · decide
      rw [if_pos rfl, if_pos rfl, if_pos rfl, angles_cons_of_ne hne hothers.1, angles_append,
        angles_cons_of_ne hothers.2.1 hothers.2.2]
      omega
  | @quoted _ mark s t hmark body _ ih =>
    obtain ⟨-, -, hopen, hclose, hstep, -⟩ := quoteMark_facts hmark
    rw [code_quote_append hmark body, surplus_cons, hstep, ih, angles_cons_of_ne hopen hclose,
      Int.zero_add]

/-- Nothing is compared and nothing shifted in a text. -/
def NoAngles (t : Text) : Prop := '<' ∉ t ∧ '>' ∉ t

instance : DecidablePred NoAngles := fun _ => instDecidableAnd

theorem Fragment.surplus_eq_zero (h : Fragment operators commas t)
    (hno : operators = true → NoAngles (code t)) : surplus (code t) = 0 := by
  rw [h.surplus_code]
  split
  · rename_i hoperators
    rw [angles, List.count_eq_zero.2 (hno hoperators).1, List.count_eq_zero.2 (hno hoperators).2]
    rfl
  · rfl

/-- A comma in brackets does not divide as long as angle brackets come in pairs. -/
theorem Fragment.guarded (h : Fragment operators commas t)
    (hno : operators = true → NoAngles (code t)) (hdepth : 0 ≤ depth)
    (hcommas : commas = true → depth ≠ 0) : Guarded depth (code t) := by
  induction h generalizing depth with
  | nil => exact guarded_nil
  | @plain _ c t hplain hcomma _ ih =>
    rw [code_cons (next_plain hplain)] at hno ⊢
    rw [guarded_cons, bracketStep_plain hplain, Int.add_zero]
    refine ⟨fun hc => hcommas (hcomma hc), ih (fun hop => ?_) hdepth hcommas⟩
    exact ⟨List.not_mem_of_not_mem_cons (hno hop).1, List.not_mem_of_not_mem_cons (hno hop).2⟩
  | @operator _ c t hoperators hc _ ih =>
    rw [code_cons (next_angle hc)] at hno
    simp only [List.mem_cons, List.not_mem_nil, or_false] at hc
    rcases hc with rfl | rfl
    · exact absurd List.mem_cons_self (hno hoperators).1
    · exact absurd List.mem_cons_self (hno hoperators).2
  | @enclosed _ left right s t pair _ inside _ ihInside ihRest =>
    obtain ⟨hstep, hstep', hleft, hright, -⟩ := bracketStep_pair pair
    rw [inside.code_enclosed pair] at hno ⊢
    have hnoInside : operators = true → NoAngles (code s) := fun hop =>
      ⟨fun hmem => (hno hop).1 (by simp [hmem]), fun hmem => (hno hop).2 (by simp [hmem])⟩
    have hnoRest : operators = true → NoAngles (code t) := fun hop =>
      ⟨fun hmem => (hno hop).1 (by simp [hmem]), fun hmem => (hno hop).2 (by simp [hmem])⟩
    rw [guarded_cons, guarded_append, guarded_cons, hstep, hstep',
      inside.surplus_eq_zero hnoInside, Int.add_zero, Int.add_neg_cancel_right]
    exact ⟨fun hc => absurd hc hleft, ihInside hnoInside (by omega) (fun _ => by omega),
      fun hc => absurd hc hright, ihRest hnoRest hdepth hcommas⟩
  | @quoted _ mark s t hmark body _ ih =>
    obtain ⟨-, hcomma, -, -, hstep, -⟩ := quoteMark_facts hmark
    rw [code_quote_append hmark body] at hno ⊢
    rw [guarded_cons, hstep, Int.add_zero]
    refine ⟨fun hc => absurd hc hcomma, ih (fun hop => ?_) hdepth hcommas⟩
    exact ⟨List.not_mem_of_not_mem_cons (hno hop).1, List.not_mem_of_not_mem_cons (hno hop).2⟩

theorem Fragment.append (hs : Fragment operators commas s) (ht : Fragment operators commas t) :
    Fragment operators commas (s ++ t) := by
  induction hs with
  | nil => exact ht
  | plain hplain hcomma _ ih => exact .plain hplain hcomma (ih ht)
  | operator hoperators hc _ ih => exact .operator hoperators hc (ih ht)
  | enclosed pair hleft inside _ _ ih =>
    rw [List.cons_append, List.append_assoc, List.cons_append]
    exact .enclosed pair hleft inside (ih ht)
  | quoted hmark body _ ih =>
    rw [List.cons_append, List.append_assoc, List.cons_append]
    exact .quoted hmark body (ih ht)

theorem quoteBody_of_forall (h : ∀ c ∈ s, c ≠ mark ∧ c ≠ '\\') : QuoteBody mark s := by
  induction s with
  | nil => exact .nil
  | cons c s ih =>
    obtain ⟨⟨hmark, hslash⟩, hs⟩ := List.forall_mem_cons.1 h
    exact .other hmark hslash (ih hs)

theorem Fragment.head?_ne_comma (h : Fragment operators false t) : t.head? ≠ some ',' := by
  cases h with
  | nil => simp
  | plain hplain hcomma rest =>
    intro hhead
    exact absurd (hcomma (Option.some.inj hhead)) (by simp)
  | operator hoperators hc rest =>
    intro hhead
    rw [Option.some.inj hhead] at hc
    exact absurd hc (by decide)
  | enclosed pair hleft inside rest =>
    intro hhead
    exact (bracketStep_pair pair).2.2.1 (Option.some.inj hhead)
  | quoted hmark body rest =>
    intro hhead
    exact (quoteMark_facts hmark).2.1 (Option.some.inj hhead)

end RazorViews.Parameter
