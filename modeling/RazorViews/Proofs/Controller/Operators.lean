import RazorViews.Proofs.Controller.Parameters

/-!
# Operators in default values

A default value may be an expression.  The comparisons and shifts in it are written with the same
characters as the brackets of type arguments, and are counted like them.

## What is proved

`splitList_join_declared` is about lists of parameters with expressions for default values, in which
parentheses, square brackets and braces are nested and quotes are closed.

* The list is divided into the parameters if and only if, outside quotes, every default value but
  the last has as many opening angle brackets as closing ones, and in none does a comma stand where
  the count of all brackets is back at zero (`Guarded`).
* Where nothing is compared and nothing shifted both are so (`NoAngles`), whatever else the
  expressions hold.

What quotes hold does not count: `splitList_join_quotation`.  A comparison counts, and behind it the
list is not divided any more: `bool late = 2 > 1, int page` is taken for one parameter
(`not_splitList_join_comparison`).

## What it is not

This is about dividing.  What is then read of each parameter is dealt with for values that are
numbers, paths and quoted texts in `readList_listAt_written`.

## The proof

A list is divided at those commas outside quotes where the count is zero.  If each part leaves the
count at zero and has no such comma, these are the commas between the parts; conversely the first
part that fails takes the next one along, or is cut in two.  What each part counts is what its
default value counts, since types are nested (`Declared.counts`).
-/

namespace RazorViews.Parameter

open RazorViews.TypeName

variable {t : Text}

/-! ## Parameters with expressions -/

theorem endsFirm_of_last (h : (t.getLast?.any fun c => !Text.isBlank c) = true) : EndsFirm t := by
  obtain ⟨c, hc, hfirm⟩ := (Option.any_eq_true _ _).1 h
  refine ⟨fun hnil => absurd (hnil ▸ hc) (by simp), fun d hd => ?_⟩
  obtain rfl := Option.some.inj (hc.symm.trans hd)
  simpa using hfirm

/-- An expression that ends with something else than white space. -/
structure Expression where
  text : Text
  fragment : Fragment true false text
  endsFirm : EndsFirm text

/-- The characters of an expression outside quotes. -/
def Expression.code (e : Expression) : Text := Parameter.code e.text

/-- A parameter with a type, a name and, if it is optional, an expression for its default value. -/
structure Declared where
  type : Text
  ne_nil : type ≠ []
  not_isBlank_head : ∀ c ∈ type.head?, Text.isBlank c = false
  fragment : Fragment false false type
  name : Word
  default : Option Expression

/-- The type and the name. -/
def Declared.front (p : Declared) : Text := p.type ++ ' ' :: p.name.text

/-- The default value with the sign of equality in front. -/
def Expression.assigned (e : Expression) : Text := " = ".toList ++ e.text

def Declared.written (p : Declared) : Text := p.front ++ p.default.elim [] Expression.assigned

theorem Declared.fragment_front (p : Declared) : Fragment false false p.front :=
  p.fragment.append (.plain (by decide) (by decide) (nested_word p.name.isWord).fragment)

theorem Expression.fragment_assigned (e : Expression) : Fragment true false e.assigned :=
  .plain (by decide) (by decide) (.plain (by decide) (by decide)
    (.plain (by decide) (by decide) e.fragment))

theorem Expression.code_assigned (e : Expression) :
    Parameter.code e.assigned = ' ' :: '=' :: ' ' :: e.code := rfl

/-- The default value with the sign of equality, or nothing. -/
theorem Declared.fragment_default (p : Declared) :
    Fragment true false (p.default.elim [] Expression.assigned) := by
  cases p.default with
  | none => exact .nil
  | some e => exact e.fragment_assigned

theorem Declared.endsFirm (p : Declared) : EndsFirm p.written := by
  have hname : EndsFirm p.name.text := ⟨p.name.ne_nil, fun c hc =>
    Text.not_isBlank_of_isWord (p.name.isWord c (List.mem_of_getLast? hc))⟩
  rw [written]
  cases p.default with
  | none =>
    rw [Option.elim_none, List.append_nil]
    exact (hname.append_left [' ']).append_left p.type
  | some e => exact (e.endsFirm.append_left _).append_left p.front

theorem Declared.item (p : Declared) : Item p.written := by
  obtain ⟨c, type, htype⟩ := List.exists_cons_of_ne_nil p.ne_nil
  have hhead : p.written.head? = p.type.head? := by
    rw [written, front, htype]
    rfl
  refine ⟨p.endsFirm.ne_nil, ?_, ?_, ?_⟩
  · exact Text.trim_eq_self (by rw [hhead]; exact p.not_isBlank_head) p.endsFirm.getLast
  · rw [hhead]
    exact p.fragment.head?_ne_comma
  · exact p.fragment_front.closed.append p.fragment_default.closed

/-- What the count of brackets says of a parameter it says of its default value. -/
theorem Declared.counts (p : Declared) :
    (Guarded 0 (code p.written) ↔ ∀ e ∈ p.default, Guarded 0 e.code) ∧
      (surplus (code p.written) = 0 ↔ ∀ e ∈ p.default, e.code.count '<' = e.code.count '>') := by
  have hno : false = true → NoAngles (code p.front) := fun h => absurd h (by simp)
  have hfront := p.fragment_front.surplus_eq_zero hno
  have hguarded : Guarded 0 (code p.front) :=
    p.fragment_front.guarded hno (by decide) (by simp)
  rw [written, p.fragment_front.closed.code_append, guarded_append, surplus_append, hfront,
    Int.zero_add, Int.zero_add, p.fragment_default.surplus_code, if_pos rfl, and_iff_right hguarded]
  cases p.default with
  | none => simp [code, codeFrom, guarded_nil, angles]
  | some e =>
    rw [Option.elim_some, e.code_assigned, guarded_cons, guarded_cons, guarded_cons,
      angles_cons_of_ne (by decide) (by decide), angles_cons_of_ne (by decide) (by decide),
      angles_cons_of_ne (by decide) (by decide), angles]
    have hsteps : bracketStep ' ' = 0 ∧ bracketStep '=' = 0 := by decide
    simp only [hsteps.1, hsteps.2, Option.mem_some, forall_eq', Int.add_zero, Int.sub_eq_zero,
      Int.ofNat_inj]
    simp

/-- **Lists of parameters with expressions.**  The list is divided into the parameters if and only
if no default value has a comma where the count of brackets is zero, and every one but the last has
as many opening angle brackets as closing ones; quotes do not count.  So it is if nothing is
compared or shifted. -/
theorem splitList_join_declared (ps : List Declared) :
    (splitList (Text.join separator (ps.map Declared.written)) = ps.map Declared.written ↔
      (∀ p ∈ ps, ∀ e ∈ p.default, Guarded 0 e.code) ∧
      ∀ p ∈ ps.dropLast, ∀ e ∈ p.default, e.code.count '<' = e.code.count '>') ∧
    ((∀ p ∈ ps, ∀ e ∈ p.default, NoAngles e.code) →
      splitList (Text.join separator (ps.map Declared.written)) = ps.map Declared.written) := by
  have hitems : ∀ t ∈ ps.map Declared.written, Item t :=
    List.forall_mem_map.2 fun p _ => p.item
  have hiff : splitList (Text.join separator (ps.map Declared.written)) =
      ps.map Declared.written ↔ (∀ p ∈ ps, ∀ e ∈ p.default, Guarded 0 e.code) ∧
        ∀ p ∈ ps.dropLast, ∀ e ∈ p.default, e.code.count '<' = e.code.count '>' := by
    rw [splitList_join_iff hitems, ← List.map_dropLast, List.forall_mem_map, List.forall_mem_map]
    exact and_congr (forall₂_congr fun p _ => p.counts.1) (forall₂_congr fun p _ => p.counts.2)
  refine ⟨hiff, fun hno => hiff.2 ⟨fun p hp e he => ?_, fun p hp e he => ?_⟩⟩
  · exact e.fragment.guarded (fun _ => hno p hp e he) (by decide) (by simp)
  · obtain ⟨hopen, hclose⟩ := hno p (List.dropLast_subset ps hp) e he
    rw [List.count_eq_zero.2 hopen, List.count_eq_zero.2 hclose]

/-! ## A comparison -/

/-- A parameter whose type is a word. -/
def Declared.ofWords (type name : Word) (default : Option Expression) : Declared where
  type := type.text
  ne_nil := type.ne_nil
  not_isBlank_head c hc :=
    Text.not_isBlank_of_isWord (type.isWord c (List.mem_of_mem_head? hc))
  fragment := (nested_word type.isWord).fragment
  name := name
  default := default

/-- The parameter `int page`. -/
def page : Declared :=
  .ofWords ⟨"int".toList, by decide, Canonical.forall_mem_of_all (by decide)⟩
    ⟨"page".toList, by decide, Canonical.forall_mem_of_all (by decide)⟩ none

/-- The expression `2 > 1`. -/
def comparison : Expression where
  text := "2 > 1".toList
  fragment := .plain (by decide) (by decide) (.plain (by decide) (by decide)
    (.operator rfl (by decide) (.plain (by decide) (by decide)
      (.plain (by decide) (by decide) .nil))))
  endsFirm := endsFirm_of_last (by decide)

/-- The expression `"a > b, c"`. -/
def quotation : Expression where
  text := "\"a > b, c\"".toList
  fragment :=
    have hbody : ∀ c ∈ "a > b, c".toList, (c != '"' && c != '\\') = true :=
      Canonical.forall_mem_of_all (by decide)
    .quoted (by decide : '"' ∈ quoteMarks)
      (quoteBody_of_forall fun c hc => by simpa using hbody c hc) .nil
  endsFirm := endsFirm_of_last (by decide)

/-- A parameter `x` with an expression for its default value. -/
def defaulted (e : Expression) : Declared :=
  .ofWords ⟨"object".toList, by decide, Canonical.forall_mem_of_all (by decide)⟩
    ⟨"x".toList, by decide, Canonical.forall_mem_of_all (by decide)⟩ (some e)

/-- What a quotation holds does not count. -/
theorem splitList_join_quotation :
    (∀ p ∈ [defaulted quotation, page], ∀ e ∈ p.default, NoAngles e.code) ∧
    splitList (Text.join separator ([defaulted quotation, page].map Declared.written)) =
      [defaulted quotation, page].map Declared.written := by
  have hno : ∀ p ∈ [defaulted quotation, page], ∀ e ∈ p.default, NoAngles e.code := by
    rw [List.forall_mem_cons, List.forall_mem_singleton]
    refine ⟨fun e he => ?_, fun e he => absurd he (Option.not_mem_none e)⟩
    obtain rfl : quotation = e := Option.some.inj he
    decide
  exact ⟨hno, (splitList_join_declared [defaulted quotation, page]).2 hno⟩

/-- Behind a comparison the list is not divided any more. -/
theorem not_splitList_join_comparison :
    splitList (Text.join separator ([defaulted comparison, page].map Declared.written)) ≠
      [defaulted comparison, page].map Declared.written := by
  decide

end RazorViews.Parameter
