import RazorViews.Text.Blank

/-!
Annotations: the bracketed groups in front of a member.

A group runs from an opening bracket to the bracket that closes it; brackets inside quotes do not
count, and neither does a quote behind a backslash inside quotes.
-/

namespace RazorViews.Annotations

/-- Divides the text behind an opening bracket into the body of the group and what follows its
closing bracket, `inner` further brackets being open; none when the group is never closed.  Inside
quotes, `quote` is the mark that ends them. -/
def closeGroup : (inner : Nat) → (quote : Option Char) → Text → Option (Text × Text)
  | _, _, [] => none
  | inner, some q, '\\' :: c :: rest =>
    (closeGroup inner (some q) rest).map fun (body, after) => ('\\' :: c :: body, after)
  | inner, some q, c :: rest =>
    (closeGroup inner (if c == q then none else some q) rest).map fun (body, after) =>
      (c :: body, after)
  | inner, none, c :: rest =>
    if c == ']' then
      match inner with
      | 0 => some ([], rest)
      | inner + 1 => (closeGroup inner none rest).map fun (body, after) => (c :: body, after)
    else
      let inner := if c == '[' then inner + 1 else inner
      let quote := if c == '"' || c == '\'' then some c else none
      (closeGroup inner quote rest).map fun (body, after) => (c :: body, after)

/-- A line divided into the groups in front and the rest. -/
structure Split where
  /-- The bodies of the groups, trimmed; empty groups leave none. -/
  groups : List Text
  /-- What follows the groups, trimmed. -/
  rest : Text
  /-- The rest begins with a group that is not closed. -/
  unfinished : Bool
deriving DecidableEq, Repr

/-- The split of a line with one more group in front; an empty group counts for nothing. -/
def Split.withGroup (body : Text) (s : Split) : Split :=
  if (Text.trim body).isEmpty then s else { s with groups := Text.trim body :: s.groups }

/-- A group and its closing bracket take characters away. -/
theorem length_of_closeGroup {inner : Nat} {quote : Option Char} {t body after : Text}
    (h : closeGroup inner quote t = some (body, after)) : after.length < t.length := by
  fun_induction closeGroup inner quote t generalizing body after <;>
    simp_all only [reduceCtorEq, Option.map_eq_some_iff, Prod.exists, Prod.mk.injEq,
      Option.some.injEq, List.length_cons] <;> grind

/-- Divides a line into the groups in front and the rest. -/
def split (line : Text) : Split :=
  match _h : Text.trimLeft line with
  | '[' :: inside =>
    match _h' : closeGroup 0 none inside with
    | some (body, after) => (split after).withGroup body
    | none => ⟨[], Text.trim ('[' :: inside), true⟩
  | rest => ⟨[], Text.trim rest, false⟩
termination_by line.length
decreasing_by
  have h1 := length_of_closeGroup _h'
  have h2 := (List.dropWhile_suffix (l := line) Text.isBlank).length_le
  simp only [Text.trimLeft] at _h
  rw [_h, List.length_cons] at h2
  omega

end RazorViews.Annotations
