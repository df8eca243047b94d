import RazorViews.Text.Pattern
import RazorViews.Validation.Field

/-!
Parameters of action methods.

A parameter list is the text between matching parentheses, divided at the commas that no bracket
and no quote protects.  One count serves all kinds of brackets, so a text with more closing
brackets than opening ones is not divided any further.
-/

namespace RazorViews

structure Parameter where
  name : Text
  type : Text
  isOptional : Bool
  defaultValue : Option Text
deriving DecidableEq, Repr

namespace Parameter

open Pattern

/-! ## Quotes -/

/-- Where a reader stands with respect to quotes. -/
structure Quoting where
  /-- The mark that ends the quote. -/
  mark : Option Char
  /-- The next character stands behind a backslash. -/
  escaped : Bool
deriving DecidableEq, Repr

def Quoting.outside : Quoting := ⟨none, false⟩

/-- Where the reader stands behind one more character. -/
def Quoting.next (q : Quoting) (c : Char) : Quoting :=
  match q.mark with
  | some mark =>
    if q.escaped then { q with escaped := false }
    else if c == '\\' then { q with escaped := true }
    else if c == mark then .outside
    else q
  | none => if c == '"' || c == '\'' then ⟨some c, false⟩ else q

/-! ## Lists -/

/-- The text up to the parenthesis that brings the count of open ones to zero; the whole text if
none does. -/
def untilClosed (depth : Int) (q : Quoting) : Text → Text
  | [] => []
  | c :: rest =>
    if q.mark.isSome then c :: untilClosed depth (q.next c) rest
    else if c == '(' then c :: untilClosed (depth + 1) q rest
    else if c == ')' then
      if depth - 1 == 0 then [] else c :: untilClosed (depth - 1) q rest
    else c :: untilClosed depth (q.next c) rest

/-- The text behind an opening parenthesis, which the given text begins with, up to the one that
closes it.  The first character is left out whatever it is. -/
def listAt (t : Text) : Text := (untilClosed 0 .outside t).drop 1

/-- How a character outside quotes changes the count of open brackets. -/
def bracketStep (c : Char) : Int :=
  if c == '<' || c == '[' || c == '(' then 1
  else if c == '>' || c == ']' || c == ')' then -1
  else 0

/-- The pieces between commas, where no bracket is open and no quote. -/
def pieces (depth : Int) (q : Quoting) : Text → List Text
  | [] => [[]]
  | c :: rest =>
    if q.mark.isNone && c == ',' && depth == 0 then [] :: pieces depth q rest
    else
      let step := if q.mark.isSome then 0 else bracketStep c
      match pieces (depth + step) (q.next c) rest with
      | [] => [[c]]
      | piece :: more => (c :: piece) :: more

/-- The texts of the parameters in a list, trimmed; blank ones are left out. -/
def splitList (t : Text) : List Text :=
  ((pieces 0 .outside t).map Text.trim).filter (!·.isEmpty)

/-! ## Single parameters -/

/-- Words that may precede the type of a parameter. -/
def modifiers : List String := ["ref", "out", "in", "params", "this"]

/-- The type of a parameter: a dotted path, type arguments, one array suffix, a question mark. -/
def parameterType : Pattern :=
  run1 (fun c => Text.isWord c || c == '.') ++
  maybe (blanks ++ lit "<" ++ run1 (fun _ => true) ++ lit ">") ++
  maybe (blanks ++ lit "[" ++ run (fun c => Text.isBlank c || c == ',') .most ++ lit "]") ++
  maybe (lit "?")

/-- A whole parameter: attribute groups, a modifier, type, name, and default value. -/
def whole : Pattern :=
  atStart ++ many (lit "[" ++ run (· != ']') .most ++ lit "]" ++ blanks) ++
  maybe (firstOf (modifiers.map lit) ++ blanks1) ++ keep "type" parameterType ++ blanks1 ++
  keep "name" word1 ++
  maybe (blanks ++ lit "=" ++ blanks ++ keep "default" (run1 fun _ => true)) ++ atEnd

def dropBlanks (t : Text) : Text := t.filter (!Text.isBlank ·)

/-- Reads a parameter; none if the text is not of the form of one. -/
def read? (t : Text) : Option Parameter := do
  let found ← whole.front? t
  let name ← found.kept? "name"
  let type ← found.kept? "type"
  let value := (found.kept? "default").map Text.trim
  return ⟨name, dropBlanks type, value.isSome, value⟩

/-- The parameters of a list.  What is not of the form of a parameter is left out. -/
def readList (t : Text) : List Parameter := (splitList t).filterMap read?

/-! ## Data -/

def check (document : Json) : Checked Parameter :=
  (Field.members document).andThen fun given =>
    Parameter.mk <$> Field.required given "name" Field.text
      <*> Field.required given "type" Field.text
      <*> Field.defaulting given "is_optional" false Field.flag
      <*> Field.defaulting given "default_value" none (Field.optional Field.text)

def fields (p : Parameter) : List (String × Json) :=
  [("name", .text p.name), ("type", .text p.type), ("is_optional", .bool p.isOptional),
   ("default_value", .ofOption .text p.defaultValue)]

end Parameter

end RazorViews
