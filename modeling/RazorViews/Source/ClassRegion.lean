import RazorViews.Text.Pattern

/-!
Where a class stands in erased source.

A class is found by its header, the keyword and the name with everything up to the opening brace,
and extends to the brace that closes it.  Names and keywords are matched without regard to case.
-/

namespace RazorViews

/-- The lines of a class, counted from 0: the line its header starts on and the line of its closing
brace.  A class whose braces never balance runs to the last line. -/
structure ClassRegion where
  firstLine : Nat
  lastLine : Nat
  balanced : Bool
deriving DecidableEq, Repr

namespace ClassRegion

open Pattern

/-- Words that may precede the keyword in a class header. -/
def modifiers : List String :=
  ["public", "internal", "private", "protected", "static", "sealed", "abstract", "partial",
   "unsafe"]

def typeParameters : Pattern :=
  blanks ++ lit "<" ++ run (fun c => !(['<', '>', '{', '}', ';'].contains c)) .most ++ lit ">"

/-- A character of the list of base types. -/
def isBaseCharacter (c : Char) : Bool :=
  Text.isWord c || ['<', '>', ',', '.'].contains c || Text.isBlank c

def bases : Pattern :=
  blanks ++ lit ":" ++ blanks ++ one isBaseCharacter ++ run isBaseCharacter .least

def constraints : Pattern :=
  blanks ++ litAnyCase "where" ++ one Text.isBlank ++ run (fun c => c != '{' && c != ';') .most

/-- A class header with the opening brace. -/
def header (name : Text) : Pattern :=
  many (wordEdge ++ firstOf (modifiers.map litAnyCase) ++ blanks1) ++
  wordEdge ++ litAnyCase "class" ++ blanks1 ++ anyCase name ++ wordEdge ++
  maybe typeParameters ++ maybe bases ++ maybe constraints ++ blanks ++ one (· == '{')

/-- The line on which the brace stands that closes a body, of which `inner` further braces are open
and whose text goes on from some line. -/
def closingLine? : (inner line : Nat) → Text → Option Nat
  | _, _, [] => none
  | inner, line, c :: rest =>
    if c == '{' then closingLine? (inner + 1) line rest
    else if c == '}' then
      match inner with
      | 0 => some line
      | inner + 1 => closingLine? inner line rest
    else if c == '\n' then closingLine? inner (line + 1) rest
    else closingLine? inner line rest

/-- The region of a class in erased source; none when no header of that name is there. -/
def locate? (source name : Text) : Option ClassRegion :=
  ((header name).find? source).map fun found =>
    let firstLine := Text.lineFeeds (source.take found.start)
    let braceLine := firstLine + Text.lineFeeds found.text
    match closingLine? 0 braceLine found.finish.rest with
    | some lastLine => ⟨firstLine, lastLine, true⟩
    | none => ⟨firstLine, Text.lineFeeds source, false⟩

/-- The keyword with a name behind it. -/
def declaration : Pattern :=
  wordEdge ++ lit "class" ++ blanks1 ++ one Text.isIdentifierStart

def isDeclaration (line : Text) : Bool := declaration.isIn line

end ClassRegion

end RazorViews
