import RazorViews.Text.Pattern
import RazorViews.Number.Reader

/-!
What annotations say about showing and checking a property: captions and length bounds.

Annotations are read as they are written, quoted text included.  Each field is looked for in every
annotation by itself, and the last annotation that gives it decides.
-/

namespace RazorViews

/-- Captions and length bounds; a field that no annotation gives is missing. -/
structure Metadata where
  displayName : Option Text
  description : Option Text
  maxLength : Option Nat
  minLength : Option Nat
deriving DecidableEq, Repr

namespace Metadata

open Pattern

def empty : Metadata := ⟨none, none, none, none⟩

/-- A non-empty text in double quotes, kept. -/
def quotedText : Pattern :=
  one (· == '"') ++ keep "value" (run1 (· != '"')) ++ one (· == '"')

def numeral : Pattern := keep "value" (run1 Text.isDecimal)

/-- The call of an annotation up to its opening parenthesis. -/
def call (name : Pattern) : Pattern := wordEdge ++ name ++ blanks ++ lit "("

/-- A named argument of an annotation, at the nearest place before a closing parenthesis. -/
def namedArgument (name argument : String) (value : Pattern) : Pattern :=
  call (lit name) ++ run (· != ')') .least ++ wordEdge ++ lit argument ++ blanks ++
  lit "=" ++ blanks ++ value

/-- The first argument of an annotation. -/
def firstArgument (name value : Pattern) : Pattern :=
  call name ++ blanks ++ value

/-- The text kept by the first of the patterns that is found. -/
def valueBy? (patterns : List Pattern) (t : Text) : Option Text :=
  patterns.findSome? fun p => (p.find? t).bind (·.kept? "value")

def displayNames : List Pattern := [namedArgument "Display" "Name" quotedText]

def descriptions : List Pattern :=
  [firstArgument (lit "Description") quotedText, namedArgument "Display" "Description" quotedText]

def maxLengths : List Pattern :=
  [firstArgument (either (lit "MaxLength") (lit "StringLength")) numeral]

def minLengths : List Pattern :=
  [firstArgument (lit "MinLength") numeral, namedArgument "StringLength" "MinimumLength" numeral]

/-- A bound that an annotation gives: nothing, or a number.  A numeral of too many digits is
refused, with their count. -/
def bound? (patterns : List Pattern) (t : Text) : Except Nat (Option Nat) :=
  match valueBy? patterns t with
  | none => .ok none
  | some digits =>
    match Number.readInt? digits with
    | some n => .ok (some n.toNat)
    | none => .error digits.length

/-- What is known after one more annotation. -/
def add (m : Metadata) (body : Text) : Except Nat Metadata := do
  let maxLength ← bound? maxLengths body
  let minLength ← bound? minLengths body
  return {
    displayName := (valueBy? displayNames body).or m.displayName
    description := (valueBy? descriptions body).or m.description
    maxLength := maxLength.or m.maxLength
    minLength := minLength.or m.minLength }

/-- What annotations say, unless a bound has too many digits; then, how many. -/
def ofAttributes (attributes : List Text) : Except Nat Metadata := attributes.foldlM add empty

end Metadata

end RazorViews
