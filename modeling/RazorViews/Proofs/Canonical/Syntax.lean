import RazorViews.Source.Member

/-!
# Classes in canonical form

A class in canonical form has its header, its braces and each of its members on lines of their own:

    public class Name
    {
        // whole-line comments and blank lines, anywhere between the lines of the body
    [Annotation("body")]
    public Type Name { get; set; }
    }

The types here carry the proofs of their well-formedness, so that whatever can be built can be
written down and read back.  Annotations are made of pieces, since a literal may hold what would
otherwise end the annotation, the member or the class: brackets, braces and slashes.
-/

namespace RazorViews.Canonical

/-! ## Names and types -/

/-- ASCII letters, digits and the underscore. -/
def isAsciiWord (c : Char) : Bool := c.isAlphanum || c == '_'

/-- An ASCII identifier. -/
structure Identifier where
  first : Char
  more : Text
  isStart : Text.isIdentifierStart first = true
  isWord : ∀ c ∈ more, isAsciiWord c = true

def Identifier.text (i : Identifier) : Text := i.first :: i.more

/-- Identifiers with dots between them. -/
structure Path where
  head : Identifier
  steps : List Identifier

def Path.written (p : Path) : Text := p.head.text ++ p.steps.flatMap fun i => '.' :: i.text

/-- What may follow a type: pairs of brackets, and a question mark behind them. -/
structure Suffix where
  arrays : Nat
  isOptional : Bool

def Suffix.written (s : Suffix) : Text :=
  (List.replicate s.arrays ['[', ']']).flatten ++ if s.isOptional then ['?'] else []

mutual

/-- A type: a path, with type arguments or without. -/
inductive TypeText where
  | plain (path : Path) (suffix : Suffix)
  | generic (path : Path) (arguments : Arguments) (suffix : Suffix)

/-- Type arguments, each behind any number of spaces. -/
inductive Arguments where
  | last (gap : Nat) (type : TypeText)
  | next (gap : Nat) (type : TypeText) (more : Arguments)

end

/-- A number of spaces. -/
def spaces (n : Nat) : Text := List.replicate n ' '

mutual

def TypeText.written : TypeText → Text
  | .plain path suffix => path.written ++ suffix.written
  | .generic path arguments suffix =>
    path.written ++ '<' :: arguments.written ++ '>' :: suffix.written

def Arguments.written : Arguments → Text
  | .last gap type => spaces gap ++ type.written
  | .next gap type more => spaces gap ++ type.written ++ ',' :: more.written

end

/-! ## Annotations -/

/-- A piece of an annotation: a character, or a string literal by the text between its quotes. -/
inductive Piece where
  | plain (c : Char)
  | literal (inside : Text)
deriving DecidableEq

namespace Piece

/-- Letters, digits and the underscore of any script, spaces, and a few marks. -/
def isPlain (c : Char) : Bool := Text.isWord c || [' ', '(', ')', ',', '=', '.'].contains c

def written : Piece → Text
  | plain c => [c]
  | literal inside => '"' :: inside ++ ['"']

def isLiteral : Piece → Bool
  | plain _ => false
  | literal _ => true

/-- A character of an annotation; a literal on one line without escapes. -/
def Fits : Piece → Prop
  | plain c => isPlain c = true
  | literal inside => '"' ∉ inside ∧ '\\' ∉ inside ∧ '\n' ∉ inside

/-- No literal stands right behind another one. -/
def Apart : List Piece → Prop
  | [] => True
  | p :: ps => (p.isLiteral = true → ps.head?.any isLiteral = false) ∧ Apart ps

/-- The body of an annotation that is made of pieces. -/
def join (pieces : List Piece) : Text := pieces.flatMap written

end Piece

/-- An annotation by its body, which is neither empty nor surrounded by white space. -/
structure AnnotationText where
  pieces : List Piece
  fits : ∀ p ∈ pieces, p.Fits
  apart : Piece.Apart pieces
  ne_nil : pieces ≠ []
  trimmed : Text.trim (Piece.join pieces) = Piece.join pieces

def AnnotationText.body (a : AnnotationText) : Text := Piece.join a.pieces

/-! ## Lines -/

/-- A blank line, or a line with nothing but a comment. -/
structure Filler where
  indent : Text
  comment : Option Text
  isBlank : ∀ c ∈ indent, Text.isBlank c = true ∧ c ≠ '\n'
  isLine : ∀ t ∈ comment, '\n' ∉ t

def publicWord : Text := "public".toList

def classWord : Text := "class".toList

def getAndSet : Text := "\x7b get; set; \x7d".toList

/-- A line of a class body. -/
inductive BodyLine where
  | filler (f : Filler)
  | bracketed (a : AnnotationText)
  | property (type : TypeText) (name : Identifier)

def BodyLine.written : BodyLine → Text
  | filler f => f.indent ++ f.comment.elim [] (['/', '/'] ++ ·)
  | bracketed a => '[' :: a.body ++ [']']
  | property type name =>
    publicWord ++ ' ' :: type.written ++ ' ' :: name.text ++ ' ' :: getAndSet

/-- Lines, each with its line feed. -/
def unlines (ls : List Text) : Text := ls.flatMap (· ++ ['\n'])

/-! ## Members and classes -/

/-- A property with its annotations, and the fillers in front of each of their lines. -/
structure MemberText where
  annotations : List (List Filler × AnnotationText)
  fillers : List Filler
  type : TypeText
  name : Identifier

namespace MemberText

/-- The lines in front of the property. -/
def linesBefore (m : MemberText) : List BodyLine :=
  m.annotations.flatMap (fun (fillers, a) => fillers.map .filler ++ [.bracketed a]) ++
    m.fillers.map .filler

def lines (m : MemberText) : List BodyLine := m.linesBefore ++ [.property m.type m.name]

/-- The candidate that a member stands for if its lines begin at `index`. -/
def candidate (m : MemberText) (index : Nat) : Candidate where
  name := m.name.text
  rawType := m.type.written
  attributes := m.annotations.map fun (_, a) => a.body
  line := index + m.linesBefore.length

/-- The candidates that members stand for, one for each and in order. -/
def candidates (index : Nat) : List MemberText → List Candidate
  | [] => []
  | m :: ms => m.candidate index :: candidates (index + m.lines.length) ms

end MemberText

/-- A class with its members, the fillers in front of its closing brace, and any text on the lines
behind it. -/
structure ClassText where
  name : Identifier
  members : List MemberText
  fillers : List Filler
  behind : Option Text

namespace ClassText

/-- The lines between the braces. -/
def body (c : ClassText) : List BodyLine :=
  c.members.flatMap MemberText.lines ++ c.fillers.map .filler

def written (c : ClassText) : Text :=
  publicWord ++ ' ' :: classWord ++ ' ' :: c.name.text ++ ['\n', '{', '\n'] ++
    unlines (c.body.map BodyLine.written) ++ '}' :: c.behind.elim [] ('\n' :: ·)

/-- The candidates that the members stand for; the lines of the body begin with line 2. -/
def candidates (c : ClassText) : List Candidate := MemberText.candidates 2 c.members

end ClassText

end RazorViews.Canonical
