import RazorViews.Source.Annotations
import RazorViews.Source.ClassRegion
import RazorViews.Source.Lexeme

/-!
Recognizing the properties of a class, line by line.

The lines of erased source are read in order.  Until a class is declared, only braces are counted.
Inside a class, a line of annotations is set aside for the member that follows, a line with the
signature of a property yields a candidate that takes the annotations with it, blank lines, `using`
and `namespace` lines change nothing, and every other line drops the annotations set aside.  A group
of annotations may go on over several lines; it is given up after `maxAnnotationLines`.

The line before erasure is at hand beside the erased one, to recover what annotations say in
quotes.  It decides nothing else: candidates, their types and their lines come from the erased
source alone.
-/

namespace RazorViews

/-- A property recognized in a class body: its name, its type as written, the bodies of its
annotations in order, and its line counted from 0. -/
structure Candidate where
  name : Text
  rawType : Text
  attributes : List Text
  line : Nat
deriving DecidableEq, Repr

namespace Member

open Pattern

/-! ## Signatures -/

/-- Words that may precede the type of a member. -/
def modifiers : List String :=
  ["public", "internal", "protected", "private", "virtual", "override", "static", "new", "sealed",
   "abstract", "required", "readonly", "unsafe", "extern"]

def accessorModifiers : List String := ["public", "internal", "protected", "private"]

def accessors : List String := ["get", "set", "init"]

/-- A type: a dotted path, type arguments, array suffixes and a question mark. -/
def memberType : Pattern :=
  one Text.isIdentifierStart ++ run (fun c => Text.isWord c || c == '.') .most ++
  maybe (blanks ++ lit "<" ++ run (fun c => c != '{' && c != '}') .most ++ lit ">") ++
  many (blanks ++ lit "[" ++ run (fun c => Text.isBlank c || c == ',') .most ++ lit "]") ++
  blanks ++ maybe (lit "?")

/-- The accessors of a property between their braces. -/
def accessorBlock : Pattern :=
  one (· == '{') ++ blanks ++ many (firstOf (accessorModifiers.map lit) ++ blanks1) ++
  firstOf (accessors.map lit) ++ wordEdge ++ run (· != '}') .most ++ one (· == '}')

/-- The signature of a property, from the start of a text. -/
def signature : Pattern :=
  atStart ++ many (firstOf (modifiers.map lit) ++ blanks1) ++ keep "type" memberType ++ blanks1 ++
  keep "name" identifier ++ blanks ++ accessorBlock

/-- The name and the type of the property that a text begins with. -/
def readSignature? (t : Text) : Option (Text × Text) :=
  (signature.front? t).bind fun found =>
    (found.kept? "name").bind fun name =>
      (found.kept? "type").map fun type => (name, Text.trim type)

/-! ## Lines -/

/-- An erased line beside the line before erasure, if that is at hand. -/
structure Line where
  erased : Text
  raw : Option Text
deriving DecidableEq, Repr

/-- Opening braces less closing ones. -/
def braceBalance (t : Text) : Int := (t.count '{' : Int) - t.count '}'

/-- Blank, `using` and `namespace` lines. -/
def isPassedOver (t : Text) : Bool :=
  t.isEmpty || t.beginsWith "using ".toList || t.beginsWith "namespace ".toList

/-- Divides a text at its first opening brace, which goes with neither part. -/
def cutAtBrace? (t : Text) : Option (Text × Text) :=
  match t.dropWhile (· != '{') with
  | [] => none
  | _ :: after => some (t.takeWhile (· != '{'), after)

/-- What follows the opening brace of a class body on its line.  The raw line is of use only if it
has the same text in front of its own first brace. -/
def Line.afterBrace? (l : Line) : Option Line :=
  (cutAtBrace? l.erased).map fun (front, after) =>
    { erased := Text.trim after
      raw := (l.raw.bind cutAtBrace?).bind fun (rawFront, rawAfter) =>
        if rawFront == front then some (Text.trim rawAfter) else none }

/-- The bodies of the annotations in front of a line, as they stand in the raw line if that divides
into as many finished groups. -/
def Line.annotations (l : Line) : List Text :=
  let groups := (Annotations.split l.erased).groups
  match l.raw with
  | none => groups
  | some raw =>
    let s := Annotations.split raw
    if !s.unfinished && s.groups.length == groups.length then s.groups else groups

/-- Several lines as one, a space between neighbours; the raw lines join only if all are at
hand. -/
def joinLines (ls : List Line) : Line :=
  { erased := Text.join [' '] (ls.map Line.erased)
    raw := (ls.mapM Line.raw).map (Text.join [' ']) }

/-! ## Scanning -/

/-- The most lines that an annotation may extend over. -/
def maxAnnotationLines : Nat := 12

/-- Where a scan stands between two lines. -/
structure Scan where
  /-- A class has been entered and not yet left. -/
  inClass : Bool
  /-- The opening brace of the class body has been passed. -/
  inBody : Bool
  /-- Braces open so far. -/
  depth : Int
  /-- Braces that were open when the class was entered. -/
  entryDepth : Int
  /-- Annotations set aside for the next member. -/
  pending : List Text
  /-- The lines of an annotation that is not closed yet. -/
  held : List Line
deriving DecidableEq, Repr

def Scan.start : Scan := ⟨false, false, 0, 0, [], []⟩

/-- A property found on a line: name, type and annotations. -/
structure Finding where
  name : Text
  rawType : Text
  attributes : List Text
deriving DecidableEq, Repr

/-- Reads a line of a class body whose annotations, if any, are closed. -/
def Scan.readMember (s : Scan) (l : Line) : Scan × Option Finding :=
  let split := Annotations.split l.erased
  if !split.groups.isEmpty && split.rest.isEmpty then
    ({ s with pending := s.pending ++ l.annotations }, none)
  else
    match readSignature? split.rest with
    | none => ({ s with pending := [] }, none)
    | some (name, rawType) =>
      let own := if split.groups.isEmpty then [] else l.annotations
      ({ s with pending := [] }, some ⟨name, rawType, s.pending ++ own⟩)

/-- Reads a line of a class body, together with the lines of an open annotation before it. -/
def Scan.readBodyLine (s : Scan) (l : Line) : Scan × Option Finding :=
  if s.held.isEmpty then
    if (Annotations.split l.erased).unfinished then ({ s with held := [l] }, none)
    else s.readMember l
  else
    let held := s.held ++ [l]
    if maxAnnotationLines < held.length then ({ s with held := [], pending := [] }, none)
    else
      let joined := joinLines held
      if (Annotations.split joined.erased).unfinished then ({ s with held := held }, none)
      else { s with held := [] }.readMember joined

/-- Leaves the class if its braces are closed. -/
def Scan.leave (s : Scan) : Scan :=
  if s.depth ≤ s.entryDepth then { s with inClass := false, pending := [], held := [] } else s

def Scan.stepBody (s : Scan) (l : Line) : Scan × Option Finding :=
  let counted := { s with depth := s.depth + braceBalance l.erased }
  if isPassedOver l.erased then (counted, none)
  else
    let (after, finding) := counted.readBodyLine l
    (after.leave, finding)

/-- Takes a line inside a class, which may still belong to its header. -/
def Scan.stepClass (s : Scan) (l : Line) : Scan × Option Finding :=
  if s.inBody then s.stepBody l
  else
    match l.afterBrace? with
    | none => ({ s with depth := s.depth + braceBalance l.erased }, none)
    | some rest => { s with depth := s.depth + 1, inBody := true }.stepBody rest

def Scan.enter (s : Scan) : Scan :=
  { s with inClass := true, inBody := false, entryDepth := s.depth, pending := [] }

/-- Takes a line.  A class is entered where one is declared, and where `entering` says so. -/
def Scan.step (s : Scan) (entering : Bool) (l : Line) : Scan × Option Finding :=
  if s.inClass then s.stepClass l
  else if entering || ClassRegion.isDeclaration l.erased then s.enter.stepClass l
  else ({ s with depth := s.depth + braceBalance l.erased }, none)

/-- The candidates that a scan finds on lines numbered from `index`; `entering` is for the first
line only. -/
def Scan.run (s : Scan) (entering : Bool) (index : Nat) : List Line → List Candidate
  | [] => []
  | l :: rest =>
    let (after, finding) := s.step entering l
    let found := finding.map fun f => ⟨f.name, f.rawType, f.attributes, index⟩
    found.toList ++ after.run false (index + 1) rest

/-- The lines of erased source, trimmed, each beside its raw line; raw source of another number of
lines is of no use. -/
def pairLines (erased : Text) (raw : Option Text) : List Line :=
  let lines := (Text.lines erased).map Text.trim
  match raw.map Text.lines with
  | some rawLines =>
    if rawLines.length == lines.length then
      lines.zipWith (fun l r => ⟨l, some (Text.trim r)⟩) rawLines
    else lines.map fun l => ⟨l, none⟩
  | none => lines.map fun l => ⟨l, none⟩

/-- The candidates in erased source, in order.  With a region only its lines are read, and its
first line enters the class; without one every class that is declared is entered. -/
def recognize (erased : Text) (raw : Option Text) (region : Option ClassRegion) : List Candidate :=
  let lines := pairLines erased raw
  match region with
  | none => Scan.start.run false 0 lines
  | some r =>
    Scan.start.run true r.firstLine ((lines.take (r.lastLine + 1)).drop r.firstLine)

end Member

end RazorViews
