import RazorViews.Text.Word
import RazorViews.Text.Blank
import RazorViews.Text.Case

/-!
Patterns over texts, matched by backtracking in a fixed order of preference.

A pattern is read from left to right.  Of an alternative the first branch is preferred; a
repetition prefers as many turns as possible, or as few, as its greed says.  The first match in
this order is *the* match: nothing is searched for the longest.  Matching is written with an
explicit continuation, so that a pattern means the same in whatever follows it, and all
definitions are structural: a repetition is bounded by the characters left, since every repeated
pattern here takes at least one.
-/

namespace RazorViews

/-- How many turns a repetition tries first. -/
inductive Greed where
  | most
  | least
deriving DecidableEq, Repr

inductive Pattern where
  | nothing
  /-- One character that passes a test. -/
  | one (accepts : Char → Bool)
  /-- A run of characters that all pass a test. -/
  | run (accepts : Char → Bool) (greed : Greed)
  | seq (first second : Pattern)
  /-- The first pattern, or else the second. -/
  | either (first second : Pattern)
  /-- As many turns of a pattern as possible. -/
  | many (turn : Pattern)
  /-- A pattern whose text is kept under a name. -/
  | keep (name : String) (body : Pattern)
  /-- Between a word character and something else, at either end of the text too. -/
  | wordEdge
  | atStart
  /-- The end of the text, or a line feed that ends it. -/
  | atEnd

namespace Pattern

/-- A place in a text: how many characters precede it, the nearest of them, the characters that
follow, and the texts kept on the way, latest first. -/
structure Place where
  offset : Nat
  previous : Option Char
  rest : Text
  kept : List (String × Text)

/-- The place after the next character. -/
def Place.step (p : Place) (c : Char) (rest : Text) : Place :=
  { p with offset := p.offset + 1, previous := some c, rest := rest }

def Place.start (t : Text) : Place := ⟨0, none, t, []⟩

/-- The places that a run of accepted characters can end at, the nearest first, in front of
`farther`. -/
def stops (accepts : Char → Bool) (p : Place) : List Place :=
  go p p.rest
where
  go (p : Place) : Text → List Place
    | [] => [p]
    | c :: rest => if accepts c then p :: go (p.step c rest) rest else [p]

/-- The word character on one side of an edge, if any. -/
def isWordSide (side : Option Char) : Bool := side.any Text.isWord

/-- A place between a word character and something else. -/
def onWordEdge (p : Place) : Bool := isWordSide p.previous != isWordSide p.rest.head?

/-- A place where the text ends, but for a last line feed. -/
def onEnd (p : Place) : Bool :=
  match p.rest with
  | [] => true
  | [c] => c == '\n'
  | _ => false

/-- Turns of a matcher, as many as possible but no more than `fuel`, before what follows. -/
def turns {ρ : Type} (turn : (Place → Option ρ) → Place → Option ρ) :
    (fuel : Nat) → (Place → Option ρ) → Place → Option ρ
  | 0, next, p => next p
  | fuel + 1, next, p =>
    match turn (turns turn fuel next) p with
    | some r => some r
    | none => next p

/-- Matches a pattern at a place and hands the place behind it to `next`; of the ways to match, the
first in order of preference that `next` accepts decides. -/
def match? {ρ : Type} : Pattern → (Place → Option ρ) → Place → Option ρ
  | nothing, next, p => next p
  | one accepts, next, p =>
    match p.rest with
    | [] => none
    | c :: rest => if accepts c then next (p.step c rest) else none
  | run accepts .most, next, p => (stops accepts p).reverse.findSome? next
  | run accepts .least, next, p => (stops accepts p).findSome? next
  | seq a b, next, p => a.match? (b.match? next) p
  | either a b, next, p =>
    match a.match? next p with
    | some r => some r
    | none => b.match? next p
  | many turn, next, p => turns turn.match? p.rest.length next p
  | keep name body, next, p =>
    body.match? (fun q =>
      next { q with kept := (name, p.rest.take (q.offset - p.offset)) :: q.kept }) p
  | wordEdge, next, p => if onWordEdge p then next p else none
  | atStart, next, p => if p.offset == 0 then next p else none
  | atEnd, next, p => if onEnd p then next p else none

/-! ## Finding -/

/-- A stretch of a text that a pattern matched. -/
structure Found where
  start : Nat
  text : Text
  finish : Place

/-- The text that the pattern kept under a name, if that part of it took part in the match. -/
def Found.kept? (f : Found) (name : String) : Option Text := f.finish.kept.lookup name

def foundAt? (pattern : Pattern) (p : Place) : Option Found :=
  (pattern.match? some p).map fun q => ⟨p.offset, p.rest.take (q.offset - p.offset), q⟩

def front? (pattern : Pattern) (t : Text) : Option Found := pattern.foundAt? (Place.start t)

/-- The leftmost match in a text that goes on behind some characters already passed. -/
def findFrom? (pattern : Pattern) (previous : Option Char) (offset : Nat) : Text → Option Found
  | [] => pattern.foundAt? ⟨offset, previous, [], []⟩
  | c :: rest =>
    match pattern.foundAt? ⟨offset, previous, c :: rest, []⟩ with
    | some found => some found
    | none => findFrom? pattern (some c) (offset + 1) rest

def find? (pattern : Pattern) (t : Text) : Option Found := pattern.findFrom? none 0 t

def isIn (pattern : Pattern) (t : Text) : Bool := (pattern.find? t).isSome

/-- All matches in a text, from the left and without overlap; the next `covered` characters belong
to the match before. -/
def findAllFrom (pattern : Pattern) (covered : Nat) (previous : Option Char) (offset : Nat) :
    Text → List Found
  | [] => []
  | c :: rest =>
    match covered with
    | n + 1 => findAllFrom pattern n (some c) (offset + 1) rest
    | 0 =>
      match pattern.foundAt? ⟨offset, previous, c :: rest, []⟩ with
      | some found =>
        found :: findAllFrom pattern (found.text.length - 1) (some c) (offset + 1) rest
      | none => findAllFrom pattern 0 (some c) (offset + 1) rest

def findAll (pattern : Pattern) (t : Text) : List Found := pattern.findAllFrom 0 none 0 t

/-- The text with every match exchanged for its image; the next `covered` characters belong to the
match before. -/
def replaceFrom (pattern : Pattern) (image : Found → Text) (covered : Nat)
    (previous : Option Char) (offset : Nat) : Text → Text
  | [] => []
  | c :: rest =>
    match covered with
    | n + 1 => replaceFrom pattern image n (some c) (offset + 1) rest
    | 0 =>
      match pattern.foundAt? ⟨offset, previous, c :: rest, []⟩ with
      | some found =>
        image found ++
          replaceFrom pattern image (found.text.length - 1) (some c) (offset + 1) rest
      | none => c :: replaceFrom pattern image 0 (some c) (offset + 1) rest

/-- The text with every match exchanged for its image, from the left and without overlap. -/
def replaceAll (pattern : Pattern) (image : Found → Text) (t : Text) : Text :=
  pattern.replaceFrom image 0 none 0 t

/-! ## Building patterns -/

instance : Append Pattern := ⟨seq⟩

def exactly (t : Text) : Pattern := t.foldr (fun c p => seq (one (· == c)) p) nothing

/-- The characters of a text, small or capital. -/
def anyCase (t : Text) : Pattern := t.foldr (fun c p => seq (one (Text.eqFold c)) p) nothing

def lit (s : String) : Pattern := exactly s.toList

/-- The characters of a literal, small or capital. -/
def litAnyCase (s : String) : Pattern := anyCase s.toList

/-- The first of several patterns that leads to a match. -/
def firstOf : List Pattern → Pattern
  | [] => nothing
  | [p] => p
  | p :: ps => either p (firstOf ps)

def maybe (p : Pattern) : Pattern := either p nothing

/-- One accepted character and as many more as possible. -/
def run1 (accepts : Char → Bool) : Pattern := seq (one accepts) (run accepts .most)

def blanks : Pattern := run Text.isBlank .most

def blanks1 : Pattern := run1 Text.isBlank

def word1 : Pattern := run1 Text.isWord

/-- An ASCII letter or underscore, and word characters. -/
def identifier : Pattern := seq (one Text.isIdentifierStart) (run Text.isWord .most)

end Pattern

end RazorViews
