import RazorViews.Text.Basic

/-!
Paths as they are written.

A path is its steps, in order, behind a root if it has one.  Empty steps and steps `.` say nothing
and are left out; a step `..` is kept, since what it leads to depends on the tree.
-/

namespace RazorViews

/-- What a path starts from. -/
inductive PathRoot where
  | here
  /-- The root of the tree. -/
  | slash
  /-- The root of the tree, written with two slashes. -/
  | twoSlashes
deriving DecidableEq, Repr

def PathRoot.text : PathRoot → Text
  | here => []
  | slash => ['/']
  | twoSlashes => ['/', '/']

structure Path where
  root : PathRoot
  steps : List Text
deriving DecidableEq, Repr

namespace Path

def here : Path := ⟨.here, []⟩

/-- A piece of a path that is a step. -/
def isStep (t : Text) : Bool := !t.isEmpty && t != ['.']

/-- The steps that a text names. -/
def stepsOf (t : Text) : List Text := (Text.splitAt '/' t).filter isStep

/-- The root that a text begins with: exactly two slashes are a root of their own. -/
def rootOf : Text → PathRoot
  | ['/', '/'] => .twoSlashes
  | '/' :: '/' :: c :: _ => if c == '/' then .slash else .twoSlashes
  | '/' :: _ => .slash
  | _ => .here

def ofText (t : Text) : Path := ⟨rootOf t, stepsOf t⟩

/-- Writes a path; the path without root and steps is `.`. -/
def toText (p : Path) : Text :=
  if p.root == .here && p.steps.isEmpty then ['.'] else p.root.text ++ Text.join ['/'] p.steps

/-- A path below another; one with a root stands for itself. -/
def append (p q : Path) : Path := if q.root == .here then ⟨p.root, p.steps ++ q.steps⟩ else q

/-- The path that a text names below another. -/
def child (p : Path) (t : Text) : Path := p.append (ofText t)

def name (p : Path) : Text := p.steps.getLast?.getD []

def parent (p : Path) : Path := ⟨p.root, p.steps.dropLast⟩

/-- The last step without the ending behind its last point.  A point at either end of the step
begins no ending. -/
def stem (p : Path) : Text :=
  let ending := Text.afterLast '.' p.name
  let front := p.name.take (p.name.length - ending.length - 1)
  if ending.length == p.name.length || front.isEmpty || ending.isEmpty then p.name else front

/-- The names along a path, its root included. -/
def parts (p : Path) : List Text :=
  match p.root with
  | .here => p.steps
  | root => root.text :: p.steps

/-- The path relative to one that it lies below. -/
def relativeTo? (p base : Path) : Option Path :=
  if p.root == base.root && base.steps.isPrefixOf p.steps then
    some ⟨.here, p.steps.drop base.steps.length⟩
  else none

/-- The path relative to one that it lies below, or the path itself. -/
def relativeToOrSelf (p base : Path) : Path := (p.relativeTo? base).getD p

/-- Lists of names in their order, step by step. -/
def partsBefore : List Text → List Text → Bool
  | _, [] => false
  | [], _ :: _ => true
  | a :: p, b :: q => if a == b then partsBefore p q else Text.before a b

def before (p q : Path) : Bool := partsBefore p.parts q.parts

def sort (paths : List Path) : List Path := paths.mergeSort fun p q => !before q p

end Path

end RazorViews
