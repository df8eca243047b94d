import RazorViews.Settings.Basic
import RazorViews.Workspace.Tree

/-!
Finding the file that declares a class.

A class is expected in a file of its name.  Several patterns say in which folders such a file may
lie; the first pattern that leads to any file decides, and folders that are excluded do not count.
The name of the class is taken literally, but a slash in it parts folders.
-/

namespace RazorViews.Search

/-! ## Patterns for folders -/

/-- A step of a pattern for folders. -/
inductive PatternStep where
  /-- Any chain of folders, even none. -/
  | anyDepth
  /-- One folder of a name. -/
  | named (name : Text)
  /-- One folder with a stretch of characters in its name. -/
  | holding (part : Text)
deriving DecidableEq, Repr

/-- Some end of a list, the list itself and the empty one included, satisfies the test. -/
def someEnd {α : Type} (test : List α → Bool) : List α → Bool
  | [] => test []
  | a :: rest => test (a :: rest) || someEnd test rest

/-- The names lead along a pattern from its beginning to its end. -/
def covers : List PatternStep → List Text → Bool
  | [], names => names.isEmpty
  | .anyDepth :: pattern, names => someEnd (covers pattern) names
  | .named name :: pattern, n :: names => n == name && covers pattern names
  | .holding part :: pattern, n :: names => n.holds part && covers pattern names
  | _ :: _, [] => false

/-- The folders in which the file of a class is expected, the best first. -/
def patterns : List (List PatternStep) :=
  [[.anyDepth],
   [.anyDepth, .named "Models".toList],
   [.anyDepth, .named "Models".toList, .anyDepth],
   [.anyDepth, .holding "Models".toList],
   [.anyDepth, .named "Entities".toList],
   [.anyDepth, .named "Domain".toList]]

/-! ## The file of a class in a folder -/

/-- The steps from a folder to the file of a class. -/
def fileSteps (className : Text) : List Text := Path.stepsOf (className ++ ".cs".toList)

/-- Characters that make a search for a name look at every entry instead of asking for the name. -/
def isWild (name : Text) : Bool := name.any ['*', '?', '['].contains

/-- A name that the system is asked for, and that is too long to be one.  A name with a NUL never
gets as far as the system: nothing is there under it. -/
def isAskedTooLong (name : Text) : Bool :=
  Tree.maxNameBytes < Utf8.size name && !isWild name && !name.contains '\x00'

/-- The refusal, if any, met with on the way from a folder along steps: asking for a name that is
too long is refused. -/
def refusalAlong? (t : Tree) (l : Location) (p : Path) : List Text → Option SystemError
  | [] => none
  | step :: rest =>
    let next := p.append ⟨.here, [step]⟩
    if step == ['.', '.'] then refusalAlong? t l.dropLast next rest
    else if isAskedTooLong step then some ⟨.nameTooLong, next.toText⟩
    else if t.get? (l ++ [step]) == some .folder then refusalAlong? t (l ++ [step]) next rest
    else none

def leadsToFile (t : Tree) (l : Location) (steps : List Text) : Bool :=
  match t.walk l steps with
  | .ok reached => (t.get? reached).any (!Tree.isFolderNode ·)
  | .error _ => false

/-! ## Searching -/

/-- The folders below a location, each with the names that lead to it from there; first the
location itself. -/
def foldersBelow (t : Tree) (l : Location) : List Location :=
  [] :: (t.below l).filterMap fun (names, n) => if n == .folder then some names else none

/-- The refusal, if any, that a search below a folder meets with. -/
def refusal? (t : Tree) (l : Location) (root : Path) (steps : List Text) : Option SystemError :=
  (foldersBelow t l).findSome? fun names =>
    refusalAlong? t (l ++ names) (root.append ⟨.here, names⟩) steps

/-- The steps lead from a folder to a file, the folder is one that the pattern leads to, and none
of the folders on the way is excluded. -/
def isHit (t : Tree) (l : Location) (excluded : List Text) (steps : List Text)
    (pattern : List PatternStep) (names : List Text) : Bool :=
  covers pattern names && leadsToFile t (l ++ names) steps &&
    !(names ++ steps.dropLast).any excluded.contains

/-- The files that steps lead to from the folders of a pattern, in order. -/
def hits (t : Tree) (l : Location) (root : Path) (excluded : List Text) (steps : List Text)
    (pattern : List PatternStep) : List Path :=
  Path.sort <| ((foldersBelow t l).filter (isHit t l excluded steps pattern)).map fun names =>
    root.append ⟨.here, names ++ steps⟩

/-- The first of several lists that is not empty. -/
def firstNonEmpty {α : Type} : List (List α) → List α
  | [] => []
  | xs :: rest => if xs.isEmpty then firstNonEmpty rest else xs

/-- The files that may declare a class below a folder, in order. -/
def find (t : Tree) (settings : SearchSettings) (className : Text) (root : Path) :
    Except SystemError (List Path) := do
  if ← t.isFolder root then
    match t.resolve root with
    | .error _ => return []
    | .ok l =>
      let steps := fileSteps className
      match refusal? t l root steps with
      | some e => throw e
      | none =>
        return firstNonEmpty (patterns.map (hits t l root settings.excludedFolders steps))
  else return []

/-- A folder of the given name leads to the file. -/
def liesIn (folder : Text) (file : Path) : Bool := file.parts.dropLast.contains folder

/-- Of several files that may declare a class, the one to read: the first file in the first of the
preferred folders that any file lies in, or else the first file. -/
def select (settings : SearchSettings) (files : List Path) : Option Path :=
  match files with
  | [] => none
  | [file] => some file
  | file :: _ =>
    some ((settings.modelFolders.findSome? fun folder => files.find? (liesIn folder)).getD file)

end RazorViews.Search
