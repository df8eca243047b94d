import RazorViews.Event
import RazorViews.Failure
import RazorViews.Text.Word
import RazorViews.Workspace.Tree

/-!
Finding the project in a workspace.

A project is where its project file lies.  It is looked for in the workspace itself, in the folders
directly below, and then in the folders above the file that is open in an editor, up to the
workspace; the workspace itself stands in for a project that is not found.
-/

namespace RazorViews.Project

def ending : Text := ".csproj".toList

def sortNames (names : List Text) : List Text := names.mergeSort fun a b => !Text.before b a

/-- The names directly in the folder that a path leads to; none if it leads to no folder. -/
def namesIn (t : Tree) (p : Path) : List Text :=
  match t.resolve p with
  | .ok l => t.namesIn l
  | .error _ => []

/-- The first project file in a folder, with what is to be said if the folder cannot be looked
into. -/
def projectFile? (t : Tree) (folder : Path) : List Event × Option Path :=
  match t.isFolder folder with
  | .error e => ([.cannotList folder.toText e], none)
  | .ok false => ([], none)
  | .ok true =>
    let names := (namesIn t folder).filter (·.endsWith ending)
    ([], (sortNames names).head?.map fun name => folder.append ⟨.here, [name]⟩)

/-- The folders directly in a folder, in order. -/
def subfolders (t : Tree) (folder : Path) : List Path :=
  ((sortNames (namesIn t folder)).map fun name => folder.append ⟨.here, [name]⟩).filter fun p =>
    (t.isFolder p).toOption == some true

/-- The first of several folders that holds a project file. -/
def firstProject? (t : Tree) : List Path → List Event × Option Path
  | [] => ([], none)
  | folder :: rest =>
    match projectFile? t folder with
    | (events, some _) => (events, some folder)
    | (events, none) =>
      let (more, found) := firstProject? t rest
      (events ++ more, found)

/-- The folders from a path upwards, as far as they are neither the workspace nor without steps. -/
def upwards (root current : Path) : (levels : Nat) → List Path
  | 0 => []
  | levels + 1 =>
    if current == root || current.steps.isEmpty then []
    else current :: upwards root current.parent levels

/-- The folders in which a project is looked for, in order. -/
def places (t : Tree) (root : Path) (activeFile : Option Path) : List Path :=
  let above := match activeFile with
    | some file => upwards root file.parent file.steps.length
    | none => []
  root :: subfolders t root ++ above

def root (t : Tree) (workspace : Path) (activeFile : Option Path) :
    List Event × Except Failure Path :=
  match t.isFolder workspace with
  | .error e => ([], .error (.system e))
  | .ok false => ([], .error (.problem (.notAFolder workspace)))
  | .ok true =>
    match firstProject? t (places t workspace activeFile) with
    | (events, some folder) => (events, .ok folder)
    | (events, none) => (events ++ [.noProjectFile workspace.toText], .ok workspace)

/-- The names that lead to a path from the top, each step `..` taken back. -/
def absolute (t : Tree) (p : Path) : Location :=
  p.steps.foldl (fun l step => if step == ['.', '.'] then l.dropLast else l ++ [step]) (t.origin p)

/-- The name of a project: its project file without the ending, or else its folder. -/
def name (t : Tree) (project : Path) : List Event × Text :=
  match projectFile? t project with
  | (events, some file) => (events, file.stem)
  | (events, none) => (events, ((absolute t project).getLast?).getD [])

/-- A name as a piece of a namespace: characters that are not word characters become underscores,
and a leading digit gets one in front. -/
def namespacePiece (t : Text) : Text :=
  let clean := t.map fun c => if Text.isWord c then c else '_'
  if clean.head?.any Text.isDigitLike then '_' :: clean else clean

def rootNamespace (projectName : Text) : Text :=
  let pieces := ((Text.splitAt '.' projectName).filter (!·.isEmpty)).map namespacePiece
  if pieces.isEmpty then "App".toList else Text.join ['.'] pieces

end RazorViews.Project
