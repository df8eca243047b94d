import RazorViews.Failure
import RazorViews.Json.Reader
import RazorViews.Json.Writer
import RazorViews.Settings.Basic
import RazorViews.Workspace.Tree

/-!
Settings in files, as JSON documents.
-/

namespace RazorViews.Settings

def ofText (t : Text) : Checked Settings :=
  match Json.read? t with
  | some document => check document
  | none => .fault .notJson

def toText (s : Settings) : Text := s.toJson.write

/-- Loads settings from a file, which has to be UTF-8 without a byte order mark. -/
def load (tree : Tree) (file : Path) : Except Failure Settings :=
  match tree.contents file with
  | .error e => .error (.system e)
  | .ok bytes =>
    match Utf8.decode bytes with
    | .error d => .error (.undecodable d)
    | .ok t =>
      match ofText (Utf8.unifyLineEnds t) with
      | .good s => .ok s
      | .bad faults => .error (.invalid faults)

def save (s : Settings) (tree : Tree) (file : Path) : Tree × Except SystemError Unit :=
  tree.storeFile file (Utf8.encode s.toText)

end RazorViews.Settings
