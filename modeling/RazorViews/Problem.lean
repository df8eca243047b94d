import RazorViews.Json.Basic
import RazorViews.Workspace.Path
import RazorViews.Workspace.SystemError

/-!
Problems that are reported to the user.

A problem has a message of its own, a code for its kind, and the particulars that a program may
want: what it is about, and the text of the refusal that caused it, if one did.
-/

namespace RazorViews

/-- A problem that is reported to the user. -/
inductive Problem where
  /-- A problem of no particular kind. -/
  | general (message : Text) (code : Option Text) (particulars : List (Text × Json))
  | file (message path : Text) (cause : Option Text)
  | template (message name : Text) (cause : Option Text)
  | model (message modelType : Text) (cause : Option Text)
  | workspace (message path : Text)

namespace Problem

def message : Problem → Text
  | general message _ _ => message
  | file message _ _ => message
  | template message _ _ => message
  | model message _ _ => message
  | workspace message _ => message

def code : Problem → Option Text
  | general _ code _ => code
  | file .. => some "FILESYSTEM_ERROR".toList
  | template .. => some "TEMPLATE_ERROR".toList
  | model .. => some "MODEL_PARSING_ERROR".toList
  | workspace .. => some "PROJECT_DETECTION_ERROR".toList

/-- What the problem is about, under the name that suits its kind. -/
def subject : Problem → List (String × Text)
  | general .. => []
  | file _ path _ => [("path", path)]
  | template _ name _ => [("template_name", name)]
  | model _ modelType _ => [("model_type", modelType)]
  | workspace _ path => [("workspace_path", path)]

/-- The text of what caused the problem, for the kinds that have causes. -/
def cause : Problem → List (String × Json)
  | general .. => []
  | file _ _ cause => [("cause", .ofOption .text cause)]
  | template _ _ cause => [("cause", .ofOption .text cause)]
  | model _ _ cause => [("cause", .ofOption .text cause)]
  | workspace .. => []

/-- The particulars of a problem. -/
def particulars : Problem → List (Text × Json)
  | general _ _ particulars => particulars
  | p => (p.subject.map fun (key, t) => (key.toList, Json.text t)) ++
      p.cause.map fun (key, document) => (key.toList, document)

/-! ## The problems of this program -/

def viewExists (view : Path) : Problem :=
  file ("View ".toList ++ view.toText ++ " already exists".toList) view.toText none

def cannotWrite (view : Path) (e : SystemError) : Problem :=
  file ("Cannot write ".toList ++ view.toText ++ ": ".toList ++ e.text) view.toText (some e.text)

def noTemplate (name cause : Text) : Problem :=
  template ("Template ".toList ++ name ++ " not found".toList) name (some cause)

def invalidModelType (modelType : Text) : Problem :=
  model "Invalid model type".toList modelType none

def cannotSearch (root className modelType : Text) (e : SystemError) : Problem :=
  model ("Cannot search ".toList ++ root ++ " for ".toList ++ className ++ ".cs".toList) modelType
    (some e.text)

def noModelFile (className modelType : Text) : Problem :=
  model ("Model file ".toList ++ className ++ ".cs not found in workspace".toList) modelType none

def notAFolder (root : Path) : Problem :=
  workspace ("Workspace ".toList ++ root.toText ++ " is not a directory".toList) root.toText

end Problem

end RazorViews
