import RazorViews.Session
import RazorViews.View.Template
import RazorViews.Workspace.Project

/-!
Writing views into a project.

A view of an action lies in the folder of its controller, which lies in the folder of views of the
project; the pages that all views share lie in that folder too.  Folders are made as they are
needed.
-/

namespace RazorViews.Generation

/-! ## Places -/

def ending : Text := ".cshtml".toList

def viewFolder (settings : Settings) (project : Path) : Path := project.child settings.viewFolder

/-- The file of the view of an action. -/
def viewFile (settings : Settings) (project : Path) (controller action : Text) : Path :=
  ((viewFolder settings project).child controller).child (action ++ ending)

/-! ## Writing -/

/-- The failure to write a file. -/
def writeFailure (target : Path) (e : SystemError) : Failure :=
  if e.cause == .nulInName then .system e else .problem (.cannotWrite target e)

def writePage (target : Path) (page : Except Failure Text) (s : Session) :
    Session × Except Failure Path :=
  match page with
  | .error failure => (s, .error failure)
  | .ok text =>
    match s.tree.storeFile target (Utf8.encode text) with
    | (tree, .ok ()) => ({ s with tree := tree }, .ok target)
    | (tree, .error e) => ({ s with tree := tree }, .error (writeFailure target e))

/-- The properties of a model below a project; without a model there are none. -/
def propertiesOf (settings : Settings) (project : Path) (modelType : Text) (s : Session) :
    Session × Except Failure (List Property) :=
  if (Text.trim modelType).isEmpty then (s, .ok [])
  else s.extract settings.search modelType project.toText

/-- Writes a view, unless it is there already and must not be replaced. -/
def writeView (settings : Settings) (project : Path) (options : ViewOptions)
    (properties : List Property) (s : Session) : Session × Except Failure Path :=
  let target := viewFile settings project options.controller options.action
  match s.tree.isThere target with
  | .error e => (s, .error (.system e))
  | .ok there =>
    if there && !options.overwrite then (s, .error (.problem (.viewExists target)))
    else
      let (events, projectName) := Project.name s.tree project
      let context := Context.ofView settings options properties projectName
      match writePage target (Page.ofView options.kind context) (s.tell events) with
      | (written, .ok path) => (written.tell [.generated path.toText], .ok path)
      | (unchanged, .error failure) => (unchanged, .error failure)

/-! ## One view -/

def view (settings : Settings) (options : ViewOptions) (s : Session) :
    Session × Except Failure Path :=
  let (events, found) := Project.root s.tree (Path.ofText options.workspace)
    (options.activeFile.map Path.ofText)
  match found with
  | .error failure => (s.tell events, .error failure)
  | .ok project =>
    match propertiesOf settings project (options.modelType.getD []) (s.tell events) with
    | (s, .error failure) => (s, .error failure)
    | (s, .ok properties) => writeView settings project options properties s

end Generation

/-! ## The views for a model -/

/-- What is asked of the views for a model. -/
structure ModelViews where
  workspace : Text
  modelType : Text
  /-- The controller, or nothing for the plural of the model. -/
  controller : Option Text
  /-- The layout, if one is asked for; an empty one asks for none. -/
  layout : Option Text
  /-- Views that are there already are replaced. -/
  overwrite : Bool
deriving DecidableEq, Repr

namespace ModelViews

def modelName (r : ModelViews) : Text := TypeName.className r.modelType

/-- The controller of the views: the one asked for, or else the plural of the model. -/
def controllerName (r : ModelViews) : Text :=
  match r.controller with
  | some name => if name.isEmpty then Wording.plural r.modelName else name
  | none => Wording.plural r.modelName

def options (r : ModelViews) (kind : ViewKind) : ViewOptions :=
  { workspace := r.workspace
    controller := r.controllerName
    action := kind.action
    kind := kind
    modelType := some r.modelType
    layout := r.layout
    activeFile := none
    overwrite := r.overwrite }

end ModelViews

namespace Generation

/-- Writes the views of several kinds, in order, up to the first failure. -/
def writeViews (settings : Settings) (project : Path) (request : ModelViews)
    (properties : List Property) : List ViewKind → Session → Session × Except Failure (List Path)
  | [], s => (s, .ok [])
  | kind :: kinds, s =>
    let options := request.options kind
    match options.emptyNameFaults with
    | [] =>
      match writeView settings project options properties s with
      | (s, .error failure) => (s, .error failure)
      | (s, .ok path) =>
        let (s, result) := writeViews settings project request properties kinds s
        (s, result.map (path :: ·))
    | faults => (s, .error (.invalid faults))

/-- Writes the views for a model, whose properties are extracted once. -/
def modelViews (settings : Settings) (request : ModelViews) (s : Session) :
    Session × Except Failure (List Path) :=
  if (Text.trim request.modelType).isEmpty then (s, .error .noModelType)
  else
    let (events, found) := Project.root s.tree (Path.ofText request.workspace) none
    match found with
    | .error failure => (s.tell events, .error failure)
    | .ok project =>
      match propertiesOf settings project request.modelType (s.tell events) with
      | (s, .error failure) => (s, .error failure)
      | (s, .ok properties) =>
        match writeViews settings project request properties ViewKind.forModel s with
        | (s, .error failure) => (s, .error failure)
        | (s, .ok paths) => (s.tell [.scaffolded paths.length request.modelName], .ok paths)

/-! ## The shared pages -/

/-- The pages that the views of a project share, and where they lie in the folder of views. -/
def sharedPages : List (Template × List String) :=
  [(.viewStart, ["_ViewStart.cshtml"]), (.viewImports, ["_ViewImports.cshtml"]),
   (.layout, ["Shared", "_Layout.cshtml"]), (.error, ["Shared", "Error.cshtml"])]

def writePages (folder : Path) (context : Context) :
    List (Template × List String) → Session → Session × Except Failure (List Path)
  | [], s => (s, .ok [])
  | (template, steps) :: pages, s =>
    let target := folder.append ⟨.here, steps.map String.toList⟩
    match writePage target (template.page context) s with
    | (s, .error failure) => (s, .error failure)
    | (s, .ok path) =>
      let (s, result) := writePages folder context pages s
      (s, result.map (path :: ·))

def shared (settings : Settings) (workspace : Text) (activeFile : Option Text) (s : Session) :
    Session × Except Failure (List Path) :=
  let (events, found) := Project.root s.tree (Path.ofText workspace) (activeFile.map Path.ofText)
  match found with
  | .error failure => (s.tell events, .error failure)
  | .ok project =>
    let (more, projectName) := Project.name s.tree project
    let context :=
      Context.ofProject projectName (Project.rootNamespace projectName) settings.layoutName
    writePages (viewFolder settings project) context sharedPages (s.tell (events ++ more))

end Generation

end RazorViews
