import RazorViews.View.Page
import RazorViews.Workspace.Tree

/-!
Templates, the pages under the names by which they are asked for.

A template lies in a folder of templates, in a file of its name with the ending `.cshtml.j2`.
-/

namespace RazorViews

/-- The templates that come with the program. -/
inductive Template where
  | view (kind : ViewKind)
  | viewStart
  | viewImports
  | layout
  | error
  /-- The definitions that pages with properties share; they print nothing by themselves. -/
  | fragments
deriving DecidableEq, Repr

namespace Template

def ending : Text := ".cshtml.j2".toList

/-- All templates, in the order of their paths. -/
def all : List Template :=
  [error, layout, viewImports, viewStart] ++
    [ViewKind.create, .delete, .details, .edit, .empty, .index].map view ++ [fragments]

def name : Template → String
  | view kind => kind.name
  | viewStart => "_ViewStart"
  | viewImports => "_ViewImports"
  | layout => "_Layout"
  | error => "Error"
  | fragments => "macros/view"

/-- The names that lead to the file of a template from the folder of templates. -/
def steps : Template → List Text
  | fragments => ["macros".toList, "view.j2".toList]
  | template => [template.name.toList ++ ending]

/-- What a template prints for a context. -/
def page : Template → Context → Except Failure Text
  | view kind, context => Page.ofView kind context
  | viewStart, context => Page.ofPart Page.viewStart context "layout_name"
  | viewImports, context => Page.ofPart Page.viewImports context "root_namespace"
  | layout, context => Page.ofPart Page.layout context "project_name"
  | error, _ => .ok Page.error
  | fragments, _ => .ok ['\n', '\n']

/-! ## Asking for templates -/

/-- The path that a name stands for: the ending may be left out. -/
def pathOf (name : Text) : Text :=
  if name.endsWith ".j2".toList then name else name ++ ending

/-- How the folder of templates is written. -/
def folderText : Text := "<templates>".toList

/-- Why there is no template under a path: a path that leads upwards is not looked for at all. -/
def absenceText (path : Text) : Text :=
  if (Text.splitAt '/' path).contains ['.', '.'] then path
  else
    Quoted.encode path ++ " not found in search path: ".toList ++ Quoted.encode folderText

def ofName? (name : Text) : Option Template :=
  all.find? fun template => template.steps == Path.stepsOf (pathOf name)

/-- A name that a context must not use, since it stands for the page itself. -/
def reservedName : String := "self"

/-- Prints the template under a name. -/
def render (name : Text) (context : Context) : Except Failure Text :=
  match ofName? name with
  | none => .error (.problem (.noTemplate name (absenceText (pathOf name))))
  | some template =>
    if (context.lookup reservedName.toList).isSome then .error .wrongKind
    else template.page context

/-! ## Folders of templates -/

def isIn (t : Tree) (folder : Path) (name : Text) : Except SystemError Bool :=
  t.isFile (folder.child (name ++ ending))

/-- The names of the templates directly in a folder, in order. -/
def namesIn (t : Tree) (folder : Path) : Except SystemError (List Text) := do
  if ← t.isFolder folder then
    match t.resolve folder with
    | .error _ => return []
    | .ok l =>
      let names := (t.namesIn l).filter (·.endsWith ending)
      let bare := names.map fun name => name.take (name.length - ending.length)
      return bare.mergeSort fun a b => !Text.before b a
  else return []

/-- The folder of the templates that come with the program. -/
def folder : Path := ⟨.here, ["templates".toList]⟩

/-- A tree that holds the templates that come with the program. -/
def shelf : Tree :=
  let home : Location := ["program".toList]
  let place (steps : List Text) : Location := home ++ folder.steps ++ steps
  let folders := [home, place [], place ["macros".toList]]
  let bare := folders.foldl (fun t l => t.insert l .folder) (Tree.empty home)
  all.foldl (fun t template => t.insert (place template.steps) (.file [])) bare

end Template

end RazorViews
