import RazorViews.Validation.Field

/-!
What is asked of a view.
-/

namespace RazorViews

inductive ViewKind where
  /-- A page that only says where it is. -/
  | empty
  /-- A table of all instances of the model. -/
  | index
  /-- A form for a new instance. -/
  | create
  /-- A form for an instance. -/
  | edit
  /-- The values of an instance. -/
  | details
  /-- The values of an instance, with the question whether to delete it. -/
  | delete
deriving DecidableEq, Repr

namespace ViewKind

def name : ViewKind → String
  | empty => "empty"
  | index => "index"
  | create => "create"
  | edit => "edit"
  | details => "details"
  | delete => "delete"

def all : List ViewKind := [empty, index, create, edit, details, delete]

def ofName? (t : Text) : Option ViewKind := all.find? fun k => k.name.toList == t

/-- The kinds that together show and change the instances of a model, in the order in which their
views are written. -/
def forModel : List ViewKind := [index, create, edit, details, delete]

/-- The action that a view of a kind is for, when it is one of the views for a model. -/
def action : ViewKind → Text
  | empty => "Empty".toList
  | index => "Index".toList
  | create => "Create".toList
  | edit => "Edit".toList
  | details => "Details".toList
  | delete => "Delete".toList

end ViewKind

structure ViewOptions where
  /-- The folder in which the project is looked for; not empty. -/
  workspace : Text
  /-- The controller, without its suffix; not empty. -/
  controller : Text
  /-- The action, which is also the name of the view; not empty. -/
  action : Text
  kind : ViewKind
  modelType : Option Text
  /-- The layout, if one is asked for; an empty one asks for none. -/
  layout : Option Text
  /-- The file that is open in the editor, if one is. -/
  activeFile : Option Text
  /-- A view that is there already is replaced. -/
  overwrite : Bool
deriving DecidableEq, Repr

namespace ViewOptions

def check (document : Json) : Checked ViewOptions :=
  (Field.members document).andThen fun given =>
    ViewOptions.mk <$> Field.required given "workspace_path" Field.nonEmptyText
      <*> Field.required given "controller_name" Field.nonEmptyText
      <*> Field.required given "action_name" Field.nonEmptyText
      <*> Field.defaulting given "template_type" .empty (Field.choice ViewKind.ofName?)
      <*> Field.defaulting given "model_type" none (Field.optional Field.text)
      <*> Field.defaulting given "layout_page" none (Field.optional Field.text)
      <*> Field.defaulting given "active_file" none (Field.optional Field.text)
      <*> Field.defaulting given "overwrite" true Field.flag

def fields (o : ViewOptions) : List (String × Json) :=
  [("workspace_path", .text o.workspace), ("controller_name", .text o.controller),
   ("action_name", .text o.action), ("template_type", .literal o.kind.name),
   ("model_type", .ofOption .text o.modelType), ("layout_page", .ofOption .text o.layout),
   ("active_file", .ofOption .text o.activeFile), ("overwrite", .bool o.overwrite)]

/-- The faults of options whose names are empty, in the order of the fields. -/
def emptyNameFaults (o : ViewOptions) : List Fault :=
  [("workspace_path", o.workspace), ("controller_name", o.controller),
   ("action_name", o.action)].filterMap fun (key, t) =>
    if t.isEmpty then some ⟨[key.toList], .textTooShort⟩ else none

end ViewOptions

end RazorViews
