import RazorViews.Property.Basic
import RazorViews.Settings.Basic
import RazorViews.Source.TypeName
import RazorViews.View.Options
import RazorViews.View.Value

/-!
What a page is told about its view.

A context is a list of values under names.  The context of a view comes from its options, the
settings and the properties of its model; the context of the pages that all views share comes from
the project.
-/

namespace RazorViews

/-- Values under names. -/
abbrev Context := List (Text × Json)

namespace Context

def get? (context : Context) (name : String) : Value := context.lookup name.toList

def ofProperty (p : Property) : Json :=
  .record (p.fields ++ [("input_type", .text p.inputKind.name), ("label", .text p.label)])

/-- The layout of a view: the one asked for, or else the default; an empty one is none. -/
def layoutOf (settings : Settings) (options : ViewOptions) : Option Text :=
  (options.layout.or settings.defaultLayout?).filter (!·.isEmpty)

/-- The type of the model of a view, empty if it has none. -/
def modelOf (options : ViewOptions) : Text := options.modelType.getD []

def ofView (settings : Settings) (options : ViewOptions) (properties : List Property)
    (projectName : Text) : Context :=
  [("action_name".toList, .text options.action),
   ("controller_name".toList, .text options.controller),
   ("model".toList, .text (modelOf options)),
   ("model_name".toList, .text (TypeName.className (modelOf options))),
   ("layout_page".toList, .ofOption .text (layoutOf settings options)),
   ("properties".toList, .list (properties.map ofProperty)),
   ("primary_key_property".toList, .ofOption .text (Property.primaryKey? properties)),
   ("project_name".toList, .text projectName)]

def ofProject (projectName rootNamespace layoutName : Text) : Context :=
  [("project_name".toList, .text projectName),
   ("root_namespace".toList, .text rootNamespace),
   ("layout_name".toList, .text layoutName)]

end Context

end RazorViews
