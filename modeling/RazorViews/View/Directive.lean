import RazorViews.Text.Pattern

/-!
The model directive of a Razor view, which names the type of its model.
-/

namespace RazorViews.Directive

open Pattern

/-- A model directive: a dotted path, type arguments on the same line, a question mark. -/
def model : Pattern :=
  lit "@model" ++ blanks1 ++
  keep "type" (run1 (fun c => Text.isWord c || c == '.') ++
    maybe (lit "<" ++ run (fun c => c != '\r' && c != '\n') .most ++ lit ">") ++ maybe (lit "?"))

/-- The type that the first model directive of a view names. -/
def modelType? (view : Text) : Option Text := (model.find? view).bind (·.kept? "type")

end RazorViews.Directive
