import RazorViews.Controller.Parameter
import RazorViews.Workspace.Path

/-!
Which controller and which action the cursor is at, in the source of a controller.

The controller is named by the first class whose name ends in `Controller`, or else by the file.
The action is the one whose declaration starts nearest to the cursor; of two equally near the
earlier one.
-/

namespace RazorViews

/-- A controller and one of its actions. -/
structure Controller where
  name : Text
  action : Text
  nameSpace : Option Text
  returnType : Option Text
  parameters : List Parameter
deriving DecidableEq, Repr

namespace Controller

open Pattern

/-! ## Patterns -/

/-- Types that the methods of a controller return. -/
def resultTypes : List String :=
  ["IActionResult", "ActionResult", "ViewResult", "JsonResult", "ContentResult", "RedirectResult",
   "PartialViewResult"]

/-- A character of the list of base types. -/
def isBaseCharacter (c : Char) : Bool :=
  Text.isWord c || ['<', '>', ',', '.'].contains c || Text.isBlank c

def classHeader : Pattern :=
  lit "class" ++ blanks1 ++ keep "name" (word1 ++ lit "Controller") ++ blanks ++
  maybe (lit ":" ++ blanks ++ run1 isBaseCharacter) ++ blanks ++ one (· == '{')

def namespaceHeader : Pattern :=
  lit "namespace" ++ blanks1 ++ keep "name" (run1 fun c => Text.isWord c || c == '.')

/-- A result type, possibly inside a task and with a type argument. -/
def returned : Pattern :=
  maybe (lit "Task" ++ blanks ++ lit "<" ++ blanks) ++ firstOf (resultTypes.map lit) ++
  maybe (blanks ++ lit "<" ++ run (fun c => !(['<', '>', '(', ')'].contains c)) .most ++ lit ">") ++
  maybe (blanks ++ lit ">")

/-- The declaration of an action, up to the opening parenthesis of its parameters. -/
def actionHeader : Pattern :=
  maybe (firstOf [lit "public", lit "internal", lit "protected"] ++ blanks1) ++
  maybe (lit "async" ++ blanks1) ++ keep "type" returned ++ blanks1 ++ keep "name" word1 ++
  blanks ++ lit "("

/-! ## Detection -/

/-- The name without the ending `Controller`. -/
def dropSuffix (t : Text) : Text := (lit "Controller" ++ atEnd).replaceAll (fun _ => []) t

/-- The name of the controller that a file of this name would hold. -/
def nameOfFile (fileName : Text) : Text :=
  let name := (Path.ofText fileName).name
  dropSuffix (if (Text.lower name).endsWith ".cs".toList then name.take (name.length - 3) else name)

/-- How far a match starts from the cursor. -/
def distance (cursor : Int) (found : Found) : Nat := ((found.start : Int) - cursor).natAbs

/-- Of a match and those behind it, the nearest to the cursor, and the earliest of the nearest. -/
def nearestOf (cursor : Int) (best : Found) : List Found → Found
  | [] => best
  | found :: rest =>
    nearestOf cursor (if distance cursor found < distance cursor best then found else best) rest

/-- The action declared nearest to the cursor. -/
def nearestAction? (source : Text) (cursor : Int) : Option Found :=
  match actionHeader.findAll source with
  | [] => none
  | found :: rest => some (nearestOf cursor found rest)

def defaultAction : Text := "Index".toList

def nameIn (source fileName : Text) : Text :=
  match (classHeader.find? source).bind (·.kept? "name") with
  | some name => dropSuffix name
  | none => nameOfFile fileName

def namespaceIn? (source : Text) : Option Text :=
  (namespaceHeader.find? source).bind (·.kept? "name")

/-- The controller in a source file, and its action nearest to the cursor. -/
def detect (source fileName : Text) (cursor : Int) : Controller :=
  match nearestAction? source cursor with
  | none => ⟨nameIn source fileName, defaultAction, namespaceIn? source, none, []⟩
  | some found =>
    { name := nameIn source fileName
      action := (found.kept? "name").getD []
      nameSpace := namespaceIn? source
      returnType := (found.kept? "type").map Parameter.dropBlanks
      parameters := Parameter.readList
        (Parameter.listAt (source.drop (found.finish.offset - 1))) }

/-! ## Data -/

def check (document : Json) : Checked Controller :=
  (Field.members document).andThen fun given =>
    Controller.mk <$> Field.required given "controller_name" Field.text
      <*> Field.defaulting given "action_name" defaultAction Field.text
      <*> Field.defaulting given "namespace" none (Field.optional Field.text)
      <*> Field.defaulting given "return_type" none (Field.optional Field.text)
      <*> Field.defaulting given "parameters" [] (Field.tuple Parameter.check)

def fields (c : Controller) : List (String × Json) :=
  [("controller_name", .text c.name), ("action_name", .text c.action),
   ("namespace", .ofOption .text c.nameSpace), ("return_type", .ofOption .text c.returnType),
   ("parameters", .list (c.parameters.map fun p => .record p.fields))]

end Controller

end RazorViews
