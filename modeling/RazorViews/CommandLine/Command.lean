import RazorViews.CommandLine.Grammar
import RazorViews.Generation
import RazorViews.Number.Reader

/-!
The commands of this program, and the grammar of their arguments.
-/

namespace RazorViews

/-- The arguments of the command for a single view. -/
structure ViewCommand where
  workspace : Text
  controller : Option Text
  action : Option Text
  /-- A source file to take the controller and the action from. -/
  controllerFile : Option Text
  cursor : Int
  kind : ViewKind
  modelType : Option Text
  layout : Option Text
  overwrite : Bool
deriving DecidableEq, Repr

inductive Command where
  | view (request : ViewCommand)
  | modelViews (request : ModelViews)
  | shared (workspace : Text)
  | properties (modelType root : Text)
  /-- Finds the declaration of a model: of the one that a view names, if a view is given. -/
  | locate (modelType : Text) (view : Option Text) (root : Text)
deriving DecidableEq, Repr

/-- A command, and what goes for all commands. -/
structure Invocation where
  /-- The file of the settings; without one they come from the environment. -/
  settingsFile : Option Text
  verbose : Bool
  command : Command
deriving DecidableEq, Repr

namespace Invocation

open CommandLine

/-! ## Grammars -/

def helpRule : OptionRule := ⟨["-h".toList, "--help".toList], .help, "help"⟩

def valueRule (name key : String) : OptionRule := ⟨[name.toList], .value fun _ => true, key⟩

def flagRule (name key : String) : OptionRule := ⟨[name.toList], .flag, key⟩

def wordPlace (key : String) : WordPlace := ⟨.one, key⟩

/-- The options for the layout, and for keeping views that are there. -/
def writingRules : List OptionRule :=
  [valueRule "--layout" "layout", flagRule "--no-layout" "no-layout",
   flagRule "--no-overwrite" "no-overwrite"]

/-- A layout, or none: not both. -/
def layoutExclusion : Exclusion := ⟨["layout", "no-layout"], false⟩

def isWhole (t : Text) : Bool := (Number.readInt? t).isSome

def isKind (t : Text) : Bool := (ViewKind.ofName? t).isSome

def viewGrammar : Grammar :=
  { options :=
      [helpRule, valueRule "--controller" "controller", valueRule "--action" "action",
       valueRule "--controller-file" "controller-file",
       ⟨["--cursor".toList], .value isWhole, "cursor"⟩,
       ⟨["--template".toList], .value isKind, "template"⟩,
       valueRule "--model" "model"] ++ writingRules
    places := [wordPlace "workspace"]
    exclusions := [layoutExclusion] }

def modelViewsGrammar : Grammar :=
  { options := [helpRule, valueRule "--controller" "controller"] ++ writingRules
    places := [wordPlace "workspace", wordPlace "model"]
    exclusions := [layoutExclusion] }

def sharedGrammar : Grammar :=
  { options := [helpRule]
    places := [wordPlace "workspace"]
    exclusions := [] }

def propertiesGrammar : Grammar :=
  { options := [helpRule, valueRule "--root" "root"]
    places := [wordPlace "model"]
    exclusions := [] }

/-- The arguments of the command that finds a declaration: a model, or a view that names one. -/
def locateGrammar : Grammar :=
  { options := [helpRule, valueRule "--view" "view", valueRule "--root" "root"]
    places := [⟨.atMostOne, "model"⟩]
    exclusions := [⟨["model", "view"], true⟩] }

/-- The arguments in front of a command. -/
def grammar : Grammar :=
  { options :=
      [helpRule, valueRule "--config" "config",
       ⟨["--verbose".toList, "-v".toList], .flag, "verbose"⟩]
    places := [⟨.command, "command"⟩]
    exclusions := [] }

/-- The commands, each with the grammar of its arguments. -/
def grammars : List (String × Grammar) :=
  [("view", viewGrammar), ("crud", modelViewsGrammar), ("defaults", sharedGrammar),
   ("properties", propertiesGrammar), ("locate", locateGrammar)]

/-- No command stands inside a command. -/
def noCommands : Reading.Commands := fun _ => none

/-- How the arguments behind a command are read. -/
def commands : Reading.Commands := fun name =>
  (grammars.lookup (String.ofList name)).map fun g => g.read noCommands

/-! ## Commands -/

/-- What was given under a key, or nothing. -/
def textAt (r : Reading) (key : String) : Text := (r.value? key).getD []

/-- The layout that is asked for: none, one, or the default. -/
def layoutOf (r : Reading) : Option Text :=
  if r.has "no-layout" then some [] else r.value? "layout"

/-- The folder that is searched unless another is given. -/
def rootOf (r : Reading) : Text := (r.value? "root").getD ['.']

def viewOf (r : Reading) : ViewCommand :=
  { workspace := textAt r "workspace"
    controller := r.value? "controller"
    action := r.value? "action"
    controllerFile := r.value? "controller-file"
    cursor := ((r.value? "cursor").bind Number.readInt?).getD 0
    kind := ((r.value? "template").bind ViewKind.ofName?).getD .empty
    modelType := r.value? "model"
    layout := layoutOf r
    overwrite := !r.has "no-overwrite" }

def modelViewsOf (r : Reading) : ModelViews :=
  { workspace := textAt r "workspace"
    modelType := textAt r "model"
    controller := r.value? "controller"
    layout := layoutOf r
    overwrite := !r.has "no-overwrite" }

def commandOf? (r : Reading) : Option Command :=
  match String.ofList (textAt r "command") with
  | "view" => some (.view (viewOf r))
  | "crud" => some (.modelViews (modelViewsOf r))
  | "defaults" => some (.shared (textAt r "workspace"))
  | "properties" => some (.properties (textAt r "model") (rootOf r))
  | "locate" => some (.locate (textAt r "model") (r.value? "view") (rootOf r))
  | _ => none

def ofArguments (arguments : List Text) : Except Stop Invocation := do
  let r ← grammar.read commands arguments
  if r.unknown then throw .misuse
  match commandOf? r with
  | some command => return ⟨r.value? "config", r.has "verbose", command⟩
  | none => throw .misuse

end Invocation

end RazorViews
