import RazorViews.CommandLine.Command
import RazorViews.Controller.Detect
import RazorViews.Declaration
import RazorViews.Settings.Environment
import RazorViews.Settings.File
import RazorViews.Table
import RazorViews.View.Directive

/-!
Running a command: what it does to the files, what it prints, and its exit status.
-/

namespace RazorViews

/-- The tone in which a line is printed. -/
inductive Tone where
  | plain
  | good
  | warning
  | bad
deriving DecidableEq, Repr

/-- The style of a tone, if it has one. -/
def Tone.style : Tone → Option String
  | plain => none
  | good => some "bold green"
  | warning => some "bold yellow"
  | bad => some "bold red"

/-- Something that is printed. -/
inductive Printed where
  | line (tone : Tone) (t : Text)
  | table (t : Table)
  | gap
deriving DecidableEq, Repr

/-- A line with its style marked up around it. -/
def Printed.markup (tone : Tone) (t : Text) : Text :=
  match tone.style with
  | some style => '[' :: style.toList ++ ']' :: t ++ '[' :: '/' :: style.toList ++ [']']
  | none => t

/-- What a command leaves for the user: an exit status, and what is printed. -/
structure Reply where
  status : Nat
  printed : List Printed
deriving DecidableEq, Repr

namespace Reply

def done (printed : List Printed) : Reply := ⟨0, printed⟩

def failed (t : Text) : Reply := ⟨1, [.line .bad t]⟩

/-- The reply to a command line without a command to run. -/
def ofStop : CommandLine.Stop → Reply
  | .help => ⟨0, []⟩
  | .misuse => ⟨2, []⟩

/-- What the user is told about a failure, unless it is one that ends the program. -/
def failureText? : Failure → Option Text
  | .problem p => some p.message
  | .invalid _ => some "ValidationError".toList
  | .undecodable d => some d.text
  | .tooManyDigits digits => some (Failure.digitsText Number.maxDigits digits)
  | .system e => if e.cause == .nulInName then some e.text else none
  | other => other.complaint?

end Reply

namespace Command

/-! ## Files of the user -/

/-- Why a file of the user cannot be used. -/
inductive Refusal where
  /-- The system refuses to read it. -/
  | unreadable (e : SystemError)
  /-- It can be read but not used. -/
  | unusable (failure : Failure)

/-- Reads a text file of the user; a byte order mark is dropped. -/
def readText (t : Tree) (file : Path) : Except Refusal Text :=
  match t.contents file with
  | .error e =>
    if e.cause == .nulInName then .error (.unusable (.system e)) else .error (.unreadable e)
  | .ok bytes =>
    match Utf8.decode (Utf8.dropMark bytes) with
    | .ok text => .ok (Utf8.unifyLineEnds text)
    | .error d => .error (.unusable (.undecodable d))

/-- The reply when a file of the user cannot be read. -/
def cannotRead (what : String) (file : Path) (e : SystemError) : Reply :=
  .failed ("Cannot read ".toList ++ what.toList ++ ' ' :: file.toText ++ ':' :: ' ' :: e.text)

/-- The session after a step, and the reply to what came of it. -/
def replyWith {α : Type} (reply : α → Reply) :
    Session × Except Failure α → Session × Except Failure Reply
  | (s, .ok a) => (s, .ok (reply a))
  | (s, .error failure) => (s, .error failure)

/-! ## A single view -/

/-- The text, unless it is missing or empty; then another one. -/
def orOther (t : Option Text) (other : Text) : Text :=
  match t with
  | some t => if t.isEmpty then other else t
  | none => other

/-- The controller and the action of a request, once its source file is taken into account. -/
def controllerOf (r : ViewCommand) : Option Controller → Text × Text
  | none => (r.controller.getD [], r.action.getD [])
  | some found => (orOther r.controller found.name, orOther r.action found.action)

def optionsOf (r : ViewCommand) (controller action : Text) (activeFile : Option Text) :
    ViewOptions :=
  { workspace := r.workspace
    controller := controller
    action := if action.isEmpty then Controller.defaultAction else action
    kind := r.kind
    modelType := r.modelType
    layout := r.layout
    activeFile := activeFile
    overwrite := r.overwrite }

def writeView (settings : Settings) (r : ViewCommand) (found : Option Controller)
    (activeFile : Option Text) (s : Session) : Session × Except Failure Reply :=
  let (controller, action) := controllerOf r found
  if controller.isEmpty then
    (s, .ok (.failed
      "A controller name is required (--controller or --controller-file)".toList))
  else
    let options := optionsOf r controller action activeFile
    match options.emptyNameFaults with
    | [] =>
      replyWith
        (fun path => .done [.line .good ("View ".toList ++ path.name ++ " created at ".toList ++
          path.toText)])
        (Generation.view settings options s)
    | faults => (s, .error (.invalid faults))

def runView (settings : Settings) (r : ViewCommand) (s : Session) :
    Session × Except Failure Reply :=
  let fileText := r.controllerFile.getD []
  if fileText.isEmpty then writeView settings r none none s
  else
    let file := Path.ofText fileText
    match readText s.tree file with
    | .error (.unreadable e) => (s, .ok (cannotRead "controller file" file e))
    | .error (.unusable failure) => (s, .error failure)
    | .ok source =>
      writeView settings r (some (Controller.detect source file.name r.cursor))
        (some file.toText) s

/-! ## Several views -/

def filesReply (workspace : Text) (title message : Text) (files : List Path) : Reply :=
  .done [.table (Table.ofFiles files (Path.ofText workspace) title), .gap, .line .good message]

def runModelViews (settings : Settings) (r : ModelViews) (s : Session) :
    Session × Except Failure Reply :=
  replyWith
    (filesReply r.workspace "CRUD views".toList
      ("CRUD views for ".toList ++ r.modelType ++ " created successfully".toList))
    (Generation.modelViews settings r s)

def runShared (settings : Settings) (workspace : Text) (s : Session) :
    Session × Except Failure Reply :=
  replyWith
    (filesReply workspace "Default MVC templates".toList
      "Default MVC templates created successfully!".toList)
    (Generation.shared settings workspace none s)

/-! ## Looking -/

def propertiesReply (modelType root : Text) (properties : List Property) : Reply :=
  if properties.isEmpty then
    .done [.line .warning ("No properties found for ".toList ++ modelType ++ " under ".toList ++
      root)]
  else .done [.table (Table.ofProperties properties modelType)]

def runProperties (settings : Settings) (modelType root : Text) (s : Session) :
    Session × Except Failure Reply :=
  replyWith (propertiesReply modelType root) (s.extract settings.search modelType root)

def locateType (settings : Settings) (modelType root : Text) (s : Session) :
    Session × Except Failure Reply :=
  let (events, found) := Declaration.find settings.search s.tree modelType root
  replyWith
    (fun place => .done [.line .plain (place.path ++ ':' :: Text.ofNat place.line)])
    (s.tell events, found)

/-- Finds the declaration of a type, or of the type that a view names. -/
def runLocate (settings : Settings) (modelType : Text) (view : Option Text) (root : Text)
    (s : Session) : Session × Except Failure Reply :=
  let viewText := view.getD []
  if viewText.isEmpty then locateType settings modelType root s
  else
    let file := Path.ofText viewText
    match readText s.tree file with
    | .error (.unreadable e) => (s, .ok (cannotRead "view" file e))
    | .error (.unusable failure) => (s, .error failure)
    | .ok source =>
      match Directive.modelType? source with
      | some type => locateType settings type root s
      | none => (s, .ok (.failed ("No @model directive found in ".toList ++ file.toText)))

/-! ## Commands -/

def run (settings : Settings) (command : Command) (s : Session) :
    Session × Except Failure Reply :=
  match command with
  | .view r => runView settings r s
  | .modelViews r => runModelViews settings r s
  | .shared workspace => runShared settings workspace s
  | .properties modelType root => runProperties settings modelType root s
  | .locate modelType viewFile root => runLocate settings modelType viewFile root s

end Command

namespace Invocation

/-- The settings of a run: from the file that is named, or else from the environment. -/
def settings (i : Invocation) (environment : Settings.Environment) (t : Tree) :
    Except Failure Settings := do
  let file := i.settingsFile.getD []
  let settings ←
    if file.isEmpty then Settings.ofEnvironment environment else Settings.load t (Path.ofText file)
  return if i.verbose then { settings with enableLogging := true } else settings

/-- What running the program comes to. -/
structure Outcome where
  tree : Tree
  /-- What the user is shown of what happened. -/
  events : List Event
  /-- The reply, unless a failure that nobody expects ends the program. -/
  reply : Except Failure Reply

/-- What the user gets when a command fails. -/
def replyTo (failure : Failure) : Except Failure Reply :=
  match Reply.failureText? failure with
  | some text => .ok (.failed ("Error: ".toList ++ text))
  | none => .error failure

def runUnder (settings : Settings) (i : Invocation) (t : Tree) : Outcome :=
  let (s, result) := Command.run settings i.command (Session.ofTree t settings.cache)
  { tree := s.tree
    events := s.events.filter (Event.isShown settings.enableLogging)
    reply := match result with
      | .ok reply => .ok reply
      | .error failure => replyTo failure }

/-- Runs the program on files. -/
def run (arguments : List Text) (environment : Settings.Environment) (t : Tree) : Outcome :=
  match ofArguments arguments with
  | .error stop => ⟨t, [], .ok (.ofStop stop)⟩
  | .ok i =>
    match i.settings environment t with
    | .error _ => ⟨t, [], .ok (.failed "Error: cannot load configuration".toList)⟩
    | .ok settings => runUnder settings i t

end Invocation

end RazorViews
