import RazorViews.Workspace.SystemError

/-!
What happens on the way to a result, for those who watch.

An event is a fact; its level, the part of the program it comes from and its wording are functions
of it.
-/

namespace RazorViews

/-- How much an event matters. -/
inductive Level where
  | debug
  | info
  | warning
deriving DecidableEq, Repr

inductive Origin where
  | extraction
  | cache
  | navigation
  | project
  | generation
deriving DecidableEq, Repr

/-- Something that happened. -/
inductive Event where
  | noClassName (typeName : Text)
  | searchRefused (root className : Text) (e : SystemError)
  | noSourceFile (className root : Text)
  | cacheHit (typeName path : Text)
  /-- A model file cannot be read, for an extraction. -/
  | unreadableModel (path : Text) (e : SystemError)
  | classNotDeclared (className : Text)
  | classUnbalanced (className : Text)
  /-- A candidate is left out. -/
  | skipped (className member reason : Text)
  /-- No table knows how to enter a property. -/
  | noInputKind (className member declaredType : Text)
  | nothingRecognized (className : Text)
  /-- A cached entry is dropped, because its file cannot be asked for its time. -/
  | droppedWithoutFile (typeName path error : Text)
  | droppedChanged (typeName path : Text)
  | droppedExpired (typeName : Text)
  /-- A result is not cached, because its file cannot be asked for its time. -/
  | notCached (typeName path error : Text)
  | evicted (typeName : Text)
  | swept (removed : Nat)
  /-- A model file cannot be read, to find the line of a class. -/
  | unreadableDeclaration (path : Text) (e : SystemError)
  /-- A folder that may hold a project file cannot be looked into. -/
  | cannotList (folder : Text) (e : SystemError)
  | noProjectFile (root : Text)
  | generated (path : Text)
  | scaffolded (count : Nat) (modelName : Text)
deriving DecidableEq, Repr

namespace Event

def level : Event → Level
  | noClassName .. | searchRefused .. | unreadableModel .. | unreadableDeclaration .. => .warning
  | generated .. | scaffolded .. => .info
  | _ => .debug

def origin : Event → Origin
  | noClassName .. | searchRefused .. | noSourceFile .. | cacheHit .. | unreadableModel ..
  | classNotDeclared .. | classUnbalanced .. | skipped .. | noInputKind ..
  | nothingRecognized .. => .extraction
  | droppedWithoutFile .. | droppedChanged .. | droppedExpired .. | notCached .. | evicted ..
  | swept .. => .cache
  | unreadableDeclaration .. => .navigation
  | cannotList .. | noProjectFile .. => .project
  | generated .. | scaffolded .. => .generation

/-- The event is shown to the user: a warning always, anything else only on request. -/
def isShown (everything : Bool) (e : Event) : Bool := everything || e.level == .warning

def text : Event → Text
  | noClassName typeName =>
    "Cannot derive a class name from ".toList ++ Quoted.encode typeName
  | searchRefused root className e =>
    "Cannot search ".toList ++ root ++ " for ".toList ++ className ++ ": ".toList ++ e.text
  | noSourceFile className root =>
    "No source file found for ".toList ++ className ++ " under ".toList ++ root
  | cacheHit typeName path =>
    "Cache hit for ".toList ++ typeName ++ " (".toList ++ path ++ ")".toList
  | unreadableModel path e => "Cannot read model file ".toList ++ path ++ ": ".toList ++ e.text
  | classNotDeclared className =>
    "Class ".toList ++ className ++ " not declared in source; scanning whole text".toList
  | classUnbalanced className =>
    "Class ".toList ++ className ++ " body is unbalanced; scanning to end of text".toList
  | skipped className member reason =>
    "Skipping ".toList ++ className ++ '.' :: member ++ " (".toList ++ reason ++ ")".toList
  | noInputKind className member declaredType =>
    "No input kind for ".toList ++ className ++ '.' :: member ++ " of type ".toList ++
      declaredType ++ "; rendering as text".toList
  | nothingRecognized className => "No properties recognized for ".toList ++ className
  | droppedWithoutFile typeName path error =>
    "Dropping cached ".toList ++ typeName ++ ": cannot stat ".toList ++ path ++ " (".toList ++
      error ++ ")".toList
  | droppedChanged typeName path =>
    "Dropping cached ".toList ++ typeName ++ ": ".toList ++ path ++ " changed on disk".toList
  | droppedExpired typeName => "Dropping cached ".toList ++ typeName ++ ": entry expired".toList
  | notCached typeName path error =>
    "Not caching ".toList ++ typeName ++ ": cannot stat ".toList ++ path ++ " (".toList ++
      error ++ ")".toList
  | evicted typeName => "Cache full, evicted ".toList ++ typeName
  | swept removed =>
    "Cache sweep removed ".toList ++ Text.ofNat removed ++ " expired entries".toList
  | unreadableDeclaration path e => "Cannot read ".toList ++ path ++ ": ".toList ++ e.text
  | cannotList folder e => "Cannot list ".toList ++ folder ++ ": ".toList ++ e.text
  | noProjectFile root =>
    "No .csproj found under ".toList ++ root ++ "; using the workspace".toList
  | generated path => "Generated ".toList ++ path
  | scaffolded count modelName =>
    "Scaffolded ".toList ++ Text.ofNat count ++ " CRUD views for ".toList ++ modelName

end Event

end RazorViews
