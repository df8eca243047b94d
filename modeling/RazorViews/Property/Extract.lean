import RazorViews.Event
import RazorViews.Failure
import RazorViews.Property.Basic
import RazorViews.Property.Metadata
import RazorViews.Property.Rules

/-!
From the source of a class to its properties.

The source is erased, the class located, its candidates recognized; those that no rule leaves out
are classified, and what their annotations say is added.  A class that the source does not declare
is looked for nowhere: then the members of all its classes count.
-/

namespace RazorViews.Property

/-- The faults of a property that has no name or no type. -/
def emptyFaults (name declaredType : Text) : List Fault :=
  (if name.isEmpty then [⟨["name".toList], .textTooShort⟩] else []) ++
    if declaredType.isEmpty then [⟨["declared_type".toList], .textTooShort⟩] else []

/-- Nothing is known about how to enter a property of this type with these annotations. -/
def hasNoInputKind (declaredType : Text) (attributes : List Text) : Bool :=
  (InputKind.ofAttributes? attributes).isNone && (InputKind.ofType? declaredType).isNone

/-- The property that a kept candidate stands for. -/
def ofCandidate (c : Candidate) (className : Text) : List Event × Except Failure Property :=
  let flags := Rules.classify c
  match Metadata.ofAttributes c.attributes with
  | .error digits => ([], .error (.tooManyDigits digits))
  | .ok metadata =>
    let events :=
      if hasNoInputKind flags.declaredType c.attributes then
        [Event.noInputKind className c.name flags.declaredType]
      else []
    match emptyFaults c.name flags.declaredType with
    | [] =>
      (events, .ok {
        name := c.name
        declaredType := flags.declaredType
        isNullable := flags.isNullable
        isPrimaryKey := flags.isPrimaryKey
        isRequired := flags.isRequired
        attributes := c.attributes
        inputKind := InputKind.resolve flags.declaredType c.attributes
        displayName := metadata.displayName
        description := metadata.description
        maxLength := metadata.maxLength
        minLength := metadata.minLength })
    | faults => (events, .error (.invalid faults))

/-- The properties that candidates stand for, in order; those that a rule leaves out give none.
The first failure ends the extraction. -/
def ofCandidates (skipIdentity : Bool) (className : Text) :
    List Candidate → List Event × Except Failure (List Property)
  | [] => ([], .ok [])
  | c :: rest =>
    match Rules.skipReason? c skipIdentity with
    | some reason =>
      let (events, result) := ofCandidates skipIdentity className rest
      (.skipped className c.name reason.name :: events, result)
    | none =>
      match ofCandidate c className with
      | (events, .error failure) => (events, .error failure)
      | (events, .ok p) =>
        let (more, result) := ofCandidates skipIdentity className rest
        (events ++ more, result.map (p :: ·))

/-- What is to be said about the region of a class. -/
def regionEvents (className : Text) : Option ClassRegion → List Event
  | none => [.classNotDeclared className]
  | some region => if region.balanced then [] else [.classUnbalanced className]

def candidates (source className : Text) : List Candidate :=
  let erased := Source.erase source
  Member.recognize erased (some source) (ClassRegion.locate? erased className)

def extract (skipIdentity : Bool) (source className : Text) :
    List Event × Except Failure (List Property) :=
  let region := ClassRegion.locate? (Source.erase source) className
  let (events, result) := ofCandidates skipIdentity className (candidates source className)
  let last := match result with
    | .ok [] => [Event.nothingRecognized className]
    | _ => []
  (regionEvents className region ++ events ++ last, result)

end RazorViews.Property
