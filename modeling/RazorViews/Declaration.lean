import RazorViews.Extraction

/-!
Where the class of a type is declared.
-/

namespace RazorViews

/-- A place in a source file. -/
structure Declaration where
  path : Text
  /-- The line, counted from one. -/
  line : Nat
deriving DecidableEq, Repr

namespace Declaration

/-- Checks data for a place. -/
def check (document : Json) : Checked Declaration :=
  (Field.members document).andThen fun given =>
    Declaration.mk <$> Field.required given "path" Field.text
      <*> Field.defaulting given "line" 1 (Field.wholeFrom 1)

def fields (d : Declaration) : List (String × Json) :=
  [("path", .text d.path), ("line", .ofNat d.line)]

/-- The line of source on which a class is declared; the first line if it is not. -/
def lineIn (source className : Text) : Nat :=
  match ClassRegion.locate? (Source.erase source) className with
  | some region => region.firstLine + 1
  | none => 1

/-- The place of a class in a file; the top of the file if that cannot be read. -/
def inFile (t : Tree) (className : Text) (file : Path) : List Event × Declaration :=
  match Extraction.readSource t file with
  | .ok source => ([], ⟨file.toText, lineIn source className⟩)
  | .error e => ([.unreadableDeclaration file.toText e], ⟨file.toText, 1⟩)

/-- The place below a folder where the class of a type is declared. -/
def find (settings : SearchSettings) (t : Tree) (typeName root : Text) :
    List Event × Except Failure Declaration :=
  let className := TypeName.className typeName
  if className.isEmpty then ([], .error (.problem (.invalidModelType typeName)))
  else
    match Search.find t settings className (Path.ofText root) with
    | .error e => ([], .error (.problem (.cannotSearch root className typeName e)))
    | .ok files =>
      match Search.select settings files with
      | none => ([], .error (.problem (.noModelFile className typeName)))
      | some file =>
        let (events, place) := inFile t className file
        (events, .ok place)

end Declaration

end RazorViews
