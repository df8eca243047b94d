import RazorViews.Property.Basic
import RazorViews.Workspace.Path

/-!
Tables for the user.
-/

namespace RazorViews

/-- A table: a title, the heads of its columns, and its rows. -/
structure Table where
  title : Text
  columns : List String
  rows : List (List Text)
deriving DecidableEq, Repr

namespace Table

/-- A word for a flag that is set, nothing for one that is not. -/
def mark (flag : Bool) : Text := if flag then "yes".toList else []

def boundText : Option Nat → Text
  | some n => Text.ofNat n
  | none => []

/-- The bounds on the length of a text, the lower one first. -/
def lengthText (p : Property) : Text :=
  if p.minLength.isNone && p.maxLength.isNone then []
  else boundText p.minLength ++ ['.', '.'] ++ boundText p.maxLength

def propertyRow (p : Property) : List Text :=
  [p.name, p.declaredType, p.inputKind.name, mark p.isPrimaryKey, mark p.isRequired, p.label,
   lengthText p]

def ofProperties (properties : List Property) (title : Text) : Table :=
  { title := title
    columns := ["Name", "Type", "Input", "Key", "Required", "Label", "Length"]
    rows := properties.map propertyRow }

/-- Rows with one more; a row of the same first cell is replaced. -/
def putRow (key value : Text) : List (Text × Text) → List (Text × Text)
  | [] => [(key, value)]
  | (k, v) :: rest => if k == key then (k, value) :: rest else (k, v) :: putRow key value rest

/-- The table of the files that were written, each by its name, with the path to it from a
folder. -/
def ofFiles (files : List Path) (folder : Path) (title : Text) : Table :=
  let rows := files.foldl
    (fun rows file => putRow file.name (file.relativeToOrSelf folder).toText rows) []
  { title := title
    columns := ["Item", "Value"]
    rows := rows.map fun (item, value) => [item, value] }

def lines (t : Table) : List Text :=
  t.title :: ((t.columns.map String.toList) :: t.rows).map (Text.join " | ".toList)

end Table

end RazorViews
