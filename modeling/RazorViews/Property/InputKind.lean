import RazorViews.Source.Lexeme
import RazorViews.Source.TypeName

/-!
The kind of form input that suits a property.

Annotations state what the author wants and are asked first; the declared type is only a guess.
Each table is searched from the top, and what neither knows is entered as plain text.
-/

namespace RazorViews

inductive InputKind where
  | text
  | number
  | checkbox
  | date
  | time
  | dateTime
  | email
  | telephone
  | password
  | url
  | color
  | range
  | file
  | hidden
deriving DecidableEq, Repr

namespace InputKind

/-- Every kind with its name in a form. -/
def names : List (InputKind × String) :=
  [(text, "text"), (number, "number"), (checkbox, "checkbox"), (date, "date"), (time, "time"),
   (dateTime, "datetime-local"), (email, "email"), (telephone, "tel"), (password, "password"),
   (url, "url"), (color, "color"), (range, "range"), (file, "file"), (hidden, "hidden")]

def name (kind : InputKind) : Text := ((names.lookup kind).getD "text").toList

def ofName? (t : Text) : Option InputKind :=
  (names.find? fun entry => entry.2.toList == t).map (·.1)

/-- Words in annotations, and the kinds they ask for. -/
def ofKeyword : List (String × InputKind) :=
  [("email", email), ("phone", telephone), ("password", password), ("url", url), ("color", color),
   ("range", range), ("file", file), ("hidden", hidden)]

/-- Bare type names, and the kinds they suggest. -/
def ofTypeName : List (String × InputKind) :=
  [("datetime", dateTime), ("datetimeoffset", dateTime), ("dateonly", date), ("date", date),
   ("timeonly", time), ("time", time), ("timespan", time),
   ("int", number), ("integer", number), ("int16", number), ("int32", number), ("int64", number),
   ("uint", number), ("uint16", number), ("uint32", number), ("uint64", number), ("long", number),
   ("ulong", number), ("short", number), ("ushort", number), ("byte", number), ("sbyte", number),
   ("nint", number), ("nuint", number), ("decimal", number), ("double", number),
   ("float", number), ("single", number),
   ("bool", checkbox), ("boolean", checkbox),
   ("string", text), ("char", text), ("guid", text), ("uuid", text)]

/-- The kind that annotations ask for.  Text in quotes and comments asks for nothing. -/
def ofAttributes? (attributes : List Text) : Option InputKind :=
  let lowered := attributes.map fun a => Text.lower (Source.erase a)
  (ofKeyword.find? fun entry => lowered.any fun t => t.holds entry.1.toList).map (·.2)

def ofType? (declaredType : Text) : Option InputKind :=
  let base := TypeName.base declaredType
  (ofTypeName.find? fun entry => entry.1.toList == base).map (·.2)

def resolve (declaredType : Text) (attributes : List Text) : InputKind :=
  ((ofAttributes? attributes).or (ofType? declaredType)).getD text

end InputKind

end RazorViews
