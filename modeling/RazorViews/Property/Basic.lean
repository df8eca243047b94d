import RazorViews.Property.InputKind
import RazorViews.Source.Member
import RazorViews.Validation.Field

/-!
Properties of a model, as they are shown and entered.
-/

namespace RazorViews

structure Property where
  name : Text
  declaredType : Text
  isNullable : Bool
  isPrimaryKey : Bool
  isRequired : Bool
  attributes : List Text
  inputKind : InputKind
  displayName : Option Text
  description : Option Text
  maxLength : Option Nat
  minLength : Option Nat
deriving DecidableEq, Repr

namespace Property

/-- The text shown beside the input: the display name, unless that is missing or empty. -/
def label (p : Property) : Text :=
  match p.displayName with
  | some t => if t.isEmpty then p.name else t
  | none => p.name

def check (document : Json) : Checked Property :=
  (Field.members document).andThen fun given =>
    Property.mk <$> Field.required given "name" Field.nonEmptyText
      <*> Field.required given "declared_type" Field.nonEmptyText
      <*> Field.defaulting given "is_nullable" false Field.flag
      <*> Field.defaulting given "is_primary_key" false Field.flag
      <*> Field.defaulting given "is_required" true Field.flag
      <*> Field.defaulting given "attributes" [] (Field.tuple Field.text)
      <*> Field.defaulting given "input_kind" .text (Field.choice InputKind.ofName?)
      <*> Field.defaulting given "display_name" none (Field.optional Field.text)
      <*> Field.defaulting given "description" none (Field.optional Field.text)
      <*> Field.defaulting given "max_length" none (Field.optional (Field.wholeFrom 0))
      <*> Field.defaulting given "min_length" none (Field.optional (Field.wholeFrom 0))

def fields (p : Property) : List (String × Json) :=
  [("name", .text p.name), ("declared_type", .text p.declaredType),
   ("is_nullable", .bool p.isNullable), ("is_primary_key", .bool p.isPrimaryKey),
   ("is_required", .bool p.isRequired), ("attributes", .ofTexts p.attributes),
   ("input_kind", .text p.inputKind.name), ("display_name", .ofOption .text p.displayName),
   ("description", .ofOption .text p.description), ("max_length", .ofOption .ofNat p.maxLength),
   ("min_length", .ofOption .ofNat p.minLength)]

/-- The key of a model: of the properties marked as key the one named `Id`, or else the first. -/
def primaryKey? (properties : List Property) : Option Text :=
  let keys := properties.filter (·.isPrimaryKey)
  let named := keys.find? fun p => Text.lower p.name == "id".toList
  (named.or keys.head?).map (·.name)

end Property

namespace Candidate

def check (document : Json) : Checked Candidate :=
  (Field.members document).andThen fun given =>
    Candidate.mk <$> Field.required given "name" Field.nonEmptyText
      <*> Field.required given "raw_type" Field.nonEmptyText
      <*> Field.defaulting given "attributes" [] (Field.tuple Field.text)
      <*> Field.defaulting given "line" 0 (Field.wholeFrom 0)

def fields (c : Candidate) : List (String × Json) :=
  [("name", .text c.name), ("raw_type", .text c.rawType), ("attributes", .ofTexts c.attributes),
   ("line", .ofNat c.line)]

end Candidate

end RazorViews
