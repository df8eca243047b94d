import RazorViews.View.Context

/-!
The parts of a page that show properties: inputs of a form, and lists of values.

What a page says about a property is first gathered in a record, `FormField`; the markup is a
function of the record.
-/

namespace RazorViews

/-- A line of a page, from the pieces that stand on it. -/
def pageLine (pieces : List Text) : Text := pieces.flatten ++ ['\n']

/-- Lines of a page that are always the same. -/
def fixedLines (lines : List String) : Text := lines.flatMap fun line => pageLine [line.toList]

/-- The kinds of inputs that have markup of their own. -/
inductive InputShape where
  /-- A box to check, inside its label. -/
  | checkbox
  /-- No markup but the input itself. -/
  | hidden
  /-- A label, the input, and a place for complaints. -/
  | labelled
deriving DecidableEq, Repr

/-- What a page says about a property. -/
structure FormField where
  name : Text
  shape : InputShape
  inputType : Text
  required : Bool
  /-- The most and the fewest characters, as far as they are bounded. -/
  maxLength : Option Text
  minLength : Option Text
  /-- The text that is shown over the input, if there is one. -/
  title : Option Text
deriving DecidableEq, Repr

namespace FormField

/-- The markup that an input type calls for. -/
def shapeOf (inputType : Value) : InputShape :=
  if inputType.same (some (.literal "checkbox")) then .checkbox
  else if inputType.same (some (.literal "hidden")) then .hidden
  else .labelled

/-- The text of a bound; null is no bound, but a bound that is missing is there and says
nothing. -/
def boundText : Value → Option Text
  | some .null => none
  | value => some value.text

/-- What a page says about a property that a context gives. -/
def ofValue (property : Value) : FormField :=
  let inputType := property.part "input_type"
  let description := property.part "description"
  { name := (property.part "name").text
    shape := shapeOf inputType
    inputType := inputType.text
    required := (property.part "is_required").isTrue
    maxLength := boundText (property.part "max_length")
    minLength := boundText (property.part "min_length")
    title := if description.isTrue then some description.text else none }

/-- What is printed of a property that is shown. -/
def shown (property : Value) : List Value := [property.part "name"]

/-- What is printed of a property that is entered. -/
def entered (property : Value) : List Value :=
  match shapeOf (property.part "input_type") with
  | .checkbox | .hidden => [property.part "name"]
  | .labelled =>
    ["name", "input_type", "max_length", "min_length", "description"].map property.part

/-- The properties that a context gives, except those named like the key, on a page that prints the
given parts of them. -/
def ofContext (printed : Value → List Value) (context : Context) :
    Except Failure (List FormField) := do
  let key := context.get? "primary_key_property"
  let properties ← Value.items (context.get? "properties")
  let apart := properties.filter fun p => !(p.part "name").same key
  Value.print (apart.flatMap printed)
  return apart.map ofValue

/-! ## Markup -/

/-- An attribute with a value, behind a space. -/
def attributeText (name : String) (value : Text) : Text :=
  ' ' :: name.toList ++ '=' :: '"' :: value ++ ['"']

/-- An attribute that is there if it has a value. -/
def optionalAttribute (name : String) : Option Text → Text
  | none => []
  | some value => attributeText name value

/-- The attributes of an input that say what may be entered. -/
def constraints (f : FormField) : Text :=
  (if f.required then " required".toList else []) ++ optionalAttribute "maxlength" f.maxLength ++
    optionalAttribute "minlength" f.minLength ++ optionalAttribute "title" f.title

def checkboxMarkup (name : Text) : Text :=
  fixedLines ["        <div class=\"form-group form-check\">",
    "            <label class=\"form-check-label\">"] ++
  pageLine ["                <input class=\"form-check-input\" asp-for=\"".toList, name,
    "\" /> @Html.DisplayNameFor(model => model.".toList, name, ")".toList] ++
  fixedLines ["            </label>", "        </div>"]

def hiddenMarkup (name : Text) : Text :=
  pageLine ["        <input type=\"hidden\" asp-for=\"".toList, name, "\" />".toList]

def labelledMarkup (f : FormField) : Text :=
  fixedLines ["        <div class=\"form-group\">"] ++
  pageLine ["            <label asp-for=\"".toList, f.name,
    "\" class=\"control-label\"></label>".toList] ++
  pageLine ["            <input asp-for=\"".toList, f.name, "\" type=\"".toList, f.inputType,
    "\" class=\"form-control\"".toList, f.constraints, " />".toList] ++
  pageLine ["            <span asp-validation-for=\"".toList, f.name,
    "\" class=\"text-danger\"></span>".toList] ++
  fixedLines ["        </div>"]

def markup (f : FormField) : Text :=
  match f.shape with
  | .checkbox => checkboxMarkup f.name
  | .hidden => hiddenMarkup f.name
  | .labelled => f.labelledMarkup

/-- The markup for showing a property: its name and its value. -/
def display (f : FormField) : Text :=
  fixedLines ["        <dt class=\"col-sm-2\">"] ++
  pageLine ["            @Html.DisplayNameFor(model => model.".toList, f.name, ")".toList] ++
  fixedLines ["        </dt>", "        <dd class=\"col-sm-10\">"] ++
  pageLine ["            @Html.DisplayFor(model => model.".toList, f.name, ")".toList] ++
  fixedLines ["        </dd>"]

def displayList (fields : List FormField) : Text :=
  fixedLines ["    <dl class=\"row\">"] ++ fields.flatMap display ++ fixedLines ["    </dl>"]

def headCell (f : FormField) : Text :=
  fixedLines ["            <th>"] ++
  pageLine ["                @Html.DisplayNameFor(model => model.".toList, f.name, ")".toList] ++
  fixedLines ["            </th>"]

def rowCell (f : FormField) : Text :=
  fixedLines ["            <td>"] ++
  pageLine ["                @Html.DisplayFor(modelItem => item.".toList, f.name, ")".toList] ++
  fixedLines ["            </td>"]

end FormField

end RazorViews
