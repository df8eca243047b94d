import RazorViews.View.Form
import RazorViews.View.Wording

/-!
The pages: one for each kind of view, and those that all views of a project share.

Each page is made in two steps.  `Sheet.ofContext` and `FormField.ofContext` gather what the page
says, which may fail when a value is of the wrong kind; the page itself is a function of that.
-/

namespace RazorViews

/-- What a page says about its view as a whole. -/
structure Sheet where
  model : Option Text
  layout : Option Text
  /-- The name of the key of the model, if it has one. -/
  key : Option Text
  /-- What a form or list is about: the model, or else the controller. -/
  subject : Text
  controller : Text
  action : Text
deriving DecidableEq, Repr

namespace Sheet

/-- The text of a value, if the value counts as true. -/
def textIfTrue (value : Value) : Option Text := if value.isTrue then some value.text else none

/-- What a context says about a view. -/
def ofContext (context : Context) : Sheet :=
  let controller := context.get? "controller_name"
  { model := textIfTrue (context.get? "model")
    layout := textIfTrue (context.get? "layout_page")
    key := textIfTrue (context.get? "primary_key_property")
    subject := ((context.get? "model_name").orElse controller).text
    controller := controller.text
    action := (context.get? "action_name").text }

/-! ## Parts of pages -/

/-- The model directive, with what stands around the type. -/
def modelLine (s : Sheet) (before behind : String) : Text :=
  match s.model with
  | some type => pageLine ["@model ".toList, before.toList, type, behind.toList]
  | none => []

/-- The block that sets the title and the layout. -/
def header (s : Sheet) (title : Text) : Text :=
  fixedLines ["@\x7b"] ++
  pageLine ["    ViewData[\"Title\"] = \"".toList, title, "\";".toList] ++
  (match s.layout with
  | some layout => pageLine ["    Layout = \"".toList, layout, "\";".toList]
  | none => fixedLines ["    Layout = null;"]) ++
  fixedLines ["\x7d", ""]

/-- The top of a page: the model directive, the block for title and layout, the heading. -/
def top (s : Sheet) (title : Text) : Text :=
  s.modelLine "" "" ++ s.header title ++ pageLine ["<h1>".toList, title, "</h1>".toList] ++
    fixedLines [""]

/-- The subject as a smaller heading. -/
def subjectLine (s : Sheet) (columns : String) : Text :=
  pageLine [columns.toList, "<h4>".toList, s.subject, "</h4>".toList]

/-- An input that carries the key along. -/
def keyInput (s : Sheet) (columns : String) : Text :=
  match s.key with
  | some key =>
    pageLine [columns.toList, "<input type=\"hidden\" asp-for=\"".toList, key, "\" />".toList]
  | none => []

/-- The end of a page with a form: the way back, and the scripts for validation. -/
def formEnd : Text :=
  fixedLines ["",
    "<div>",
    "    <a asp-action=\"Index\">Back to List</a>",
    "</div>",
    "",
    "@section Scripts \x7b",
    "    @\x7bawait Html.RenderPartialAsync(\"_ValidationScriptsPartial\");\x7d",
    "\x7d"]

/-- A page with a form: its title and action, what the button says, an input for the key if it is
to be carried along, and an input for each property. -/
def form (s : Sheet) (action button : String) (keyPart : Text) (fields : List FormField) : Text :=
  s.top action.toList ++ s.subjectLine "" ++
  fixedLines ["<hr />",
    "<div class=\"row\">",
    "    <div class=\"col-md-4\">"] ++
  pageLine ["        <form asp-action=\"".toList, action.toList, "\">".toList] ++
  fixedLines
    ["            <div asp-validation-summary=\"ModelOnly\" class=\"text-danger\"></div>"] ++
  keyPart ++ fields.flatMap FormField.markup ++
  fixedLines ["            <div class=\"form-group\">"] ++
  pageLine ["                <input type=\"submit\" value=\"".toList, button.toList,
    "\" class=\"btn btn-primary\" />".toList] ++
  fixedLines ["            </div>",
    "        </form>",
    "    </div>",
    "</div>"] ++
  formEnd

/-- A link to an action for an instance: the expression that leads to the instance, the action,
and what stands behind the link. -/
def instanceLink (s : Sheet) (columns expression action behind : String) : Text :=
  match s.key with
  | some key =>
    pageLine [columns.toList, "<a asp-action=\"".toList, action.toList,
      "\" asp-route-id=\"@".toList, expression.toList, key, "\">".toList, action.toList,
      "</a>".toList, behind.toList]
  | none =>
    pageLine [columns.toList, "<a asp-action=\"".toList, action.toList, "\">".toList,
      action.toList, "</a>".toList, behind.toList]

/-! ## Pages for the kinds of views -/

/-- The page that only says where it is. -/
def emptyPage (s : Sheet) (title : Text) : Text :=
  s.top title ++ fixedLines ["<div>"] ++
  pageLine ["    <p>".toList, s.controller, " / ".toList, s.action, "</p>".toList] ++
  fixedLines ["</div>"]

def createPage (s : Sheet) (fields : List FormField) : Text := s.form "Create" "Create" [] fields

def editPage (s : Sheet) (fields : List FormField) : Text :=
  s.form "Edit" "Save" (s.keyInput "            ") fields

def detailsPage (s : Sheet) (fields : List FormField) : Text :=
  s.top "Details".toList ++ fixedLines ["<div>"] ++ s.subjectLine "    " ++
  fixedLines ["    <hr />"] ++ FormField.displayList fields ++
  fixedLines ["",
    "</div>",
    "<div>"] ++
  s.instanceLink "    " "Model?." "Edit" " |" ++
  fixedLines ["    <a asp-action=\"Index\">Back to List</a>",
    "</div>"]

def deletePage (s : Sheet) (fields : List FormField) : Text :=
  s.top "Delete".toList ++
  fixedLines ["<h3>Are you sure you want to delete this?</h3>", "<div>"] ++
  s.subjectLine "    " ++ fixedLines ["    <hr />"] ++ FormField.displayList fields ++
  fixedLines ["",
    "",
    "    <form asp-action=\"Delete\">"] ++
  s.keyInput "        " ++
  fixedLines ["        <input type=\"submit\" value=\"Delete\" class=\"btn btn-danger\" /> |",
    "        <a asp-action=\"Index\">Back to List</a>",
    "    </form>",
    "</div>"]

def indexPage (s : Sheet) (title : Text) (fields : List FormField) : Text :=
  s.modelLine "IEnumerable<" ">" ++ s.header title ++
  pageLine ["<h1>".toList, title, "</h1>".toList] ++
  fixedLines ["",
    "<p>",
    "    <a asp-action=\"Create\">Create New</a>",
    "</p>",
    "<table class=\"table\">",
    "    <thead>",
    "        <tr>"] ++
  fields.flatMap FormField.headCell ++
  fixedLines ["            <th></th>",
    "        </tr>",
    "    </thead>",
    "    <tbody>",
    "@foreach (var item in Model) \x7b",
    "        <tr>"] ++
  fields.flatMap FormField.rowCell ++
  fixedLines ["            <td>"] ++
  s.instanceLink "                " "item." "Edit" " |" ++
  s.instanceLink "                " "item." "Details" " |" ++
  s.instanceLink "                " "item." "Delete" "" ++
  fixedLines ["            </td>",
    "        </tr>",
    "\x7d",
    "    </tbody>",
    "</table>"]

end Sheet

namespace Page

/-- The title that a value makes. -/
def titleOf : Value → Except Failure Text
  | some (.text t) => .ok (Wording.humanize t)
  | _ => .error .wrongKind

/-- The plural of a value that counts as true. -/
def pluralOf : Value → Except Failure Text
  | some (.text t) => .ok (Wording.plural t)
  | _ => .error .noSuchPart

/-- The title of an index: the model in the plural, or else the action. -/
def indexTitle (context : Context) : Except Failure Text :=
  let model := context.get? "model_name"
  if model.isTrue then pluralOf model else titleOf (context.get? "action_name")

/-- The page for a kind of view.  The first thing on it that cannot be made or printed is what it
fails for. -/
def ofView (kind : ViewKind) (context : Context) : Except Failure Text := do
  let sheet := Sheet.ofContext context
  let layout := context.get? "layout_page"
  let key := context.get? "primary_key_property"
  let controller := context.get? "controller_name"
  let subject := (context.get? "model_name").orElse controller
  Value.print [context.get? "model"]
  match kind with
  | .empty =>
    let title ← titleOf (context.get? "action_name")
    Value.print [layout, controller]
    return sheet.emptyPage title
  | .index =>
    let title ← indexTitle context
    Value.print [layout]
    let fields ← FormField.ofContext FormField.shown context
    Value.print [key]
    return sheet.indexPage title fields
  | .create =>
    Value.print [layout, subject]
    let fields ← FormField.ofContext FormField.entered context
    return sheet.createPage fields
  | .edit =>
    Value.print [layout, subject, key]
    let fields ← FormField.ofContext FormField.entered context
    return sheet.editPage fields
  | .details =>
    Value.print [layout, subject]
    let fields ← FormField.ofContext FormField.shown context
    Value.print [key]
    return sheet.detailsPage fields
  | .delete =>
    Value.print [layout, subject]
    let fields ← FormField.ofContext FormField.shown context
    Value.print [key]
    return sheet.deletePage fields

/-! ## Shared pages -/

def viewStart (layoutName : Text) : Text :=
  fixedLines ["@\x7b"] ++
  pageLine ["    Layout = \"".toList, layoutName, "\";".toList] ++
  fixedLines ["\x7d"]

/-- The page that makes names known to all views. -/
def viewImports (rootNamespace : Text) : Text :=
  pageLine ["@using ".toList, rootNamespace] ++
  pageLine ["@using ".toList, rootNamespace, ".Models".toList] ++
  fixedLines ["@addTagHelper *, Microsoft.AspNetCore.Mvc.TagHelpers"]

def error : Text :=
  fixedLines ["@model ErrorViewModel",
    "@\x7b",
    "    ViewData[\"Title\"] = \"Error\";",
    "\x7d",
    "",
    "<h1 class=\"text-danger\">Error.</h1>",
    "<h2 class=\"text-danger\">An error occurred while processing your request.</h2>",
    "",
    "@if (Model?.ShowRequestId ?? false)",
    "\x7b",
    "    <p>",
    "        <strong>Request ID:</strong> <code>@Model.RequestId</code>",
    "    </p>",
    "\x7d",
    "",
    "<h3>Development Mode</h3>",
    "<p>",
    "    Swapping to <strong>Development</strong> environment will display more detailed " ++
      "information about the error that occurred.",
    "</p>",
    "<p>",
    "    <strong>The Development environment shouldn't be enabled for deployed " ++
      "applications.</strong>",
    "    It can result in displaying sensitive information from exceptions to end users.",
    "    For local debugging, enable the <strong>Development</strong> environment by setting " ++
      "the <strong>ASPNETCORE_ENVIRONMENT</strong> environment variable to " ++
      "<strong>Development</strong>",
    "    and restarting the app.",
    "</p>"]

def layoutHead : Text :=
  fixedLines ["<!DOCTYPE html>",
    "<html lang=\"en\">",
    "<head>",
    "    <meta charset=\"utf-8\" />",
    "    <meta name=\"viewport\" content=\"width=device-width, initial-scale=1.0\" />"]

def layoutStyle : Text :=
  fixedLines ["    <link rel=\"stylesheet\" href=\"~/lib/bootstrap/dist/css/bootstrap.min.css\" />",
    "    <link rel=\"stylesheet\" href=\"~/css/site.css\" asp-append-version=\"true\" />",
    "</head>",
    "<body>",
    "    <header>",
    "        <nav class=\"navbar navbar-expand-sm navbar-light bg-white border-bottom " ++
      "box-shadow mb-3\">",
    "            <div class=\"container-fluid\">"]

def layoutBody : Text :=
  fixedLines ["                <button class=\"navbar-toggler\" type=\"button\" " ++
      "data-bs-toggle=\"collapse\" data-bs-target=\".navbar-collapse\"",
    "                        aria-controls=\"navbarSupportedContent\" aria-expanded=\"false\" " ++
      "aria-label=\"Toggle navigation\">",
    "                    <span class=\"navbar-toggler-icon\"></span>",
    "                </button>",
    "                <div class=\"navbar-collapse collapse d-sm-inline-flex " ++
      "justify-content-between\">",
    "                    <ul class=\"navbar-nav flex-grow-1\">",
    "                        <li class=\"nav-item\">",
    "                            <a class=\"nav-link text-dark\" asp-area=\"\" " ++
      "asp-controller=\"Home\" asp-action=\"Index\">Home</a>",
    "                        </li>",
    "                        <li class=\"nav-item\">",
    "                            <a class=\"nav-link text-dark\" asp-area=\"\" " ++
      "asp-controller=\"Home\" asp-action=\"Privacy\">Privacy</a>",
    "                        </li>",
    "                    </ul>",
    "                </div>",
    "            </div>",
    "        </nav>",
    "    </header>",
    "    <div class=\"container\">",
    "        <main role=\"main\" class=\"pb-3\">",
    "            @RenderBody()",
    "        </main>",
    "    </div>",
    "",
    "    <footer class=\"border-top footer text-muted\">",
    "        <div class=\"container\">"]

def layoutEnd : Text :=
  fixedLines ["        </div>",
    "    </footer>",
    "    <script src=\"~/lib/jquery/dist/jquery.min.js\"></script>",
    "    <script src=\"~/lib/bootstrap/dist/js/bootstrap.bundle.min.js\"></script>",
    "    <script src=\"~/js/site.js\" asp-append-version=\"true\"></script>",
    "    @await RenderSectionAsync(\"Scripts\", required: false)",
    "</body>",
    "</html>"]

def layout (project : Text) : Text :=
  layoutHead ++
  pageLine ["    <title>@ViewData[\"Title\"] - ".toList, project, "</title>".toList] ++
  layoutStyle ++
  pageLine
    ["                <a class=\"navbar-brand\" asp-area=\"\" asp-controller=\"Home\" ".toList,
      "asp-action=\"Index\">".toList, project, "</a>".toList] ++
  layoutBody ++
  pageLine ["            &copy; @DateTime.Now.Year - ".toList, project,
      " - <a asp-area=\"\" asp-controller=\"Home\" asp-action=\"Privacy\">Privacy</a>".toList] ++
  layoutEnd

/-- A page that prints one value of its context. -/
def ofPart (page : Text → Text) (context : Context) (name : String) : Except Failure Text := do
  Value.print [context.get? name]
  return page (context.get? name).text

end Page

end RazorViews
