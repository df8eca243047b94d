import RazorViews.Proofs.View.Page
import RazorViews.Proofs.View.Sheets

/-!
# The properties on a page

The markup for entering a property holds one input, whatever its kind, and is bound to the property
(`IsLegible.boundNames_markup`): a box to be ticked, a hidden input, or one with a label in front.
The markup for showing a property is made of cells, each of which shows it once (`shown_flatMap`).

What a page holds in all follows from there, since the rest of it has no input and calls no helper:
a form has the inputs of its properties in order, behind that of the key if it carries one along
(`IsUnmarked.boundNames_create`, `IsUnmarked.boundNames_edit`), and the other pages show their
properties in lists or in a table (`IsUnmarked.shown_details`, `IsUnmarked.shown_index`).

The name of a property has to be a name, and in what else an input says of it no tag may begin
(`IsLegible`).  In its title none does, as that is made of the name.
-/

namespace RazorViews.Page

open Markup

variable {a b before : Text} {s : Sheet} {f : FormField} {fields : List FormField}

/-! ## Inputs -/

/-- What a page says about a property, as far as it can be read off the page again: the name is a
name, and nothing else about it begins a tag. -/
structure IsLegible (f : FormField) : Prop where
  name : IsName f.name
  inputType : '<' ∉ f.inputType
  constraints : '<' ∉ f.constraints

theorem IsLegible.boundNames_checkbox (h : IsLegible f) (b : Text) :
    boundNames (FormField.checkboxMarkup f.name ++ b) = f.name :: boundNames b := by
  let indent := fixedLines ["        <div class=\"form-group form-check\">",
    "            <label class=\"form-check-label\">"] ++ "                ".toList
  let call := " /> @Html.DisplayNameFor(model => model.".toList
  let close := ")".toList ++ ['\n'] ++ fixedLines ["            </label>", "        </div>"]
  have hfixed : Silent inputMark indent ∧ Silent inputMark call ∧ Silent inputMark close := by
    simp only [indent, call, close, fixedLines, List.flatMap_cons, List.flatMap_nil]
    repeat rw [String.toList_ofList]
    decide
  have htag : "                <input class=\"form-check-input\" asp-for=\"".toList =
      "                ".toList ++
        (inputMark ++ " class=\"form-check-input\"".toList ++ " asp-for=\"".toList) := by
    rw [inputMark]
    repeat rw [String.toList_ofList]
    rfl
  have hquote : "\" /> @Html.DisplayNameFor(model => model.".toList = '"' :: call := by
    simp only [call]
    repeat rw [String.toList_ofList]
  have hmarkup : FormField.checkboxMarkup f.name ++ b = indent ++
      (inputMark ++ " class=\"form-check-input\"".toList ++ " asp-for=\"".toList ++
        (f.name ++ '"' :: (call ++ f.name ++ close ++ b))) := by
    rw [FormField.checkboxMarkup, pageLine, htag, hquote]
    simp only [indent, close, List.flatten_cons, List.flatten_nil, List.append_assoc,
      List.nil_append, List.cons_append]
  rw [hmarkup]
  refine boundNames_input h.name hfixed.1 (fun more => ?_) ?_
    ((hfixed.2.1.append h.name.silent.1).append hfixed.2.2) b
  · repeat rw [String.toList_ofList]
    rfl
  · repeat rw [String.toList_ofList]
    decide

theorem IsLegible.boundNames_hidden (h : IsLegible f) (b : Text) :
    boundNames (FormField.hiddenMarkup f.name ++ b) = f.name :: boundNames b := by
  have hindent : Silent inputMark "        ".toList := by decide
  have htag : "        <input type=\"hidden\" asp-for=\"".toList = "        ".toList ++
      (inputMark ++ " type=\"hidden\"".toList ++ " asp-for=\"".toList) := by
    rw [inputMark]
    repeat rw [String.toList_ofList]
    rfl
  have hend : "\" />".toList ++ ['\n'] = '"' :: " />\n".toList := rfl
  have hmarkup : FormField.hiddenMarkup f.name ++ b = "        ".toList ++
      (inputMark ++ " type=\"hidden\"".toList ++ " asp-for=\"".toList ++
        (f.name ++ '"' :: (" />\n".toList ++ b))) := by
    rw [FormField.hiddenMarkup, pageLine, htag, ← List.cons_append, ← hend]
    simp only [List.flatten_cons, List.flatten_nil, List.append_assoc, List.nil_append]
  rw [hmarkup]
  refine boundNames_input h.name hindent (fun more => ?_) ?_ (by decide) b
  · repeat rw [String.toList_ofList]
    rfl
  · repeat rw [String.toList_ofList]
    decide

theorem IsLegible.boundNames_labelled (h : IsLegible f) (b : Text) :
    boundNames (f.labelledMarkup ++ b) = f.name :: boundNames b := by
  let label := fixedLines ["        <div class=\"form-group\">"] ++
    "            <label asp-for=\"".toList
  let indent := "\" class=\"control-label\"></label>".toList ++ ['\n'] ++ "            ".toList
  let kind := " type=\"".toList
  let style := "\" class=\"form-control\"".toList
  let complaint := " />".toList ++ ['\n'] ++ "            <span asp-validation-for=\"".toList
  let close := "\" class=\"text-danger\"></span>".toList ++ ['\n'] ++
    fixedLines ["        </div>"]
  have hfixed : Silent inputMark label ∧ Silent inputMark indent ∧ Silent inputMark kind ∧
      Silent inputMark style ∧ Silent inputMark complaint ∧ Silent inputMark close := by
    simp only [label, indent, kind, style, complaint, close, fixedLines, List.flatMap_cons,
      List.flatMap_nil]
    repeat rw [String.toList_ofList]
    decide
  obtain ⟨hlabel, hindent, hkind, hstyle, hcomplaint, hclose⟩ := hfixed
  have htag : "            <input asp-for=\"".toList =
      "            ".toList ++ (inputMark ++ [] ++ " asp-for=\"".toList) := by
    rw [inputMark]
    repeat rw [String.toList_ofList]
    rfl
  have hquote : "\" type=\"".toList = '"' :: kind := rfl
  have hmarkup : f.labelledMarkup ++ b = (label ++ f.name ++ indent) ++
      (inputMark ++ [] ++ " asp-for=\"".toList ++ (f.name ++ '"' ::
        (kind ++ f.inputType ++ style ++ f.constraints ++ complaint ++ f.name ++ close ++ b))) := by
    rw [FormField.labelledMarkup, pageLine, pageLine, pageLine, htag, hquote]
    simp only [label, indent, style, complaint, close, List.flatten_cons, List.flatten_nil,
      List.append_assoc, List.nil_append, List.cons_append]
  rw [hmarkup]
  have hname := h.name.silent.1
  refine boundNames_input h.name ((hlabel.append hname).append hindent) (fun more => ?_) ?_
    ((((((hkind.append (silent_of_notMem h.inputType)).append hstyle).append
      (silent_of_notMem h.constraints)).append hcomplaint).append hname).append hclose) b
  · repeat rw [String.toList_ofList]
    rfl
  · repeat rw [String.toList_ofList]
    decide

/-- The markup for a property holds one input, bound to the name of the property. -/
theorem IsLegible.boundNames_markup (h : IsLegible f) (b : Text) :
    boundNames (f.markup ++ b) = f.name :: boundNames b := by
  rw [FormField.markup]
  cases f.shape with
  | checkbox => exact h.boundNames_checkbox b
  | hidden => exact h.boundNames_hidden b
  | labelled => exact h.boundNames_labelled b

theorem boundNames_flatMap (h : ∀ f ∈ fields, IsLegible f) (b : Text) :
    boundNames (fields.flatMap FormField.markup ++ b) =
      fields.map FormField.name ++ boundNames b := by
  induction fields with
  | nil => rfl
  | cons f fields ih =>
    obtain ⟨hf, hfields⟩ := List.forall_mem_cons.1 h
    rw [List.flatMap_cons, List.append_assoc, hf.boundNames_markup, ih hfields]
    rfl

/-! ## Cells -/

/-- The cell of a list with the name of a property. -/
def termCell : Cell where
  front := "        ".toList
  tag := "dt class=\"col-sm-2\"".toList
  gap := "\n            ".toList
  helper := "DisplayNameFor".toList
  argument := "model => model".toList
  back := "\n        </dt>\n".toList

/-- The cell of a list with the value of a property. -/
def valueCell : Cell where
  front := "        ".toList
  tag := "dd class=\"col-sm-10\"".toList
  gap := "\n            ".toList
  helper := "DisplayFor".toList
  argument := "model => model".toList
  back := "\n        </dd>\n".toList

/-- The cell of a table at the head of the column of a property. -/
def columnCell : Cell where
  front := "            ".toList
  tag := "th".toList
  gap := "\n                ".toList
  helper := "DisplayNameFor".toList
  argument := "model => model".toList
  back := "\n            </th>\n".toList

/-- The cell of a table with the value of a property. -/
def rowCell : Cell where
  front := "            ".toList
  tag := "td".toList
  gap := "\n                ".toList
  helper := "DisplayFor".toList
  argument := "modelItem => item".toList
  back := "\n            </td>\n".toList

theorem written_eq {cell : Cell} {front back : Text} {call : String}
    (hfront : front ++ call.toList = cell.lead ++ cell.call)
    (hback : ")".toList ++ ['\n'] ++ back = ')' :: cell.back) (name : Text) :
    front ++ pageLine [call.toList, name, ")".toList] ++ back = cell.written name := by
  calc front ++ pageLine [call.toList, name, ")".toList] ++ back
      = (front ++ call.toList) ++ (name ++ (")".toList ++ ['\n'] ++ back)) := by
        simp only [pageLine, List.flatten_cons, List.flatten_nil, List.append_assoc,
          List.nil_append]
    _ = cell.written name := by rw [hfront, hback, Cell.written, List.append_assoc]

theorem headCell_eq (f : FormField) : f.headCell = Cell.writtenAll [columnCell] f.name := by
  rw [Cell.writtenAll, List.flatMap_singleton]
  refine written_eq ?_ ?_ f.name
  all_goals
    dsimp only [fixedLines, List.flatMap_cons, List.flatMap_nil, Cell.lead, Cell.call, callMark,
      columnCell]
    repeat rw [String.toList_ofList]
    rfl

theorem rowCell_eq (f : FormField) : f.rowCell = Cell.writtenAll [rowCell] f.name := by
  rw [Cell.writtenAll, List.flatMap_singleton]
  refine written_eq ?_ ?_ f.name
  all_goals
    dsimp only [fixedLines, List.flatMap_cons, List.flatMap_nil, Cell.lead, Cell.call, callMark,
      rowCell]
    repeat rw [String.toList_ofList]
    rfl

theorem display_eq (f : FormField) :
    f.display = Cell.writtenAll [termCell, valueCell] f.name := by
  have hterm : fixedLines ["        <dt class=\"col-sm-2\">"] ++
      pageLine ["            @Html.DisplayNameFor(model => model.".toList, f.name, ")".toList] ++
      fixedLines ["        </dt>"] = termCell.written f.name := by
    refine written_eq ?_ ?_ f.name
    all_goals
      dsimp only [fixedLines, List.flatMap_cons, List.flatMap_nil, Cell.lead, Cell.call, callMark,
        termCell]
      repeat rw [String.toList_ofList]
      rfl
  have hvalue : fixedLines ["        <dd class=\"col-sm-10\">"] ++
      pageLine ["            @Html.DisplayFor(model => model.".toList, f.name, ")".toList] ++
      fixedLines ["        </dd>"] = valueCell.written f.name := by
    refine written_eq ?_ ?_ f.name
    all_goals
      dsimp only [fixedLines, List.flatMap_cons, List.flatMap_nil, Cell.lead, Cell.call, callMark,
        valueCell]
      repeat rw [String.toList_ofList]
      rfl
  have hbetween : fixedLines ["        </dt>", "        <dd class=\"col-sm-10\">"] =
      fixedLines ["        </dt>"] ++ fixedLines ["        <dd class=\"col-sm-10\">"] := by
    simp only [fixedLines, List.flatMap_cons, List.flatMap_nil, List.append_nil]
  rw [Cell.writtenAll, List.flatMap_cons, List.flatMap_singleton, ← hterm, ← hvalue,
    FormField.display, hbetween]
  simp only [List.append_assoc]

/-- Cells for each of several properties show these properties. -/
theorem shown_flatMap {write : FormField → Text} {cells : List Cell}
    (hwrite : ∀ f, write f = Cell.writtenAll cells f.name) (h : ∀ f ∈ fields, IsName f.name)
    (before b : Text) :
    ∃ more, shown before (fields.flatMap write ++ b) =
      (fields.map FormField.name).flatMap (fun name => cells.map (·.shows name)) ++
        shown more b := by
  induction fields generalizing before with
  | nil => exact ⟨before, rfl⟩
  | cons f fields ih =>
    obtain ⟨hf, hfields⟩ := List.forall_mem_cons.1 h
    obtain ⟨middle, hmiddle⟩ := Cell.shown_writtenAll cells hf before (fields.flatMap write ++ b)
    obtain ⟨more, hmore⟩ := ih hfields middle
    refine ⟨more, ?_⟩
    rw [List.flatMap_cons, List.append_assoc, hwrite, hmiddle, hmore, List.map_cons,
      List.flatMap_cons, List.append_assoc]

/-- No input is among cells. -/
theorem silent_displayList (h : ∀ f ∈ fields, IsName f.name) :
    Silent inputMark (FormField.displayList fields) := by
  have hends : Silent inputMark (fixedLines ["    <dl class=\"row\">"]) ∧
      Silent inputMark (fixedLines ["    </dl>"]) := by
    simp only [fixedLines, List.flatMap_cons, List.flatMap_nil]
    repeat rw [String.toList_ofList]
    decide
  have hcells : ∀ cell ∈ [termCell, valueCell], Silent inputMark (cell.lead ++ cell.call) ∧
      Silent inputMark (')' :: cell.back) := by decide
  refine (hends.1.append (Silent.flatMap fun f hf => ?_)).append hends.2
  rw [display_eq]
  refine Silent.flatMap fun cell hcell => ?_
  obtain ⟨hfront, hback⟩ := hcells cell hcell
  rw [Cell.written, ← List.append_assoc]
  exact hfront.append ((h f hf).silent.1.append hback)

/-! ## Pages -/

/-- A page with a form has the inputs of its properties, behind those of another part. -/
theorem IsUnmarked.boundNames_form (h : IsUnmarked s) (hfields : ∀ f ∈ fields, IsLegible f)
    {action button : String} (haction : ¬ inputMark <:+: action.toList)
    (hopening : Silent inputMark (pageLine ["        <form asp-action=\"".toList, action.toList,
      "\">".toList]))
    (hbutton : boundNames (fixedLines ["            <div class=\"form-group\">"] ++
      pageLine ["                <input type=\"submit\" value=\"".toList, button.toList,
        "\" class=\"btn btn-primary\" />".toList] ++
      fixedLines ["            </div>", "        </form>", "    </div>", "</div>"] ++
      Sheet.formEnd) = [])
    {part : Text} {names : List Text}
    (hpart : ∀ b, boundNames (part ++ b) = names ++ boundNames b) :
    boundNames (s.form action button part fields) = names ++ fields.map FormField.name := by
  have hgrid : Silent inputMark
      (fixedLines ["<hr />", "<div class=\"row\">", "    <div class=\"col-md-4\">"]) := by
    simp only [fixedLines, List.flatMap_cons, List.flatMap_nil]
    repeat rw [String.toList_ofList]
    decide
  have hsummary : Silent inputMark (fixedLines
      ["            <div asp-validation-summary=\"ModelOnly\" class=\"text-danger\"></div>"]) := by
    simp only [fixedLines, List.flatMap_cons, List.flatMap_nil]
    repeat rw [String.toList_ofList]
    decide
  have hlead := ((((h.silent_top (.inl rfl) action.toList haction).append
    (h.silent_subjectLine (.inl rfl) "" (by decide))).append hgrid).append hopening).append hsummary
  rw [← List.append_nil (fields.map FormField.name), ← hbutton,
    ← boundNames_flatMap hfields, ← hpart, ← boundNames_append hlead (part ++ _), Sheet.form]
  simp only [List.append_assoc]

theorem IsUnmarked.boundNames_create (h : IsUnmarked s) (hfields : ∀ f ∈ fields, IsLegible f) :
    boundNames (s.createPage fields) = fields.map FormField.name := by
  have hform : boundNames (s.form "Create" "Create" [] fields) =
      [] ++ fields.map FormField.name := by
    refine h.boundNames_form hfields (by decide) ?_ ?_ fun _ => rfl
    · repeat rw [String.toList_ofList]
      decide
    · simp only [fixedLines, Sheet.formEnd, List.flatMap_cons, List.flatMap_nil]
      repeat rw [String.toList_ofList]
      decide +kernel
  exact hform

theorem IsUnmarked.boundNames_edit (h : IsUnmarked s) (hfields : ∀ f ∈ fields, IsLegible f) :
    boundNames (s.editPage fields) = s.key.toList ++ fields.map FormField.name := by
  rw [Sheet.editPage]
  refine h.boundNames_form hfields (by decide) ?_ ?_ (h.boundNames_keyInput _ (by decide))
  · repeat rw [String.toList_ofList]
    decide
  · simp only [fixedLines, Sheet.formEnd, List.flatMap_cons, List.flatMap_nil]
    repeat rw [String.toList_ofList]
    decide +kernel

/-- A page shows the properties of its list. -/
theorem shown_displayList (h : ∀ f ∈ fields, IsName f.name) {a b : Text}
    (ha : Silent callMark a) (hb : Silent callMark b) (before : Text) :
    shown before (a ++ FormField.displayList fields ++ b) =
      (fields.map FormField.name).flatMap
        fun name => [termCell.shows name, valueCell.shows name] := by
  have hends : Silent callMark (fixedLines ["    <dl class=\"row\">"]) ∧
      Silent callMark (fixedLines ["    </dl>"]) := by
    simp only [fixedLines, List.flatMap_cons, List.flatMap_nil]
    repeat rw [String.toList_ofList]
    decide
  obtain ⟨more, hmore⟩ := shown_flatMap display_eq h
    ((fixedLines ["    <dl class=\"row\">"]).reverse ++ (a.reverse ++ before))
    (fixedLines ["    </dl>"] ++ b)
  rw [FormField.displayList, List.append_assoc, shown_append ha, List.append_assoc,
    List.append_assoc, shown_append hends.1, hmore, shown_silent (hends.2.append hb),
    List.append_nil]
  rfl

theorem IsUnmarked.shown_details (h : IsUnmarked s) (hfields : ∀ f ∈ fields, IsName f.name) :
    shown [] (s.detailsPage fields) = (fields.map FormField.name).flatMap
      fun name => [termCell.shows name, valueCell.shows name] := by
  have hfixed : Silent callMark (fixedLines ["<div>"]) ∧
      Silent callMark (fixedLines ["    <hr />"]) ∧
      Silent callMark (fixedLines ["", "</div>", "<div>"]) ∧
      Silent callMark (fixedLines ["    <a asp-action=\"Index\">Back to List</a>", "</div>"]) := by
    simp only [fixedLines, List.flatMap_cons, List.flatMap_nil]
    repeat rw [String.toList_ofList]
    decide
  obtain ⟨hdiv, hline, hnext, hend⟩ := hfixed
  have hfront := (((h.silent_top (.inr rfl) "Details".toList (by decide)).append hdiv).append
    (h.silent_subjectLine (.inr rfl) "    " (by decide))).append hline
  have hlink := h.silent_instanceLink "    " "Model?." "Edit" " |" (by decide)
    (by decide) (by decide)
  have hshown := shown_displayList hfields hfront ((hnext.append hlink).append hend) []
  rw [Sheet.detailsPage, ← hshown]
  simp only [List.append_assoc]

theorem IsUnmarked.shown_delete (h : IsUnmarked s) (hfields : ∀ f ∈ fields, IsName f.name) :
    shown [] (s.deletePage fields) = (fields.map FormField.name).flatMap
      fun name => [termCell.shows name, valueCell.shows name] := by
  have hfixed : Silent callMark
      (fixedLines ["<h3>Are you sure you want to delete this?</h3>", "<div>"]) ∧
      Silent callMark (fixedLines ["    <hr />"]) ∧
      Silent callMark (fixedLines ["", "", "    <form asp-action=\"Delete\">"]) ∧
      Silent callMark (fixedLines
        ["        <input type=\"submit\" value=\"Delete\" class=\"btn btn-danger\" /> |",
          "        <a asp-action=\"Index\">Back to List</a>", "    </form>", "</div>"]) := by
    simp only [fixedLines, List.flatMap_cons, List.flatMap_nil]
    repeat rw [String.toList_ofList]
    decide
  obtain ⟨hquestion, hline, hform, hend⟩ := hfixed
  have hfront := (((h.silent_top (.inr rfl) "Delete".toList (by decide)).append hquestion).append
    (h.silent_subjectLine (.inr rfl) "    " (by decide))).append hline
  have hkey := h.silent_keyInput "        " (by decide)
  have hshown := shown_displayList hfields hfront ((hform.append hkey).append hend) []
  rw [Sheet.deletePage, ← hshown]
  simp only [List.append_assoc]

theorem IsUnmarked.boundNames_delete (h : IsUnmarked s) (hfields : ∀ f ∈ fields, IsName f.name) :
    boundNames (s.deletePage fields) = s.key.toList := by
  have hfixed : Silent inputMark
      (fixedLines ["<h3>Are you sure you want to delete this?</h3>", "<div>"]) ∧
      Silent inputMark (fixedLines ["    <hr />"]) ∧
      Silent inputMark (fixedLines ["", "", "    <form asp-action=\"Delete\">"]) ∧
      boundNames (fixedLines
        ["        <input type=\"submit\" value=\"Delete\" class=\"btn btn-danger\" /> |",
          "        <a asp-action=\"Index\">Back to List</a>", "    </form>", "</div>"]) = [] := by
    simp only [fixedLines, List.flatMap_cons, List.flatMap_nil]
    repeat rw [String.toList_ofList]
    decide +kernel
  obtain ⟨hquestion, hline, hform, hend⟩ := hfixed
  have hfront := (((((h.silent_top (.inl rfl) "Delete".toList (by decide)).append
    hquestion).append (h.silent_subjectLine (.inl rfl) "    " (by decide))).append hline).append
    (silent_displayList hfields)).append hform
  rw [← List.append_nil s.key.toList, ← hend, ← h.boundNames_keyInput "        " (by decide),
    ← boundNames_append hfront (s.keyInput _ ++ _), Sheet.deletePage]
  simp only [List.append_assoc]

theorem IsUnmarked.shown_index (h : IsUnmarked s) (hfields : ∀ f ∈ fields, IsName f.name)
    {title : Text} (htitle : ¬ callMark <:+: title) :
    shown [] (s.indexPage title fields) = (fields.map FormField.name).map columnCell.shows ++
      (fields.map FormField.name).map rowCell.shows := by
  let opening := fixedLines ["", "<p>", "    <a asp-action=\"Create\">Create New</a>", "</p>",
    "<table class=\"table\">", "    <thead>", "        <tr>"]
  let between := fixedLines ["            <th></th>", "        </tr>", "    </thead>",
    "    <tbody>", "@foreach (var item in Model) \x7b", "        <tr>"]
  let closing := fixedLines ["            </td>", "        </tr>", "\x7d", "    </tbody>",
    "</table>"]
  have hfixed : Silent callMark opening ∧ Silent callMark between ∧
      Silent callMark (fixedLines ["            <td>"]) ∧ Silent callMark closing := by
    simp only [opening, between, closing, fixedLines, List.flatMap_cons, List.flatMap_nil]
    repeat rw [String.toList_ofList]
    decide
  obtain ⟨hopening, hbetween, hcell, hclosing⟩ := hfixed
  have hmodel : Silent callMark (s.modelLine "IEnumerable<" ">") :=
    h.silent_modelLine (.inr rfl) (by decide) (by decide) (by decide)
  have hfront := ((hmodel.append (h.silent_header (.inr rfl) htitle)).append
    (silent_heading (.inr rfl) htitle)).append hopening
  have hedit := h.silent_instanceLink "                " "item." "Edit" " |" (by decide)
    (by decide) (by decide)
  have hdetails := h.silent_instanceLink "                " "item." "Details" " |"
    (by decide) (by decide) (by decide)
  have hdelete := h.silent_instanceLink "                " "item." "Delete" "" (by decide)
    (by decide) (by decide)
  have hback := (((hcell.append hedit).append hdetails).append hdelete).append hclosing
  let links := fixedLines ["            <td>"] ++
    s.instanceLink "                " "item." "Edit" " |" ++
    s.instanceLink "                " "item." "Details" " |" ++
    s.instanceLink "                " "item." "Delete" "" ++ closing
  let front := s.modelLine "IEnumerable<" ">" ++ s.header title ++
    pageLine ["<h1>".toList, title, "</h1>".toList] ++ opening
  obtain ⟨middle, hhead⟩ := shown_flatMap headCell_eq hfields (front.reverse ++ [])
    (between ++ (fields.flatMap FormField.rowCell ++ links))
  obtain ⟨more, hrow⟩ := shown_flatMap rowCell_eq hfields (between.reverse ++ middle) links
  rw [shown_append hbetween, hrow, shown_silent hback, ← shown_append hfront] at hhead
  simp only [List.map_cons, List.map_nil, ← List.map_eq_flatMap, List.append_nil] at hhead
  rw [← hhead, Sheet.indexPage]
  simp only [List.append_assoc, opening, between, links, closing]

end RazorViews.Page
