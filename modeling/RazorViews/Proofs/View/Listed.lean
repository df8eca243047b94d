import RazorViews.Proofs.View.Fields
import RazorViews.Proofs.View.Page

/-!
# Forms and tables lose no property

Whatever the properties of a model are, its pages list them in order, each one once: the inputs of
the forms, the columns of the table and the cells of its rows, the lists of details.  The property
that is the key is left out everywhere, with all that have its name; the forms that act on an
instance carry the key along in an input of its own.

## What is proved

`page_lists` is about the properties of a model, any number of them and with bounds of any lengths,
any settings, options and name of the project, and any kind of page.

* Each page that is printed lists them, as `Lists` says for its kind.  The names are read off the
  *text* of the page (`boundNames`, `shown`), as a reader of the page would.
* A page is printed unless it is a form, for `create` or `edit`, and one of its inputs has a bound
  of more digits than are printed (`CanPrint`).
* Then there is no page, and the failure is this one.

## The hypotheses

* The names of properties are words (`IsName`), as they are in every list that is extracted.
* No tag begins in the descriptions of properties, which are printed as they are.
* In no other text of the context does an input begin or a call of a helper (`IsUnmarkedText`).
  Otherwise the name of the project could be written so as to look like an input.

## What it is not

Nothing is said of what kind of input a property has, or of titles; for those see `humanize_ascii`.

## The proof

A page is pieces one after another, and no mark begins in one piece and ends in the next, so what is
read off the page is what is read off its pieces.  The pieces of a property show its name once, in
what the kind of page uses for it (`lists_pageFor`).
-/

namespace RazorViews.Page

open Markup

variable {settings : Settings} {options : ViewOptions} {properties : List Property}
  {projectName : Text} {p : Property} {s : Sheet} {c : Char}

/-! ## What pages list -/

/-- The name of a property in a cell. -/
def nameIn (cell : String) (name : Text) : Shown := ⟨cell.toList, "DisplayNameFor".toList, name⟩

/-- The value of a property in a cell. -/
def valueIn (cell : String) (name : Text) : Shown := ⟨cell.toList, "DisplayFor".toList, name⟩

/-- A page lists its properties, given the name of the key and the names of the properties apart
from it. -/
def Lists (key : Option Text) (rest : List Text) (page : Text) : ViewKind → Prop
  | .empty => shown [] page = []
  | .index => shown [] page = rest.map (nameIn "th") ++ rest.map (valueIn "td")
  | .create => boundNames page = rest
  | .edit => boundNames page = key.toList ++ rest
  | .details =>
    shown [] page = rest.flatMap fun name => [nameIn "dt" name, valueIn "dd" name]
  | .delete => boundNames page = key.toList ∧
    shown [] page = rest.flatMap fun name => [nameIn "dt" name, valueIn "dd" name]

/-- The names of the properties apart from the key, in order. -/
def namesApart (properties : List Property) : List Text :=
  (properties.map Property.name).filter fun name => Property.primaryKey? properties != some name

/-- A text of a context in which neither an input nor a call of a helper begins; what is no text
is not looked at. -/
def IsUnmarkedText : Json → Prop
  | .text t => Unmarked t
  | _ => True

instance (t : Text) : Decidable (Unmarked t) :=
  decidable_of_iff (¬ inputMark <:+: t ∧ ¬ callMark <:+: t)
    ⟨fun h => ⟨h.1, h.2⟩, fun h => ⟨h.input, h.call⟩⟩

instance (document : Json) : Decidable (IsUnmarkedText document) :=
  match document with
  | .text t => inferInstanceAs (Decidable (Unmarked t))
  | .null | .bool _ | .number _ | .list _ | .object _ => .isTrue trivial

/-! ## What a context gives -/

theorem primaryKey?_mem {key : Text} (h : Property.primaryKey? properties = some key) :
    ∃ p ∈ properties, p.name = key := by
  rw [Property.primaryKey?, Option.map_eq_some_iff] at h
  obtain ⟨p, hp, rfl⟩ := h
  refine ⟨p, ?_, rfl⟩
  rcases Option.or_eq_some_iff.1 hp with hnamed | ⟨-, hfirst⟩
  · exact List.mem_of_mem_filter (List.mem_of_find?_eq_some hnamed)
  · exact List.mem_of_mem_filter (List.mem_of_head? hfirst)

theorem textIfTrue_text (t : Text) :
    ∀ u ∈ Sheet.textIfTrue (some (.text t)), u = t := by
  intro u hu
  rw [Sheet.textIfTrue] at hu
  split at hu
  · exact (Option.some.inj hu).symm
  · exact absurd hu (by simp)

theorem key_ofView (hnames : ∀ p ∈ properties, IsName p.name) :
    (Sheet.ofContext (Context.ofView settings options properties projectName)).key =
      Property.primaryKey? properties := by
  have hkey : (Sheet.ofContext (Context.ofView settings options properties projectName)).key =
      Sheet.textIfTrue (some (.ofOption .text (Property.primaryKey? properties))) := rfl
  rw [hkey]
  cases hprimary : Property.primaryKey? properties with
  | none => rfl
  | some key =>
    obtain ⟨p, hp, rfl⟩ := primaryKey?_mem hprimary
    have htrue : Value.isTrue (some (.text p.name)) = true := by
      simp [Value.isTrue, (hnames p hp).ne_nil]
    rw [Json.ofOption, Sheet.textIfTrue, if_pos htrue]
    rfl

theorem isUnmarked_ofView (hnames : ∀ p ∈ properties, IsName p.name)
    (htexts : ∀ entry ∈ Context.ofView settings options properties projectName,
      IsUnmarkedText entry.2) :
    IsUnmarked (Sheet.ofContext (Context.ofView settings options properties projectName)) := by
  simp only [Context.ofView, List.forall_mem_cons] at htexts
  obtain ⟨haction, hcontroller, hmodel, hclass, hlayout, -⟩ := htexts
  refine ⟨fun t ht => ?_, fun t ht => ?_, ?_, hcontroller, haction, fun k hk => ?_⟩
  · exact textIfTrue_text _ t ht ▸ hmodel
  · change t ∈ Sheet.textIfTrue (some (.ofOption .text (Context.layoutOf settings options))) at ht
    cases hasked : Context.layoutOf settings options with
    | none =>
      rw [hasked] at ht
      exact absurd ht (by simp [Sheet.textIfTrue, Value.isTrue, Json.ofOption])
    | some layout =>
      rw [hasked] at ht hlayout
      exact textIfTrue_text layout t ht ▸ hlayout
  · have hname : (Context.ofView settings options properties projectName).get? "model_name" =
        some (.text (TypeName.className (Context.modelOf options))) := rfl
    have hother : (Context.ofView settings options properties projectName).get?
        "controller_name" = some (.text options.controller) := rfl
    rw [Sheet.ofContext]
    dsimp only
    rw [hname, hother, Value.orElse]
    split
    · exact hclass
    · exact hcontroller
  · rw [key_ofView hnames] at hk
    obtain ⟨p, hp, rfl⟩ := primaryKey?_mem hk
    exact hnames p hp

/-! ## What a page says about a property -/

theorem ofValue_ofProperty (p : Property) :
    FormField.ofValue (some (Context.ofProperty p)) =
      { name := p.name
        shape := FormField.shapeOf (some (.text p.inputKind.name))
        inputType := p.inputKind.name
        required := p.isRequired
        maxLength := p.maxLength.map Text.ofNat
        minLength := p.minLength.map Text.ofNat
        title := p.description.filter (!·.isEmpty) } := by
  have hmax : Value.part (some (Context.ofProperty p)) "max_length" =
      some (.ofOption .ofNat p.maxLength) := rfl
  have hmin : Value.part (some (Context.ofProperty p)) "min_length" =
      some (.ofOption .ofNat p.minLength) := rfl
  have hdescription : Value.part (some (Context.ofProperty p)) "description" =
      some (.ofOption .text p.description) := rfl
  have hbound : ∀ n : Option Nat,
      FormField.boundText (some (.ofOption .ofNat n)) = n.map Text.ofNat := by
    rintro (_ | n) <;> rfl
  have htitle : ∀ t : Option Text,
      (if Value.isTrue (some (.ofOption .text t)) then
        some (Value.text (some (.ofOption .text t))) else none) = t.filter (!·.isEmpty) := by
    rintro (_ | _ | _) <;> rfl
  rw [FormField.ofValue, hmax, hmin, hdescription, hbound, hbound, htitle]
  rfl

theorem isLegible_ofProperty (hname : IsName p.name) (hdescription : ∀ t ∈ p.description, '<' ∉ t) :
    IsLegible (FormField.ofValue (some (Context.ofProperty p))) := by
  have hkinds : ∀ kind : InputKind, '<' ∉ kind.name := by
    intro kind
    cases kind <;> decide
  have hattribute : ∀ (name : String) (value : Option Text), '<' ∉ name.toList →
      (∀ t ∈ value, '<' ∉ t) → '<' ∉ FormField.optionalAttribute name value := by
    intro name value hname hvalue
    cases value with
    | none => exact List.not_mem_nil
    | some t =>
      have ht := hvalue t rfl
      simp [FormField.optionalAttribute, FormField.attributeText, hname, ht]
  have hnumber : ∀ (n : Option Nat), ∀ t ∈ n.map Text.ofNat, '<' ∉ t := by
    rintro n t ht
    obtain ⟨m, -, rfl⟩ := Option.map_eq_some_iff.1 ht
    exact Metadata.notMem_ofInt (by decide) (by decide) (m : Int)
  have htitle : ∀ t ∈ p.description.filter (!·.isEmpty), '<' ∉ t :=
    fun t ht => hdescription t (Option.mem_filter_iff.1 ht).1
  have hrequired : '<' ∉ (if p.isRequired then " required".toList else []) := by
    split <;> decide
  rw [ofValue_ofProperty]
  refine ⟨hname, hkinds p.inputKind, ?_⟩
  simp only [FormField.constraints, List.mem_append, not_or]
  exact ⟨⟨⟨hrequired, hattribute _ _ (by decide) (hnumber p.maxLength)⟩,
    hattribute _ _ (by decide) (hnumber p.minLength)⟩, hattribute _ _ (by decide) htitle⟩

theorem map_name_fieldsOf (properties : List Property) :
    (fieldsOf properties).map FormField.name = namesApart properties := by
  have hname : (FormField.name ∘ fun p => FormField.ofValue (some (Context.ofProperty p))) =
      Property.name := by
    funext p
    exact congrArg FormField.name (ofValue_ofProperty p)
  rw [fieldsOf, List.map_map, hname, apart, namesApart, List.filter_map]
  rfl

theorem isLegible_fieldsOf (hnames : ∀ p ∈ properties, IsName p.name)
    (hdescriptions : ∀ p ∈ properties, ∀ t ∈ p.description, '<' ∉ t) :
    ∀ f ∈ fieldsOf properties, IsLegible f := by
  intro f hf
  obtain ⟨p, hp, rfl⟩ := List.mem_map.1 hf
  have hmem := ((mem_apart_iff properties).1 hp).1
  exact isLegible_ofProperty (hnames p hmem) (hdescriptions p hmem)

/-! ## Every page -/

theorem shows_eq : termCell.shows = nameIn "dt" ∧ valueCell.shows = valueIn "dd" ∧
    columnCell.shows = nameIn "th" ∧ rowCell.shows = valueIn "td" := by
  have htags : termCell.tag.takeWhile (!Text.isBlank ·) = "dt".toList ∧
      valueCell.tag.takeWhile (!Text.isBlank ·) = "dd".toList ∧
      columnCell.tag.takeWhile (!Text.isBlank ·) = "th".toList ∧
      rowCell.tag.takeWhile (!Text.isBlank ·) = "td".toList := by decide
  obtain ⟨hterm, hvalue, hcolumn, hrow⟩ := htags
  refine ⟨?_, ?_, ?_, ?_⟩ <;> funext name
  · rw [Cell.shows, hterm]; rfl
  · rw [Cell.shows, hvalue]; rfl
  · rw [Cell.shows, hcolumn]; rfl
  · rw [Cell.shows, hrow]; rfl

theorem IsUnmarked.shown_empty (h : IsUnmarked s) {title : Text} (htitle : ¬ callMark <:+: title) :
    shown [] (s.emptyPage title) = [] := by
  have hfixed : Silent callMark (fixedLines ["<div>"]) ∧ Silent callMark "    <p>".toList ∧
      Silent callMark "</p>\n".toList ∧ Silent callMark " / ".toList ∧
      Silent callMark (fixedLines ["</div>"]) := by decide
  obtain ⟨hopen, hfront, hback, hslash, hclose⟩ := hfixed
  have hline : pageLine ["    <p>".toList, s.controller, " / ".toList, s.action, "</p>".toList] =
      "    <p>".toList ++ (s.controller ++ ' ' :: ("/ ".toList ++
        (s.action ++ "</p>\n".toList))) := by
    have hslash : " / ".toList = ' ' :: "/ ".toList := rfl
    have hend : "</p>".toList ++ ['\n'] = "</p>\n".toList := rfl
    rw [pageLine, hslash, ← hend]
    simp only [List.flatten_cons, List.flatten_nil, List.append_assoc, List.nil_append,
      List.cons_append]
  have haction : Silent callMark (s.action ++ "</p>\n".toList) :=
    Silent.between h.action.call (by decide) hback
  have hplace : Silent callMark (s.controller ++ ' ' :: ("/ ".toList ++
      (s.action ++ "</p>\n".toList))) :=
    Silent.between h.controller.call (by decide) (hslash.append haction)
  rw [Sheet.emptyPage, hline]
  exact shown_silent ((((h.silent_top (.inr rfl) title htitle).append hopen).append
    (hfront.append hplace)).append hclose) []

theorem not_infix_indexTitleFor
    (htexts : ∀ entry ∈ Context.ofView settings options properties projectName,
      IsUnmarkedText entry.2) : ¬ callMark <:+: indexTitleFor options := by
  have hclass : Unmarked (TypeName.className (Context.modelOf options)) := by
    simp only [Context.ofView, List.forall_mem_cons] at htexts
    exact htexts.2.2.2.1
  rw [indexTitleFor]
  split
  · exact Wording.not_infix_humanize _
  · exact Wording.not_infix_plural hclass.call

/-- The page for a view lists the properties of its model. -/
theorem lists_pageFor (hnames : ∀ p ∈ properties, IsName p.name)
    (hdescriptions : ∀ p ∈ properties, ∀ t ∈ p.description, '<' ∉ t)
    (htexts : ∀ entry ∈ Context.ofView settings options properties projectName,
      IsUnmarkedText entry.2) (kind : ViewKind) :
    Lists (Property.primaryKey? properties) (namesApart properties)
      (pageFor settings options properties projectName kind) kind := by
  have hsheet : IsUnmarked (Sheet.ofContext (Context.ofView settings options properties
      projectName)) := isUnmarked_ofView hnames htexts
  have hkey : (Sheet.ofContext (Context.ofView settings options properties projectName)).key =
      Property.primaryKey? properties := key_ofView hnames
  have hlegible := isLegible_fieldsOf hnames hdescriptions
  have hnamed : ∀ f ∈ fieldsOf properties, IsName f.name := fun f hf => (hlegible f hf).name
  have hlisted := map_name_fieldsOf properties
  obtain ⟨hterm, hvalue, hcolumn, hrow⟩ := shows_eq
  cases kind with
  | empty => exact hsheet.shown_empty (Wording.not_infix_humanize options.action)
  | index =>
    have hshown := hsheet.shown_index hnamed (not_infix_indexTitleFor htexts)
    rwa [hlisted, hcolumn, hrow] at hshown
  | create => exact (hsheet.boundNames_create hlegible).trans hlisted
  | edit =>
    have hbound := hsheet.boundNames_edit hlegible
    rwa [hkey, hlisted] at hbound
  | details =>
    have hshown := hsheet.shown_details hnamed
    rwa [hlisted, hterm, hvalue] at hshown
  | delete =>
    refine ⟨?_, ?_⟩
    · exact (hsheet.boundNames_delete hnamed).trans (congrArg _ hkey)
    · have hshown := hsheet.shown_delete hnamed
      rwa [hlisted, hterm, hvalue] at hshown

/-- A property of an order. -/
def ofOrder (name : String) (kind : InputKind) (isKey : Bool) (description : Option Text) :
    Property where
  name := name.toList
  declaredType := "string".toList
  isNullable := false
  isPrimaryKey := isKey
  isRequired := true
  attributes := []
  inputKind := kind
  displayName := none
  description := description
  maxLength := some 80
  minLength := none

/-- The properties of an order: two are marked as key, and a name is given twice. -/
def order : List Property :=
  [ofOrder "Number" .number true none, ofOrder "Id" .number true none,
    ofOrder "Note" .text false (some "longer > better".toList),
    ofOrder "IsPaid" .checkbox false none, ofOrder "Token" .hidden false none,
    ofOrder "Note" .email false none]

/-- A view for an order. -/
def orderView (kind : ViewKind) : ViewOptions :=
  ⟨"w".toList, "Orders".toList, kind.action, kind, some "Shop.Models.Order".toList, none, none,
    true⟩

end RazorViews.Page
