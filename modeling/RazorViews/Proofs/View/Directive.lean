import RazorViews.Proofs.Pattern.Prefers
import RazorViews.Proofs.TypeName.ClassName
import RazorViews.Proofs.View.Page
import RazorViews.View.Directive

/-!
# The way back from a view to its model

Every page with a model begins with a line that names it (`modelLine_prefix`), and the directive
that is read from a text with such a line in front is that of this line, to its end
(`modelType?_line`).

## What is proved

`modelType?_render` says of every type of a model, which is a dotted name, with type arguments or
without, optional or not, and of any settings, options, properties, project name and kind of view:

* in the text that a template gives for the view, the directive names the type of the model, or on
  an index page the type of the lists of models, whatever else is on the page; and the name of the
  class that is taken from that is the class of the model;
* there is such a text unless the view is a form, which is to say for `create` or `edit`, with a
  bound of more digits than are printed (`Page.CanPrint`);
* in that case the template fails, and with this failure.

Bounds that come out of source are never so long, so the last case is not met by what is extracted
(`Property.isPrintable_of_extract`); it is met by properties that are made otherwise.

## The proof

The line of the directive is the first one on all pages, so nothing of the page needs to be looked
at behind it.  Two patterns read a directive.  What they prefer to read of a dotted name with
arguments is the whole of it, since the characters of names go on for as long as there are any
(`prefers_path`), and what stands behind the closing bracket belongs to no name (`prefers_named`).
-/

namespace RazorViews

open Pattern RazorViews.TypeName

/-! ## Reading the line -/

namespace Directive

variable {p : Place} {behind rest : Text}

/-- The characters of a path. -/
def isDotted (c : Char) : Bool := Text.isWord c || c == '.'

/-- Type arguments, in a directive. -/
def arguments : Pattern := lit "<" ++ run isUnbroken .most ++ lit ">"

/-- The type that a directive names. -/
def named : Pattern := run1 isDotted ++ maybe arguments ++ maybe (lit "?")

theorem model_eq : model = lit "@model" ++ blanks1 ++ keep "type" named := rfl

theorem prefers_path (path : DottedPath) (hp : p.rest = path.written ++ behind)
    (hbehind : ∀ c ∈ behind.head?, isDotted c = false) :
    (run1 isDotted).Prefers p (p.after path.written behind) :=
  prefers_run1 hp path.written_ne_nil path.isWord_or_dot hbehind

theorem prefers_mark (isOptional : Bool) (hp : p.rest = markOf isOptional ++ '\n' :: rest) :
    (maybe (lit "?")).Prefers p (p.after (markOf isOptional) ('\n' :: rest)) := by
  cases isOptional with
  | true => exact Prefers.either (prefers_exactly hp) nothing
  | false =>
    have hhead : p.rest.head? ≠ some '?' := by
      rw [hp]
      exact fun h => absurd (Option.some.inj h) (by decide)
    have hstays : p.after (markOf false) ('\n' :: rest) = p := Place.after_nil hp
    rw [hstays]
    exact prefers_maybe_nothing (not_leads_exactly hhead)

/-- In front of a question mark or a line feed there are no arguments. -/
theorem prefers_no_arguments (isOptional : Bool) (hp : p.rest = markOf isOptional ++ '\n' :: rest) :
    (maybe arguments).Prefers p p := by
  refine prefers_maybe_nothing ?_
  rintro q ⟨m, hopen, -⟩
  refine not_leads_exactly_append (c := '<') ?_ m hopen
  rw [hp]
  cases isOptional with
  | true => exact fun h => absurd (Option.some.inj h) (by decide)
  | false => exact fun h => absurd (Option.some.inj h) (by decide)

/-- Arguments are read to the last closing bracket of the line. -/
theorem prefers_arguments (a : TypeArguments) (isOptional : Bool)
    (hp : p.rest = '<' :: a.written ++ '>' :: (markOf isOptional ++ '\n' :: rest)) :
    (maybe arguments).Prefers p
      (p.after ('<' :: a.written ++ ['>']) (markOf isOptional ++ '\n' :: rest)) := by
  have hopen : (lit "<").Prefers p
      (p.after ['<'] (a.written ++ '>' :: (markOf isOptional ++ '\n' :: rest))) :=
    prefers_exactly hp
  have hclose : (run isUnbroken .most ++ lit ">").Prefers
      (p.after ['<'] (a.written ++ '>' :: (markOf isOptional ++ '\n' :: rest)))
      ((p.after ['<'] (a.written ++ '>' :: (markOf isOptional ++ '\n' :: rest))).after
        (a.written ++ ['>']) (markOf isOptional ++ '\n' :: rest)) := by
    refine prefers_run_before rfl a.isUnbroken (bare_markOf isOptional).2 ?_
    intro c hc
    obtain rfl : '\n' = c := Option.some.inj hc
    decide
  rw [Place.after_after] at hclose
  exact Prefers.either (hopen.append hclose) nothing

theorem prefers_named (t : ModelType) (hp : p.rest = t.written ++ '\n' :: rest) :
    named.Prefers p (p.after t.written ('\n' :: rest)) := by
  have hnotDotted : ∀ (isOptional : Bool) (more : Text),
      ∀ c ∈ (markOf isOptional ++ '\n' :: more).head?, isDotted c = false := by
    intro isOptional more c hc
    have hends : ∀ d ∈ ['?', '\n'], isDotted d = false :=
      List.forall_mem_cons.2 ⟨by decide, List.forall_mem_singleton.2 (by decide)⟩
    cases isOptional with
    | true => exact hends c (by simp [← Option.some.inj hc])
    | false => exact hends c (by simp [← Option.some.inj hc])
  cases t with
  | plain path isOptional =>
    rw [ModelType.written, List.append_assoc] at hp
    have hpath := prefers_path path hp (hnotDotted isOptional rest)
    have hmark : (maybe (lit "?")).Prefers
        (p.after path.written (markOf isOptional ++ '\n' :: rest)) _ :=
      prefers_mark isOptional rfl
    rw [Place.after_after] at hmark
    exact (hpath.append (prefers_no_arguments isOptional rfl)).append hmark
  | generic path a isOptional =>
    have hp' : p.rest =
        path.written ++ ('<' :: a.written ++ '>' :: (markOf isOptional ++ '\n' :: rest)) := by
      rw [hp, ModelType.written]
      simp
    have hangle : isDotted '<' = false := by decide
    have hpath := prefers_path path hp' (by
      intro c hc
      rw [← Option.some.inj hc]
      exact hangle)
    have harguments : (maybe arguments).Prefers (p.after path.written
        ('<' :: a.written ++ '>' :: (markOf isOptional ++ '\n' :: rest))) _ :=
      prefers_arguments a isOptional rfl
    rw [Place.after_after] at harguments
    have hmark : (maybe (lit "?")).Prefers
        (p.after (path.written ++ ('<' :: a.written ++ ['>'])) (markOf isOptional ++ '\n' :: rest))
        _ :=
      prefers_mark isOptional rfl
    rw [Place.after_after] at hmark
    have hall := (hpath.append harguments).append hmark
    have hwritten : path.written ++ ('<' :: a.written ++ ['>']) ++ markOf isOptional =
        (ModelType.generic path a isOptional).written := by
      rw [ModelType.written]
      simp
    rwa [hwritten] at hall

/-- The directive of the first line is read to its end. -/
theorem modelType?_line (t : ModelType) (rest : Text) :
    modelType? ("@model ".toList ++ t.written ++ '\n' :: rest) = some t.written := by
  have hview : "@model ".toList ++ t.written ++ '\n' :: rest =
      "@model".toList ++ ([' '] ++ (t.written ++ '\n' :: rest)) := by
    rw [List.append_assoc]
    rfl
  have hword : (lit "@model").Prefers _ _ :=
    prefers_exactly
      (p := Place.start ("@model".toList ++ ([' '] ++ (t.written ++ '\n' :: rest)))) rfl
  have hspace : ∀ p : Place, p.rest = [' '] ++ (t.written ++ '\n' :: rest) →
      blanks1.Prefers p (p.after [' '] (t.written ++ '\n' :: rest)) := by
    intro p hp
    refine prefers_run1 hp (by simp) (List.forall_mem_singleton.2 (by decide)) ?_
    intro c hc
    obtain ⟨d, more, hd⟩ := List.exists_cons_of_ne_nil t.written_ne_nil
    rw [hd] at hc
    exact t.not_isBlank_head c (by rw [hd]; exact hc)
  have hfound := ((hword.append (hspace _ rfl)).append ((prefers_named t rfl).keep "type")).find?
  rw [hview, modelType?, model_eq, hfound]
  simp [Found.kept?, Place.after, Place.start]

end Directive

/-! ## The line on the page -/

/-- The type that the page of a kind of view is about. -/
def ViewKind.shown (kind : ViewKind) (type : ModelType) : ModelType :=
  if kind = .index then type.listOf else type

/-- The line that names a type at the top of a page. -/
def modelLineOf (type : ModelType) : Text := "@model ".toList ++ type.written ++ ['\n']

variable {options : ViewOptions} {type : ModelType}

theorem sheet_model (h : options.modelType = some type.written) (settings : Settings)
    (properties : List Property) (projectName : Text) :
    (Sheet.ofContext (Context.ofView settings options properties projectName)).model =
      some type.written := by
  have hmodel : (Context.ofView settings options properties projectName).get? "model" =
      some (.text (Context.modelOf options)) := rfl
  have hwritten : Context.modelOf options = type.written := by
    rw [Context.modelOf, h]
    rfl
  have hne : type.written.isEmpty = false := List.isEmpty_eq_false_iff.2 type.written_ne_nil
  rw [Sheet.ofContext, hmodel, hwritten, Sheet.textIfTrue, Value.isTrue, hne]
  rfl

theorem modelLine_eq {s : Sheet} {shown : ModelType} (h : s.model = some type.written)
    (before behind : String)
    (hshown : shown.written = before.toList ++ type.written ++ behind.toList) :
    s.modelLine before behind = modelLineOf shown := by
  have hpieces : ∀ word front middle back : Text,
      pageLine [word, front, middle, back] = word ++ (front ++ middle ++ back) ++ ['\n'] := by
    intro word front middle back
    simp [pageLine]
  have hline : s.modelLine before behind =
      pageLine ["@model ".toList, before.toList, type.written, behind.toList] := by
    rw [Sheet.modelLine, h]
  calc s.modelLine before behind
      = "@model ".toList ++ (before.toList ++ type.written ++ behind.toList) ++ ['\n'] :=
        hline.trans (hpieces _ _ _ _)
    _ = modelLineOf shown := congrArg (fun w => "@model ".toList ++ w ++ ['\n']) hshown.symm

theorem modelLine_prefix_top (s : Sheet) (title rest : Text) :
    s.modelLine "" "" <+: s.top title ++ rest := by
  simp only [Sheet.top, List.append_assoc]
  exact List.prefix_append _ _

theorem modelLine_prefix_form (s : Sheet) (action button : String) (keyPart : Text)
    (fields : List FormField) : s.modelLine "" "" <+: s.form action button keyPart fields := by
  simp only [Sheet.form, List.append_assoc]
  exact modelLine_prefix_top s _ _

/-- Every kind of page has the line that names its model in front. -/
theorem modelLine_prefix (kind : ViewKind) (settings : Settings) (properties : List Property)
    (projectName : Text) {options : ViewOptions} (h : options.modelType = some type.written) :
    modelLineOf (kind.shown type) <+:
      Page.pageFor settings options properties projectName kind := by
  have hmodel := sheet_model h settings properties projectName
  rw [Page.pageFor.eq_def]
  generalize Sheet.ofContext (Context.ofView settings options properties projectName) = s
    at hmodel
  have hline : s.modelLine "" "" = modelLineOf type :=
    modelLine_eq hmodel "" "" (List.append_nil _).symm
  cases kind with
  | empty =>
    simp only [Sheet.emptyPage, List.append_assoc]
    exact hline ▸ modelLine_prefix_top s _ _
  | index =>
    have hlist : s.modelLine "IEnumerable<" ">" = modelLineOf type.listOf :=
      modelLine_eq hmodel "IEnumerable<" ">" type.written_listOf
    simp only [Sheet.indexPage, List.append_assoc]
    exact hlist ▸ List.prefix_append _ _
  | create => exact hline ▸ modelLine_prefix_form s _ _ _ _
  | edit => exact hline ▸ modelLine_prefix_form s _ _ _ _
  | details =>
    simp only [Sheet.detailsPage, List.append_assoc]
    exact hline ▸ modelLine_prefix_top s _ _
  | delete =>
    simp only [Sheet.deletePage, List.append_assoc]
    exact hline ▸ modelLine_prefix_top s _ _

/-! ## The way back -/

/-- The directive read back from the page for a view names the type of the model, on an index page
the type of the lists of models. -/
theorem modelType?_pageFor (type : ModelType) (kind : ViewKind) (settings : Settings)
    (options : ViewOptions) (properties : List Property) (projectName : Text) :
    Directive.modelType? (Page.pageFor settings
      { options with modelType := some type.written } properties projectName kind) =
        some (kind.shown type).written := by
  have hmodel : { options with modelType := some type.written }.modelType = some type.written := rfl
  obtain ⟨rest, hrest⟩ := modelLine_prefix kind settings properties projectName hmodel
  have hview : Page.pageFor settings { options with modelType := some type.written } properties
      projectName kind = "@model ".toList ++ (kind.shown type).written ++ '\n' :: rest :=
    hrest.symm.trans (List.append_assoc _ _ rest)
  exact hview ▸ Directive.modelType?_line (kind.shown type) rest

end RazorViews
