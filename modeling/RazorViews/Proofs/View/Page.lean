import RazorViews.View.Template

/-!
# The pages for views

What a page asks of its context, the context of a view has and of the right kind, so there is one
thing only that keeps a page from being printed.  A form says in digits how long the text of an
input may be, and no whole number of more than `Number.maxDigits` digits is printed.  A form is
therefore printed if and only if every input on it that says so has bounds that can be printed
(`CanPrint`); a page of any other kind is printed always.  `ofView_eq` gives the page of a view, or
the failure, in all cases.

Bounds that come out of a source can be printed, since a numeral of so many digits is not read
either; those that a caller makes up need not be.

The name of the project is not on any of these pages.
-/

namespace RazorViews

/-! ## What can be printed -/

/-- A number on a page can be printed. -/
def IsPrintable (n : Nat) : Prop := (Text.ofNat n).length ≤ Number.maxDigits

instance (n : Nat) : Decidable (IsPrintable n) := inferInstanceAs (Decidable (_ ≤ _))

/-- The bounds on the length of a property can be printed, as far as it has any. -/
structure Property.IsPrintable (p : Property) : Prop where
  maxLength : ∀ n ∈ p.maxLength, RazorViews.IsPrintable n
  minLength : ∀ n ∈ p.minLength, RazorViews.IsPrintable n

instance (p : Property) : Decidable p.IsPrintable :=
  decidable_of_iff ((∀ n ∈ p.maxLength, IsPrintable n) ∧ ∀ n ∈ p.minLength, IsPrintable n)
    ⟨fun h => ⟨h.1, h.2⟩, fun h => ⟨h.maxLength, h.minLength⟩⟩

namespace Value

variable {values : List Value}

theorem print_ok (h : ∀ v ∈ values, v.isPrintable = true) : print values = .ok () :=
  if_pos (List.all_eq_true.2 h)

theorem isPrintable_text (t : Option Text) : isPrintable (some (.ofOption .text t)) = true := by
  cases t with
  | none => rfl
  | some t => rfl

theorem isPrintable_bound (b : Option Nat) :
    isPrintable (some (.ofOption .ofNat b)) = true ↔ ∀ n ∈ b, IsPrintable n := by
  cases b with
  | none => simp [isPrintable, isShortInside, Json.ofOption]
  | some n => simp [isPrintable, isShortInside, Json.ofOption, Json.ofNat, IsPrintable]

end Value

namespace Page

variable (settings : Settings) (options : ViewOptions) (properties : List Property)
  (projectName : Text)

/-! ## The properties on a page -/

/-- The properties apart from those named like the key, in order. -/
def apart : List Property :=
  properties.filter fun p => Property.primaryKey? properties != some p.name

/-- What a page says about the properties. -/
def fieldsOf : List FormField :=
  (apart properties).map fun p => FormField.ofValue (some (Context.ofProperty p))

theorem mem_apart_iff {p : Property} :
    p ∈ apart properties ↔ p ∈ properties ∧ Property.primaryKey? properties ≠ some p.name := by
  rw [apart, List.mem_filter, bne_iff_ne]

theorem part_name (p : Property) :
    Value.part (some (Context.ofProperty p)) "name" = some (.text p.name) := rfl

/-- A name is the same value as that of the key exactly if it is the name of the key. -/
theorem same_key (name : Text) (key : Option Text) :
    Value.same (some (.text name)) (some (.ofOption .text key)) = (key == some name) := by
  cases key with
  | none => rfl
  | some k =>
    rw [Json.ofOption, Value.same, Value.sameJson, Bool.eq_iff_iff, beq_iff_eq, beq_iff_eq,
      Option.some_inj, eq_comm]

/-- On a page are the properties apart from the key, if what is printed of them can be. -/
theorem ofContext_ofView (printed : Value → List Value) :
    FormField.ofContext printed (Context.ofView settings options properties projectName) =
      (Value.print ((apart properties).flatMap fun p =>
        printed (some (Context.ofProperty p)))).map fun _ => fieldsOf properties := by
  have hkey : (Context.ofView settings options properties projectName).get?
      "primary_key_property" = some (.ofOption .text (Property.primaryKey? properties)) := rfl
  have hitems : Value.items ((Context.ofView settings options properties projectName).get?
      "properties") = .ok ((properties.map Context.ofProperty).map some) := rfl
  have hapart : ((properties.map Context.ofProperty).map some).filter
      (fun p : Value => !(p.part "name").same
        (some (.ofOption .text (Property.primaryKey? properties)))) =
      (apart properties).map fun p => some (Context.ofProperty p) := by
    rw [List.map_map, List.filter_map, apart]
    congr 2
    funext p
    rw [Function.comp, Function.comp, part_name, same_key]
    rfl
  rw [FormField.ofContext, hkey, hitems]
  simp only [bind, Except.bind]
  rw [hapart, List.flatMap_map, fieldsOf, List.map_map]
  cases Value.print _ with
  | error failure => rfl
  | ok done => rfl

/-- A property that is shown is printed by its name. -/
theorem print_shown :
    Value.print ((apart properties).flatMap fun p =>
      FormField.shown (some (Context.ofProperty p))) = .ok () := by
  refine Value.print_ok fun v hv => ?_
  obtain ⟨p, -, hv⟩ := List.mem_flatMap.1 hv
  rw [List.mem_singleton.1 hv, part_name]
  rfl

theorem shapeOf_name (kind : InputKind) :
    FormField.shapeOf (some (.text kind.name)) =
      if kind = .checkbox then .checkbox else if kind = .hidden then .hidden else .labelled := by
  cases kind <;> decide

/-- What is printed of a property that is entered can be, if its bounds can be or are not said. -/
theorem isPrintable_entered (p : Property) :
    (∀ v ∈ FormField.entered (some (Context.ofProperty p)), v.isPrintable = true) ↔
      (p.inputKind ≠ .checkbox → p.inputKind ≠ .hidden → p.IsPrintable) := by
  have hname : Value.isPrintable (Value.part (some (Context.ofProperty p)) "name") = true := rfl
  have hkind : Value.part (some (Context.ofProperty p)) "input_type" =
      some (.text p.inputKind.name) := rfl
  have hmax : Value.isPrintable (Value.part (some (Context.ofProperty p)) "max_length") = true ↔
      ∀ n ∈ p.maxLength, IsPrintable n := Value.isPrintable_bound p.maxLength
  have hmin : Value.isPrintable (Value.part (some (Context.ofProperty p)) "min_length") = true ↔
      ∀ n ∈ p.minLength, IsPrintable n := Value.isPrintable_bound p.minLength
  have hdescription :
      Value.isPrintable (Value.part (some (Context.ofProperty p)) "description") = true :=
    Value.isPrintable_text p.description
  have hbounds : p.IsPrintable ↔
      (∀ n ∈ p.maxLength, IsPrintable n) ∧ ∀ n ∈ p.minLength, IsPrintable n :=
    ⟨fun h => ⟨h.maxLength, h.minLength⟩, fun h => ⟨h.1, h.2⟩⟩
  rw [FormField.entered, hkind, shapeOf_name]
  by_cases hcheckbox : p.inputKind = .checkbox
  · simp [hcheckbox, hname]
  · by_cases hhidden : p.inputKind = .hidden
    · simp [hhidden, hname]
    · have hinput : Value.isPrintable (some (.text p.inputKind.name)) = true := rfl
      simp [hcheckbox, hhidden, hname, hkind, hinput, hmax, hmin, hdescription, hbounds]

/-- A form can be printed: all bounds that it says can be. -/
def CanPrintForm : Prop :=
  ∀ p ∈ properties, Property.primaryKey? properties ≠ some p.name →
    p.inputKind ≠ .checkbox → p.inputKind ≠ .hidden → p.IsPrintable

instance : Decidable (CanPrintForm properties) :=
  inferInstanceAs (Decidable (∀ p ∈ properties, _ → _ → _ → _))

theorem print_entered :
    Value.print ((apart properties).flatMap fun p =>
      FormField.entered (some (Context.ofProperty p))) =
      if CanPrintForm properties then .ok () else .error (.tooManyDigits none) := by
  have hall : (∀ v ∈ (apart properties).flatMap fun p =>
      FormField.entered (some (Context.ofProperty p)), v.isPrintable = true) ↔
        CanPrintForm properties := by
    simp only [List.mem_flatMap, forall_exists_index, and_imp, CanPrintForm]
    constructor
    · intro h p hp hkey
      exact (isPrintable_entered p).1 fun v => h v p ((mem_apart_iff properties).2 ⟨hp, hkey⟩)
    · intro h v p hp
      obtain ⟨hp, hkey⟩ := (mem_apart_iff properties).1 hp
      exact (isPrintable_entered p).2 (h p hp hkey) v
  rw [Value.print]
  exact ite_congr (propext (List.all_eq_true.trans hall)) (fun _ => rfl) fun _ => rfl

/-! ## Pages -/

/-- The title of an index: the class of the model in the plural, or else the action. -/
def indexTitleFor : Text :=
  let name := TypeName.className (Context.modelOf options)
  if name.isEmpty then Wording.humanize options.action else Wording.plural name

theorem indexTitle_ofView :
    indexTitle (Context.ofView settings options properties projectName) =
      .ok (indexTitleFor options) := by
  have hname : (Context.ofView settings options properties projectName).get? "model_name" =
      some (.text (TypeName.className (Context.modelOf options))) := rfl
  have haction : (Context.ofView settings options properties projectName).get? "action_name" =
      some (.text options.action) := rfl
  rw [indexTitle, hname, haction, indexTitleFor]
  cases hempty : (TypeName.className (Context.modelOf options)).isEmpty with
  | true =>
    rw [if_neg (by simp [Value.isTrue, hempty]), if_pos rfl]
    rfl
  | false =>
    rw [if_pos (by simp [Value.isTrue, hempty]), if_neg Bool.false_ne_true]
    rfl

/-- The page of a kind for a view. -/
def pageFor (kind : ViewKind) : Text :=
  let sheet := Sheet.ofContext (Context.ofView settings options properties projectName)
  let fields := fieldsOf properties
  match kind with
  | .empty => sheet.emptyPage (Wording.humanize options.action)
  | .index => sheet.indexPage (indexTitleFor options) fields
  | .create => sheet.createPage fields
  | .edit => sheet.editPage fields
  | .details => sheet.detailsPage fields
  | .delete => sheet.deletePage fields

/-- A page of a kind can be printed: unless it is a form, always. -/
def CanPrint (kind : ViewKind) : Prop :=
  kind = .create ∨ kind = .edit → CanPrintForm properties

instance (kind : ViewKind) : Decidable (CanPrint properties kind) :=
  inferInstanceAs (Decidable (_ → _))

/-- What a context says of a view is printed, whatever part of it that is. -/
theorem print_texts {values : List Value} (h : ∀ v ∈ values, ∃ t : Option Text,
    v = some (.ofOption .text t)) : Value.print values = .ok () := by
  refine Value.print_ok fun v hv => ?_
  obtain ⟨t, rfl⟩ := h v hv
  exact Value.isPrintable_text t

/-- The page of a view, or the one failure that can keep it from being printed. -/
theorem ofView_eq (kind : ViewKind) :
    ofView kind (Context.ofView settings options properties projectName) =
      if CanPrint properties kind then .ok (pageFor settings options properties projectName kind)
      else .error (.tooManyDigits none) := by
  have htitle : titleOf ((Context.ofView settings options properties projectName).get?
      "action_name") = .ok (Wording.humanize options.action) := rfl
  have hindex := indexTitle_ofView settings options properties projectName
  have hshown : FormField.ofContext FormField.shown (Context.ofView settings options properties
      projectName) = .ok (fieldsOf properties) := by
    rw [ofContext_ofView, print_shown]
    rfl
  have hentered : FormField.ofContext FormField.entered (Context.ofView settings options
      properties projectName) =
        if CanPrintForm properties then .ok (fieldsOf properties)
        else .error (.tooManyDigits none) := by
    rw [ofContext_ofView, print_entered]
    split
    · rfl
    · rfl
  have htext : ∀ name ∈ ["model", "layout_page", "controller_name", "primary_key_property",
      "model_name"], ∃ t : Option Text, (Context.ofView settings options properties
        projectName).get? name = some (.ofOption .text t) := by
    simp only [List.forall_mem_cons]
    exact ⟨⟨some _, rfl⟩, ⟨_, rfl⟩, ⟨some _, rfl⟩, ⟨_, rfl⟩, ⟨some _, rfl⟩, by simp⟩
  simp only [List.forall_mem_cons] at htext
  obtain ⟨hmodel, hlayout, hcontroller, hkey, hname, -⟩ := htext
  have hsubject : ∃ t : Option Text, ((Context.ofView settings options properties
      projectName).get? "model_name").orElse ((Context.ofView settings options properties
      projectName).get? "controller_name") = some (.ofOption .text t) := by
    rw [Value.orElse]
    split
    · exact hname
    · exact hcontroller
  have hprint : ∀ values, (∀ v ∈ values, ∃ t : Option Text, v = some (.ofOption .text t)) →
      Value.print values = .ok () := fun _ => print_texts
  have hforms : ∀ kind, CanPrint properties kind ↔
      (kind = .create ∨ kind = .edit → CanPrintForm properties) := fun _ => Iff.rfl
  cases kind with
  | empty | index | details | delete =>
    simp only [ofView, pageFor, bind, Except.bind, pure, Except.pure, htitle, hindex, hshown,
      hmodel, hlayout, hcontroller, hkey, hsubject, hprint, hforms, List.forall_mem_cons,
      List.not_mem_nil, false_imp_iff, implies_true, and_self, reduceCtorEq, or_self, if_true]
  | create | edit =>
    simp only [ofView, pageFor, bind, Except.bind, pure, Except.pure, hentered, hmodel, hlayout,
      hkey, hsubject, hprint, hforms, List.forall_mem_cons, List.not_mem_nil, false_imp_iff,
      implies_true, and_self, reduceCtorEq, or_false, or_true, true_imp_iff]
    by_cases hform : CanPrintForm properties
    · rw [if_pos hform, if_pos hform]
    · rw [if_neg hform, if_neg hform]

theorem pageFor_projectName (kind : ViewKind) (other : Text) :
    pageFor settings options properties projectName kind =
      pageFor settings options properties other kind := by
  cases kind with
  | empty | index | create | edit | details | delete => rfl

/-- The template of a kind of view prints its page. -/
theorem render_view (kind : ViewKind) :
    Template.render kind.name.toList (Context.ofView settings options properties projectName) =
      ofView kind (Context.ofView settings options properties projectName) := by
  have hname : Template.ofName? kind.name.toList = some (.view kind) := by
    cases kind <;> decide
  rw [Template.render, hname]
  rfl

end Page

end RazorViews
