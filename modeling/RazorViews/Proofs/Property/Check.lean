import RazorViews.Property.Basic

/-!
# Records that check

Candidates and properties are checked when they are made, by the check of their record: each field
has to be of its kind, and the texts that must not be empty may not be empty.

The fields that a candidate or a property is written with are the ones that the check of its record
reads, and reading them gives the record back: `Candidate.check_fields`, `Property.check_fields`.
The check asks for nothing but that the texts that must not be empty are not, so a record that has a
name and a type always checks, and the only failure that is left when a property is made is that its
type is empty; see `extract_ok_iff`.

The lemmas in front are one for each kind of field: a flag, a list, a number, a choice, one that may
be missing.  The checks of the settings use the same kinds.
-/

namespace RazorViews

namespace Checked

/-- Checks of the items of a list that yield what the items were made of. -/
theorem each_map {α β : Type} (encode : β → α) {check : α → Checked β}
    (h : ∀ b, check (encode b) = good b) (index : Nat) (bs : List β) :
    each check index (bs.map encode) = good bs := by
  induction bs generalizing index with
  | nil => rfl
  | cons b bs ih => rw [List.map_cons, each, h, ih]; rfl

end Checked

namespace Field

theorem nonEmptyText_text {t : Text} (h : t ≠ []) : nonEmptyText (.text t) = .good t := by
  cases t with
  | nil => exact absurd rfl h
  | cons c t => rfl

theorem flag_bool (b : Bool) : flag (.bool b) = .good b := rfl

theorem tuple_ofTexts (ts : List Text) : tuple text (.ofTexts ts) = .good ts :=
  Checked.each_map Json.text (fun _ => rfl) 0 ts

theorem list_ofTexts (ts : List Text) : list text (.ofTexts ts) = .good ts :=
  Checked.each_map Json.text (fun _ => rfl) 0 ts

theorem optional_text (o : Option Text) : optional text (.ofOption .text o) = .good o := by
  cases o <;> rfl

theorem wholeFrom_ofNat {least n : Nat} (h : least ≤ n) : wholeFrom least (.ofNat n) = .good n := by
  have hbound : ¬ (n : Int) < (least : Int) := by omega
  show (if (n : Int) < (least : Int) then Checked.fault .tooSmall
    else .good (n : Int).toNat) = _
  rw [if_neg hbound, Int.toNat_natCast]

theorem optional_ofNat (o : Option Nat) :
    optional (wholeFrom 0) (.ofOption .ofNat o) = .good o := by
  cases o with
  | none => rfl
  | some n =>
    show (wholeFrom 0 (.ofNat n)).map some = _
    rw [wholeFrom_ofNat n.zero_le]
    rfl

theorem choice_name (kind : InputKind) :
    choice InputKind.ofName? (.text kind.name) = .good kind := by
  cases kind <;> rfl

section Given

variable {α : Type} {given : List (Text × Json)} {key : String} {document : Json}
  {check : Json → Checked α} {a : α}

theorem required_eq_good (hgiven : given.lookup key.toList = some document)
    (hcheck : check document = .good a) : required given key check = .good a := by
  rw [required, hgiven]
  simp only [hcheck, Checked.under]

theorem defaulting_eq_good (hgiven : given.lookup key.toList = some document)
    (hcheck : check document = .good a) (value : α) :
    defaulting given key value check = .good a := by
  rw [defaulting, hgiven]
  simp only [hcheck, Checked.under]

end Given

end Field

/-- A candidate with a name and a type checks. -/
theorem Candidate.check_fields {c : Candidate} (hname : c.name ≠ []) (htype : c.rawType ≠ []) :
    Candidate.check (.record c.fields) = .good c := by
  rw [Candidate.check, Json.record, Field.members]
  show Candidate.mk <$> _ <*> _ <*> _ <*> _ = _
  rw [Field.required_eq_good rfl (Field.nonEmptyText_text hname),
    Field.required_eq_good rfl (Field.nonEmptyText_text htype),
    Field.defaulting_eq_good rfl (Field.tuple_ofTexts c.attributes),
    Field.defaulting_eq_good rfl (Field.wholeFrom_ofNat c.line.zero_le)]
  rfl

/-- A property with a name and a type checks. -/
theorem Property.check_fields {p : Property} (hname : p.name ≠ []) (htype : p.declaredType ≠ []) :
    Property.check (.record p.fields) = .good p := by
  rw [Property.check, Json.record, Field.members]
  show Property.mk <$> _ <*> _ <*> _ <*> _ <*> _ <*> _ <*> _ <*> _ <*> _ <*> _ <*> _ = _
  rw [Field.required_eq_good rfl (Field.nonEmptyText_text hname),
    Field.required_eq_good rfl (Field.nonEmptyText_text htype),
    Field.defaulting_eq_good rfl (Field.flag_bool p.isNullable),
    Field.defaulting_eq_good rfl (Field.flag_bool p.isPrimaryKey),
    Field.defaulting_eq_good rfl (Field.flag_bool p.isRequired),
    Field.defaulting_eq_good rfl (Field.tuple_ofTexts p.attributes),
    Field.defaulting_eq_good rfl (Field.choice_name p.inputKind),
    Field.defaulting_eq_good rfl (Field.optional_text p.displayName),
    Field.defaulting_eq_good rfl (Field.optional_text p.description),
    Field.defaulting_eq_good rfl (Field.optional_ofNat p.maxLength),
    Field.defaulting_eq_good rfl (Field.optional_ofNat p.minLength)]
  rfl

end RazorViews
