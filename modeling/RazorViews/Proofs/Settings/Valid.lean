import RazorViews.Proofs.Property.Check
import RazorViews.Proofs.Number.Model
import RazorViews.Settings.Environment

/-!
# Valid settings

Settings are valid when they keep the bounds that their checks ask for: at least one entry, and
numbers of seconds above zero.  These are exactly the settings that come out of a check
(`isValid_iff`), and those that an environment sets are among them (`isValid_of_ofEnvironment`).
Infinity lies above zero, so the bounds let it through; what is not a number does not, nor do zero
and negative numbers.

The number of entries has no upper bound in a check.  One that an environment sets is read from a
numeral, which has not too many digits; one that a document gives may have any number of them.  This
makes a difference for loading (`load_save_iff`).

`check_encoded` has the check of settings of which the two numbers are given as documents of their
own, since what is saved of them is not always what they are.
-/

namespace RazorViews

namespace Checked

variable {α β : Type}

theorem map_eq_good {f : α → β} {x : Checked α} {b : β} (h : f <$> x = good b) :
    ∃ a, x = good a ∧ f a = b := by
  cases x with
  | good a => exact ⟨a, rfl, good.inj h⟩
  | bad faults => cases h

theorem seq_eq_good {f : Checked (α → β)} {x : Checked α} {b : β} (h : f <*> x = good b) :
    ∃ g a, f = good g ∧ x = good a ∧ g a = b := by
  cases f with
  | good g =>
    cases x with
    | good a => exact ⟨g, a, rfl, rfl, good.inj h⟩
    | bad faults => cases h
  | bad faults => cases x <;> cases h

theorem andThen_eq_good {x : Checked α} {next : α → Checked β} {b : β}
    (h : x.andThen next = good b) : ∃ a, x = good a ∧ next a = good b := by
  cases x with
  | good a => exact ⟨a, rfl, h⟩
  | bad faults => cases h

/-- A value with the faults found on the way to it. -/
def ofFaults (a : α) : List Fault → Checked α
  | [] => good a
  | f :: faults => bad (f :: faults)

theorem seq_ofFaults (f : α → β) (a : α) (faults more : List Fault) :
    ofFaults f faults <*> ofFaults a more = ofFaults (f a) (faults ++ more) := by
  cases faults <;> cases more <;> simp [ofFaults, Seq.seq, ap]

/-- Faults that are found below a key. -/
def below (key : String) (faults : List Fault) : List Fault :=
  faults.map fun f => { f with location := key.toList :: f.location }

theorem under_ofFaults (key : String) (a : α) (faults : List Fault) :
    (ofFaults a faults).under key.toList = ofFaults a (below key faults) := by
  cases faults <;> rfl

end Checked

namespace Field

variable {α : Type} {document : Json}

theorem defaulting_ofFaults {given : List (Text × Json)} {key : String}
    {check : Json → Checked α} {a : α} {faults : List Fault}
    (hgiven : given.lookup key.toList = some document)
    (hcheck : check document = Checked.ofFaults a faults) (value : α) :
    defaulting given key value check = Checked.ofFaults a (Checked.below key faults) := by
  rw [defaulting, hgiven]
  simp only [hcheck, Checked.under_ofFaults]

/-- What a check of a field yields is the field's own value or comes out of the check. -/
theorem of_defaulting {given : List (Text × Json)} {key : String} {value a : α}
    {check : Json → Checked α} {P : α → Prop} (h : defaulting given key value check = .good a)
    (hvalue : P value) (hcheck : ∀ document b, check document = .good b → P b) : P a := by
  rw [defaulting] at h
  split at h
  · rename_i document _
    cases hdocument : check document with
    | good b =>
      rw [hdocument] at h
      cases h
      exact hcheck document a hdocument
    | bad faults =>
      rw [hdocument] at h
      cases h
  · cases h
    exact hvalue

theorem ne_nil_of_nonEmptyText {t : Text} (h : nonEmptyText document = .good t) : t ≠ [] := by
  obtain ⟨u, -, hu⟩ := Checked.andThen_eq_good h
  split at hu
  · cases hu
  · rename_i hempty
    cases hu
    simpa using hempty

theorem le_of_wholeFrom {least n : ℕ} (h : wholeFrom least document = .good n) : least ≤ n := by
  obtain ⟨m, -, hm⟩ := Checked.andThen_eq_good h
  split at hm
  · cases hm
  · cases hm
    omega

theorem pos_of_positiveReal {x : Float} (h : positiveReal document = .good x) : 0.0 < x := by
  obtain ⟨y, -, hy⟩ := Checked.andThen_eq_good h
  split at hy
  · cases hy
    assumption
  · cases hy

end Field

/-! ## Bounds of a cache -/

namespace CacheSettings

/-- The bounds are ones that their check lets through. -/
structure IsValid (s : CacheSettings) : Prop where
  maxEntries : 1 ≤ s.maxEntries
  expiration : 0.0 < s.expiration
  sweepInterval : 0.0 < s.sweepInterval

variable {s : CacheSettings} {document : Json}

theorem isValid_usual : usual.IsValid where
  maxEntries := by decide
  expiration := by decide +kernel
  sweepInterval := by decide +kernel

theorem isValid_of_check (h : check document = .good s) : s.IsValid := by
  obtain ⟨given, -, hfields⟩ := Checked.andThen_eq_good h
  obtain ⟨_, sweepInterval, hfront, hsweep, rfl⟩ := Checked.seq_eq_good hfields
  obtain ⟨_, expiration, hfirst, hexpiration, rfl⟩ := Checked.seq_eq_good hfront
  obtain ⟨maxEntries, hmax, rfl⟩ := Checked.map_eq_good hfirst
  exact
    { maxEntries := Field.of_defaulting hmax isValid_usual.maxEntries
        fun _ _ => Field.le_of_wholeFrom
      expiration := Field.of_defaulting hexpiration isValid_usual.expiration
        fun _ _ => Field.pos_of_positiveReal
      sweepInterval := Field.of_defaulting hsweep isValid_usual.sweepInterval
        fun _ _ => Field.pos_of_positiveReal }

/-- The bounds as data, with documents of their own for the two numbers. -/
def encoded (s : CacheSettings) (expiration sweepInterval : Json) : Json :=
  .record [("max_entries", .ofNat s.maxEntries), ("expiration_seconds", expiration),
    ("sweep_interval_seconds", sweepInterval)]

/-- The check finds what it finds in the two numbers. -/
theorem check_encoded {expiration sweepInterval : Json} {faults more : List Fault}
    (h : 1 ≤ s.maxEntries)
    (hexpiration : Field.positiveReal expiration = .ofFaults s.expiration faults)
    (hsweep : Field.positiveReal sweepInterval = .ofFaults s.sweepInterval more) :
    check (s.encoded expiration sweepInterval) = .ofFaults s
      (Checked.below "expiration_seconds" faults ++
        Checked.below "sweep_interval_seconds" more) := by
  rw [check, encoded, Json.record, Field.members]
  show CacheSettings.mk <$> _ <*> _ <*> _ = _
  rw [Field.defaulting_eq_good rfl (Field.wholeFrom_ofNat h),
    Field.defaulting_ofFaults rfl hexpiration, Field.defaulting_ofFaults rfl hsweep]
  change Checked.ofFaults (CacheSettings.mk s.maxEntries) [] <*> _ <*> _ = _
  rw [Checked.seq_ofFaults, Checked.seq_ofFaults, List.nil_append]

theorem check_toJson (h : s.IsValid) : check s.toJson = .good s := by
  have hexpiration : Field.positiveReal (.number (.real s.expiration)) =
      .ofFaults s.expiration [] := if_pos h.expiration
  have hsweep : Field.positiveReal (.number (.real s.sweepInterval)) =
      .ofFaults s.sweepInterval [] := if_pos h.sweepInterval
  exact check_encoded h.maxEntries hexpiration hsweep

end CacheSettings

/-! ## Settings -/

theorem SearchSettings.check_toJson (s : SearchSettings) : check s.toJson = .good s := by
  rw [check, toJson, Json.record, Field.members]
  show SearchSettings.mk <$> _ <*> _ <*> _ = _
  rw [Field.defaulting_eq_good rfl (Field.list_ofTexts s.modelFolders),
    Field.defaulting_eq_good rfl (Field.list_ofTexts s.excludedFolders),
    Field.defaulting_eq_good rfl (Field.flag_bool s.skipIdentity)]
  rfl

namespace Settings

/-- The settings are ones that their check lets through. -/
structure IsValid (s : Settings) : Prop where
  layoutName : s.layoutName ≠ []
  cache : s.cache.IsValid

variable {s : Settings} {document : Json}

theorem isValid_usual : usual.IsValid := ⟨by decide, CacheSettings.isValid_usual⟩

theorem isValid_of_check (h : check document = .good s) : s.IsValid := by
  obtain ⟨given, -, h₀⟩ := Checked.andThen_eq_good h
  obtain ⟨_, search, h₁, -, rfl⟩ := Checked.seq_eq_good h₀
  obtain ⟨_, cache, h₂, hcache, rfl⟩ := Checked.seq_eq_good h₁
  obtain ⟨_, enableLogging, h₃, -, rfl⟩ := Checked.seq_eq_good h₂
  obtain ⟨_, layoutName, h₄, hlayout, rfl⟩ := Checked.seq_eq_good h₃
  obtain ⟨_, useLayout, h₅, -, rfl⟩ := Checked.seq_eq_good h₄
  obtain ⟨viewFolder, -, rfl⟩ := Checked.map_eq_good h₅
  exact
    { layoutName := Field.of_defaulting (P := (· ≠ [])) hlayout isValid_usual.layoutName
        fun _ _ => Field.ne_nil_of_nonEmptyText
      cache := Field.of_defaulting hcache isValid_usual.cache
        fun _ _ => CacheSettings.isValid_of_check }

/-- The settings as data, with a document of its own for the cache. -/
def encoded (s : Settings) (cache : Json) : Json :=
  .record [("default_template_directory", .text s.viewFolder),
    ("use_layout_by_default", .bool s.useLayout), ("default_layout_name", .text s.layoutName),
    ("enable_logging", .bool s.enableLogging), ("cache", cache), ("parser", s.search.toJson)]

/-- The check finds what it finds in the cache. -/
theorem check_encoded {cache : Json} {faults : List Fault} (h : s.layoutName ≠ [])
    (hcache : CacheSettings.check cache = .ofFaults s.cache faults) :
    check (s.encoded cache) = .ofFaults s (Checked.below "cache" faults) := by
  rw [check, encoded, Json.record, Field.members]
  show Settings.mk <$> _ <*> _ <*> _ <*> _ <*> _ <*> _ = _
  rw [Field.defaulting_eq_good rfl (rfl : Field.text (.text s.viewFolder) = .good s.viewFolder),
    Field.defaulting_eq_good rfl (Field.flag_bool s.useLayout),
    Field.defaulting_eq_good rfl (Field.nonEmptyText_text h),
    Field.defaulting_eq_good rfl (Field.flag_bool s.enableLogging),
    Field.defaulting_ofFaults rfl hcache,
    Field.defaulting_eq_good rfl (SearchSettings.check_toJson s.search)]
  change Checked.ofFaults (Settings.mk s.viewFolder s.useLayout s.layoutName s.enableLogging) [] <*>
    Checked.ofFaults s.cache (Checked.below "cache" faults) <*> Checked.ofFaults s.search [] = _
  rw [Checked.seq_ofFaults, Checked.seq_ofFaults, List.nil_append, List.append_nil]

/-- Valid settings are those that come out of a check. -/
theorem isValid_iff : s.IsValid ↔ ∃ document, check document = .good s := by
  refine ⟨fun h => ⟨s.toJson, ?_⟩, fun ⟨_, h⟩ => isValid_of_check h⟩
  have hcache : CacheSettings.check s.cache.toJson = .ofFaults s.cache [] :=
    CacheSettings.check_toJson h.cache
  exact check_encoded h.layoutName hcache

/-! ## Environments -/

theorem eq_ok_of_bind {ε α β : Type} {x : Except ε α} {next : α → Except ε β} {b : β}
    (h : x >>= next = .ok b) : ∃ a, x = .ok a ∧ next a = .ok b := by
  cases x with
  | error e => cases h
  | ok a => exact ⟨a, rfl, h⟩

theorem boundFault_eq_nil {holds : Bool} {key : String} {kind : FaultKind} :
    boundFault holds key kind = [] ↔ holds = true := by
  cases holds <;> simp [boundFault]

theorem isValid_of_cacheOfEnvironment {env : Environment} {cache : CacheSettings}
    (h : cacheOfEnvironment env = .ok cache) : cache.IsValid := by
  obtain ⟨maxEntries, -, h₁⟩ := eq_ok_of_bind h
  obtain ⟨expiration, -, h₂⟩ := eq_ok_of_bind h₁
  obtain ⟨sweepInterval, -, h₃⟩ := eq_ok_of_bind h₂
  dsimp only at h₃
  split at h₃
  · rename_i hfaults
    cases h₃
    rw [List.isEmpty_iff, List.append_eq_nil_iff, List.append_eq_nil_iff, boundFault_eq_nil,
      boundFault_eq_nil, boundFault_eq_nil] at hfaults
    obtain ⟨⟨hmax, hexpiration⟩, hsweep⟩ := hfaults
    have hmax : 1 ≤ maxEntries := of_decide_eq_true hmax
    exact ⟨by dsimp only; omega, of_decide_eq_true hexpiration, of_decide_eq_true hsweep⟩
  · cases h₃

theorem ne_nil_of_get? {env : Environment} {name : String} {t : Text}
    (h : env.get? name = some t) : t ≠ [] := by
  rw [Environment.get?] at h
  split at h
  · split at h
    · cases h
    · rename_i hempty
      cases h
      simpa using hempty
  · cases h

/-- The settings that an environment sets are valid. -/
theorem isValid_of_ofEnvironment {env : Environment} (h : ofEnvironment env = .ok s) :
    s.IsValid := by
  obtain ⟨cache, hcache, hrest⟩ := eq_ok_of_bind h
  cases hrest
  refine ⟨?_, isValid_of_cacheOfEnvironment hcache⟩
  dsimp only
  cases hname : env.get? "VIEWSCAFFOLD_LAYOUT_NAME" with
  | none => decide
  | some t => exact ne_nil_of_get? hname

end Settings

end RazorViews
