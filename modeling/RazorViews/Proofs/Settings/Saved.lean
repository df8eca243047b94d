import RazorViews.Proofs.Json.Documents
import RazorViews.Proofs.Settings.Valid
import RazorViews.Proofs.Text.Utf8
import RazorViews.Proofs.Workspace.Straight
import RazorViews.Settings.File

/-!
# Settings that are saved and loaded

A settings file holds all that valid settings say, except that it has no numeral for infinity and
keeps `null` in its place.  Infinity is a valid number of seconds, and one that an environment can
set.

## What is proved

`load_save_iff` is about settings that come out of a check, of whatever document, or that an
environment gives; about any tree and any path that they can be saved to, over whatever was there.

* Loading the file gives the same settings exactly if both numbers of their cache are finite and its
  number of entries has no more digits than are read of a numeral (`IsShort`).
* With more digits the file is no document for the reader.
* With few enough digits, but a number that is not finite, the file is refused with a fault for each
  such number, and for nothing else (`unkept`).
* Settings of an environment always have few enough digits.

`not_load_save_endless` goes the whole way: a variable of an environment says `inf`, the settings
are saved, and what was saved is refused.

## The hypotheses

That saving succeeds, since a path may lead nowhere.  The check is the one that loading makes, so
nothing is assumed about the settings beyond what makes them settings.

## What it is not

The text of the file is what `Json.write` makes of a document, and other texts are loaded as well;
nothing is said of those.  That a finite number is the same behind its numeral is a fact about
numerals (`Json.read?_write`): the shortest one that names it is read as the number nearest to it.

## The proof

Settings are written field by field, so the document that is read is the one that was written, with
`null` for what is not kept (`kept`), and the check of this one is gone through field by field
(`check_kept`).
-/

namespace RazorViews

open Json (IsShort)
open Number (IsFinitePositive)

namespace Json

variable {x : Float}

/-- A binary64 number as a file keeps it. -/
def keptReal (x : Float) : Json :=
  match Number.shape x with
  | .finite .. => number (.real x)
  | _ => null

theorem writeAt_keptReal (depth : ℕ) (x : Float) :
    writeAt depth (keptReal x) = writeAt depth (number (.real x)) := by
  cases hshape : Number.shape x <;> simp only [keptReal, hshape, writeAt, writeNumber]

theorem keptReal_finite (h : IsFinitePositive x) : keptReal x = number (.real x) := by
  obtain ⟨S, E, -, hshape⟩ := h
  rw [keptReal, hshape]

theorem keptReal_infinite {negative : Bool} (h : Number.shape x = .infinite negative) :
    keptReal x = null := by
  rw [keptReal, h]

variable {fits : ℤ → Prop}

theorem isRegular_keptReal (h : 0.0 < x) : IsRegular fits (keptReal x) := by
  rcases Number.zero_lt_iff.1 h with hfinite | hinfinite
  · rw [keptReal_finite hfinite]
    exact .real hfinite
  · rw [keptReal_infinite hinfinite]
    exact .null

theorem isRegular_ofTexts (ts : List Text) : IsRegular fits (ofTexts ts) :=
  .list (List.forall_mem_map.2 fun t _ => .text t)

end Json

namespace Field

open Checked

variable {x : Float}

/-- What is wrong with a positive number when it is loaded. -/
def unkeptReal (x : Float) : List Fault :=
  match Number.shape x with
  | .finite .. => []
  | _ => [⟨[], .notReal⟩]

theorem unkeptReal_eq_nil_iff (h : 0.0 < x) : unkeptReal x = [] ↔ IsFinitePositive x := by
  rcases Number.zero_lt_iff.1 h with hfinite | hinfinite
  · obtain ⟨S, E, -, hshape⟩ := id hfinite
    simp only [unkeptReal, hshape, hfinite]
  · simp only [unkeptReal, hinfinite, IsFinitePositive]
    simp

theorem positiveReal_keptReal (h : 0.0 < x) :
    positiveReal (Json.keptReal x) = ofFaults x (unkeptReal x) := by
  rcases Number.zero_lt_iff.1 h with hfinite | hinfinite
  · rw [Json.keptReal_finite hfinite, (unkeptReal_eq_nil_iff h).2 hfinite]
    exact if_pos h
  · rw [Json.keptReal_infinite hinfinite, unkeptReal, hinfinite]
    rfl

end Field

namespace CacheSettings

open Checked

variable {s : CacheSettings}

/-- The bounds as a file keeps them. -/
def kept (s : CacheSettings) : Json :=
  s.encoded (.keptReal s.expiration) (.keptReal s.sweepInterval)

/-- What is wrong with the bounds when they are loaded. -/
def unkept (s : CacheSettings) : List Fault :=
  below "expiration_seconds" (Field.unkeptReal s.expiration) ++
    below "sweep_interval_seconds" (Field.unkeptReal s.sweepInterval)

theorem check_kept (h : s.IsValid) : check s.kept = ofFaults s s.unkept :=
  check_encoded h.maxEntries (Field.positiveReal_keptReal h.expiration)
    (Field.positiveReal_keptReal h.sweepInterval)

theorem isRegular_kept {fits : ℤ → Prop} (h : s.IsValid) (hfits : fits s.maxEntries) :
    s.kept.IsRegular fits := by
  refine .record (by simp) fun m hm => ?_
  simp only [List.mem_cons, List.not_mem_nil, or_false] at hm
  rcases hm with rfl | rfl | rfl
  · exact .whole hfits
  · exact Json.isRegular_keptReal h.expiration
  · exact Json.isRegular_keptReal h.sweepInterval

/-- Bounds with too large a number of entries are refused at their first member. -/
theorem isRefused_kept (h : ¬ IsShort s.maxEntries) : s.kept.IsRefused :=
  .member [] _ (by simp) (.whole h)

theorem unkept_eq_nil_iff (h : s.IsValid) :
    s.unkept = [] ↔ IsFinitePositive s.expiration ∧ IsFinitePositive s.sweepInterval := by
  rw [unkept, List.append_eq_nil_iff, below, below, List.map_eq_nil_iff, List.map_eq_nil_iff,
    Field.unkeptReal_eq_nil_iff h.expiration, Field.unkeptReal_eq_nil_iff h.sweepInterval]

end CacheSettings

namespace SearchSettings

theorem isRegular_toJson {fits : ℤ → Prop} (s : SearchSettings) : s.toJson.IsRegular fits := by
  refine .record (by simp) fun m hm => ?_
  simp only [List.mem_cons, List.not_mem_nil, or_false] at hm
  rcases hm with rfl | rfl | rfl
  · exact Json.isRegular_ofTexts s.modelFolders
  · exact Json.isRegular_ofTexts s.excludedFolders
  · exact .bool s.skipIdentity

end SearchSettings

namespace Settings

open Checked

variable {s : Settings}

/-- The settings as a file keeps them. -/
def kept (s : Settings) : Json := s.encoded s.cache.kept

/-- The faults of the settings when they are loaded. -/
def unkept (s : Settings) : List Fault := below "cache" s.cache.unkept

theorem toText_eq (s : Settings) : s.toText = s.kept.write := by
  simp only [toText, Json.write, toJson, kept, encoded, CacheSettings.toJson, CacheSettings.kept,
    CacheSettings.encoded, Json.record, List.map_cons, List.map_nil, Json.writeAt,
    Json.writeMembers, Json.writeAt_keptReal]

theorem check_kept (h : s.IsValid) : check s.kept = ofFaults s s.unkept :=
  check_encoded h.layoutName (CacheSettings.check_kept h.cache)

/-- The members in front of the bounds of the cache. -/
def front (s : Settings) : List (String × Json) :=
  [("default_template_directory", .text s.viewFolder),
    ("use_layout_by_default", .bool s.useLayout), ("default_layout_name", .text s.layoutName),
    ("enable_logging", .bool s.enableLogging)]

theorem kept_eq (s : Settings) : s.kept =
    .record (s.front ++ [("cache", s.cache.kept), ("parser", s.search.toJson)]) := rfl

theorem isRegular_front {fits : ℤ → Prop} (s : Settings) :
    ∀ m ∈ s.front, m.2.IsRegular fits := by
  intro m hm
  simp only [front, List.mem_cons, List.not_mem_nil, or_false] at hm
  rcases hm with rfl | rfl | rfl | rfl
  · exact .text s.viewFolder
  · exact .bool s.useLayout
  · exact .text s.layoutName
  · exact .bool s.enableLogging

theorem isRegular_kept {fits : ℤ → Prop} (h : s.IsValid) (hfits : fits s.cache.maxEntries) :
    s.kept.IsRegular fits := by
  rw [kept_eq]
  refine .record (by simp [front]) fun m hm => ?_
  rcases List.mem_append.1 hm with hfront | hm
  · exact s.isRegular_front m hfront
  · simp only [List.mem_cons, List.not_mem_nil, or_false] at hm
    rcases hm with rfl | rfl
    · exact CacheSettings.isRegular_kept h.cache hfits
    · exact SearchSettings.isRegular_toJson s.search

theorem isRefused_kept (h : ¬ IsShort s.cache.maxEntries) : s.kept.IsRefused := by
  rw [kept_eq, Json.record, List.map_append]
  exact .member _ _ (List.forall_mem_map.2 s.isRegular_front) (CacheSettings.isRefused_kept h)

/-- What is wrong with the settings when they are loaded from the text they are saved as. -/
def unloaded (s : Settings) : List Fault :=
  if IsShort s.cache.maxEntries then s.unkept else [⟨[], .notJson⟩]

/-- Valid settings are read from their text, up to the numbers that it does not keep. -/
theorem ofText_toText (h : s.IsValid) : ofText s.toText = ofFaults s s.unloaded := by
  rw [ofText, toText_eq, unloaded]
  by_cases hshort : IsShort s.cache.maxEntries
  · rw [if_pos hshort, Json.read?_write (isRegular_kept h hshort)]
    exact check_kept h
  · rw [if_neg hshort, Json.read?_write_none (isRefused_kept hshort)]
    rfl

/-- Loading a file gives what is read from the text that was saved to it. -/
theorem load_eq {tree saved : Tree} {file : Path} (h : s.IsValid)
    (hsave : s.save tree file = (saved, .ok ())) :
    load saved file = if s.unloaded = [] then .ok s else .error (.invalid s.unloaded) := by
  have hcontents : saved.contents file = .ok (Utf8.encode s.toText) :=
    Tree.contents_of_storeFile hsave
  have hregular : s.kept.IsRegular fun _ => True := isRegular_kept h trivial
  have hreturn : '\r' ∉ s.toText := by
    rw [toText_eq]
    exact hregular.notMem_writeAt 0
  rw [load, hcontents]
  dsimp only
  rw [Utf8.decode_encode]
  dsimp only
  rw [Utf8.unifyLineEnds_of_notMem hreturn, ofText_toText h]
  cases s.unloaded <;> rfl

/-- Both numbers of the cache are finite. -/
def IsFinite (s : Settings) : Prop :=
  IsFinitePositive s.cache.expiration ∧ IsFinitePositive s.cache.sweepInterval

theorem unkept_eq_nil_iff (h : s.IsValid) : s.unkept = [] ↔ s.IsFinite := by
  rw [unkept, below, List.map_eq_nil_iff, CacheSettings.unkept_eq_nil_iff h.cache, IsFinite]

theorem unloaded_eq_nil_iff (h : s.IsValid) :
    s.unloaded = [] ↔ s.IsFinite ∧ IsShort s.cache.maxEntries := by
  rw [unloaded]
  split
  · rename_i hshort
    rw [unkept_eq_nil_iff h, and_iff_left hshort]
  · rename_i hlong
    simp [hlong]

/-! ## What an environment can set -/

theorem eq_or_read_of_number {α : Type} {env : Environment} {name : String}
    {read? : Text → Option α} {value a : α} (h : env.number name read? value = .ok a) :
    a = value ∨ ∃ t, read? t = some a := by
  rw [Environment.number] at h
  split at h
  · exact .inl (Except.ok.inj h).symm
  · split at h
    · rename_i hread
      exact .inr ⟨_, Except.ok.inj h ▸ hread⟩
    · cases h

theorem isShort_of_cacheOfEnvironment {env : Environment} {cache : CacheSettings}
    (h : cacheOfEnvironment env = .ok cache) : IsShort cache.maxEntries := by
  obtain ⟨maxEntries, hmax, h₁⟩ := eq_ok_of_bind h
  obtain ⟨expiration, -, h₂⟩ := eq_ok_of_bind h₁
  obtain ⟨sweepInterval, -, h₃⟩ := eq_ok_of_bind h₂
  have hshort : (Text.ofNat maxEntries.toNat).length ≤ Number.maxDigits := by
    rcases eq_or_read_of_number hmax with rfl | ⟨t, ht⟩
    · decide
    · have hread := Number.length_ofNat_of_readInt? ht
      have hpos : 0 < Number.maxDigits := by decide
      rw [Text.ofNat, Nat.length_toDigits_le_iff (by norm_num) hpos] at hread ⊢
      exact lt_of_le_of_lt (by omega) hread
  dsimp only at h₃
  split at h₃
  · cases h₃
    exact hshort
  · cases h₃

/-- The number of entries that an environment sets is short enough to be read from a file. -/
theorem isShort_of_ofEnvironment {env : Environment} (h : ofEnvironment env = .ok s) :
    IsShort s.cache.maxEntries := by
  obtain ⟨cache, hcache, hrest⟩ := eq_ok_of_bind h
  cases hrest
  exact isShort_of_cacheOfEnvironment hcache

/-! ## The round trip -/

/-- Settings that come out of a check, and those of an environment, are loaded as they were saved
exactly when both numbers of their cache are finite and its number of entries is short enough to be
read; those of an environment always are that short.  Otherwise the file is no document for the
reader, or each number that is not finite is a fault. -/
theorem load_save_iff {tree saved : Tree} {file : Path}
    (hsource : (∃ document, check document = .good s) ∨ ∃ env, ofEnvironment env = .ok s)
    (hsave : s.save tree file = (saved, .ok ())) :
    (load saved file = .ok s ↔ s.IsFinite ∧ IsShort s.cache.maxEntries) ∧
      (¬ IsShort s.cache.maxEntries → load saved file = .error (.invalid [⟨[], .notJson⟩])) ∧
      (IsShort s.cache.maxEntries → ¬ s.IsFinite →
        load saved file = .error (.invalid s.unkept)) ∧
      ((∃ env, ofEnvironment env = .ok s) → IsShort s.cache.maxEntries) := by
  have h : s.IsValid := by
    rcases hsource with hcheck | ⟨env, henv⟩
    · exact isValid_iff.2 hcheck
    · exact isValid_of_ofEnvironment henv
  rw [load_eq h hsave, ← unloaded_eq_nil_iff h, unloaded]
  refine ⟨?_, ?_, ?_, fun ⟨env, henv⟩ => isShort_of_ofEnvironment henv⟩
  · split
    · simp [*]
    · simp [*]
  · intro hlong
    rw [if_neg hlong]
    rfl
  · intro hshort hinfinite
    rw [if_pos hshort, if_neg]
    rwa [unkept_eq_nil_iff h]

/-- A settings file in a folder that is made for it. -/
def newFile : Path := Path.ofText "out/c.json".toList

theorem save_newFile (s : Settings) :
    s.save (Tree.empty []) newFile = ((s.save (Tree.empty []) newFile).1, .ok ()) := by
  rfl

/-- The usual settings come back. -/
theorem load_save_usual :
    usual.IsValid ∧
      load (usual.save (Tree.empty []) newFile).1 newFile = .ok usual := by
  have hfinite : usual.IsFinite :=
    ⟨(Number.zero_lt_iff.1 isValid_usual.cache.expiration).resolve_right (by decide +kernel),
      (Number.zero_lt_iff.1 isValid_usual.cache.sweepInterval).resolve_right (by decide +kernel)⟩
  exact ⟨isValid_usual,
    (load_save_iff (.inl (isValid_iff.1 isValid_usual)) (save_newFile usual)).1.2
      ⟨hfinite, by decide⟩⟩

/-- The usual settings with a cache whose entries never expire. -/
def endless : Settings :=
  { usual with cache := { CacheSettings.usual with expiration := 1.0 / 0.0 } }

/-- Settings that an environment sets, that are saved and that are refused when they are loaded. -/
theorem not_load_save_endless :
    ofEnvironment [("VIEWSCAFFOLD_CACHE_EXPIRATION".toList, "inf".toList)] = .ok endless ∧
      (endless.save (Tree.empty []) newFile).2 = .ok () ∧
      load (endless.save (Tree.empty []) newFile).1 newFile =
        .error (.invalid [⟨["cache".toList, "expiration_seconds".toList], .notReal⟩]) := by
  have henvironment :
      ofEnvironment [("VIEWSCAFFOLD_CACHE_EXPIRATION".toList, "inf".toList)] = .ok endless := by
    rfl
  have hunloaded : endless.unloaded =
      [⟨["cache".toList, "expiration_seconds".toList], .notReal⟩] := by
    decide +kernel
  refine ⟨henvironment, rfl, ?_⟩
  rw [load_eq (isValid_of_ofEnvironment henvironment) (save_newFile endless), hunloaded]
  exact if_neg (List.cons_ne_nil _ _)

end Settings

end RazorViews
