import RazorViews.Validation.Field

/-!
Settings of the program: where views go, which layout they use, how the source of models is found,
and how long results are kept.
-/

namespace RazorViews

/-- The bounds of the cache. -/
structure CacheSettings where
  /-- Entries kept before the oldest is evicted; at least one. -/
  maxEntries : Nat
  /-- Seconds after which an entry is no longer served. -/
  expiration : Float
  /-- Seconds between two sweeps. -/
  sweepInterval : Float
deriving BEq, Repr

/-- How the source of models is found and scanned. -/
structure SearchSettings where
  /-- Folders that are preferred when several files have the name of a class, best first. -/
  modelFolders : List Text
  /-- Folders that are never searched. -/
  excludedFolders : List Text
  /-- A property named `Id` is left out. -/
  skipIdentity : Bool
deriving DecidableEq, Repr

structure Settings where
  /-- The folder of the views in a project. -/
  viewFolder : Text
  /-- Views use the default layout unless they are told otherwise. -/
  useLayout : Bool
  /-- The name of the default layout; not empty. -/
  layoutName : Text
  /-- Every event is shown, not only warnings. -/
  enableLogging : Bool
  cache : CacheSettings
  search : SearchSettings
deriving BEq, Repr

namespace CacheSettings

def usual : CacheSettings := ⟨100, 300.0, 60.0⟩

def check (document : Json) : Checked CacheSettings :=
  (Field.members document).andThen fun given =>
    CacheSettings.mk <$> Field.defaulting given "max_entries" usual.maxEntries (Field.wholeFrom 1)
      <*> Field.defaulting given "expiration_seconds" usual.expiration Field.positiveReal
      <*> Field.defaulting given "sweep_interval_seconds" usual.sweepInterval Field.positiveReal

def toJson (s : CacheSettings) : Json :=
  .record [("max_entries", .ofNat s.maxEntries),
    ("expiration_seconds", .number (.real s.expiration)),
    ("sweep_interval_seconds", .number (.real s.sweepInterval))]

end CacheSettings

namespace SearchSettings

def usual : SearchSettings :=
  { modelFolders := ["Models".toList, "Entities".toList, "Domain".toList]
    excludedFolders := ["bin".toList, "obj".toList, "node_modules".toList]
    skipIdentity := false }

def check (document : Json) : Checked SearchSettings :=
  (Field.members document).andThen fun given =>
    SearchSettings.mk
      <$> Field.defaulting given "model_folders" usual.modelFolders (Field.list Field.text)
      <*> Field.defaulting given "excluded_dirs" usual.excludedFolders (Field.list Field.text)
      <*> Field.defaulting given "skip_identity" usual.skipIdentity Field.flag

def toJson (s : SearchSettings) : Json :=
  .record [("model_folders", .ofTexts s.modelFolders),
    ("excluded_dirs", .ofTexts s.excludedFolders), ("skip_identity", .bool s.skipIdentity)]

end SearchSettings

namespace Settings

def usual : Settings :=
  { viewFolder := "Views".toList
    useLayout := true
    layoutName := "_Layout".toList
    enableLogging := false
    cache := .usual
    search := .usual }

/-- Checks data for settings.  Unknown keys are passed over. -/
def check (document : Json) : Checked Settings :=
  (Field.members document).andThen fun given =>
    Settings.mk <$> Field.defaulting given "default_template_directory" usual.viewFolder Field.text
      <*> Field.defaulting given "use_layout_by_default" usual.useLayout Field.flag
      <*> Field.defaulting given "default_layout_name" usual.layoutName Field.nonEmptyText
      <*> Field.defaulting given "enable_logging" usual.enableLogging Field.flag
      <*> Field.defaulting given "cache" usual.cache CacheSettings.check
      <*> Field.defaulting given "parser" usual.search SearchSettings.check

def toJson (s : Settings) : Json :=
  .record [("default_template_directory", .text s.viewFolder),
    ("use_layout_by_default", .bool s.useLayout), ("default_layout_name", .text s.layoutName),
    ("enable_logging", .bool s.enableLogging), ("cache", s.cache.toJson),
    ("parser", s.search.toJson)]

/-- The layout of a view that is not told which to use. -/
def defaultLayout? (s : Settings) : Option Text := if s.useLayout then some s.layoutName else none

end Settings

end RazorViews
