import RazorViews.Failure
import RazorViews.Settings.Basic

/-!
Settings from environment variables.

A variable that is empty counts as not set.  Numbers are read first, in a fixed order, and the
first that cannot be read decides; then the bounds are checked.
-/

namespace RazorViews.Settings

abbrev Environment := List (Text × Text)

/-- The names of the variables that settings are taken from. -/
def Environment.names : List String :=
  ["VIEWSCAFFOLD_TEMPLATE_DIR", "VIEWSCAFFOLD_USE_LAYOUT", "VIEWSCAFFOLD_LAYOUT_NAME",
   "VIEWSCAFFOLD_ENABLE_LOGGING", "VIEWSCAFFOLD_CACHE_MAX_ENTRIES",
   "VIEWSCAFFOLD_CACHE_EXPIRATION", "VIEWSCAFFOLD_CACHE_SWEEP_INTERVAL",
   "VIEWSCAFFOLD_MODEL_FOLDERS", "VIEWSCAFFOLD_SKIP_IDENTITY"]

/-- The value of a variable, if it is set and not empty. -/
def Environment.get? (env : Environment) (name : String) : Option Text :=
  match env.lookup name.toList with
  | some t => if t.isEmpty then none else some t
  | none => none

def yesWords : List String := ["1", "true", "yes", "on"]

/-- A flag: one of the words that mean yes, in any case, or else no. -/
def readFlag (t : Text) : Bool :=
  yesWords.any fun word => Text.lower (Text.trim t) == word.toList

/-- A list of folders, parted by commas; blank names are left out. -/
def readFolders (t : Text) : List Text :=
  ((Text.splitAt ',' t).map Text.trim).filter (!·.isEmpty)

/-- A number that a variable gives, or a value for it if it is not set. -/
def Environment.number {α : Type} (env : Environment) (name : String) (read? : Text → Option α)
    (value : α) : Except Failure α :=
  match env.get? name with
  | none => .ok value
  | some t =>
    match read? t with
    | some a => .ok a
    | none => .error .notANumber

/-- A fault of one of the bounds. -/
def boundFault (holds : Bool) (key : String) (kind : FaultKind) : List Fault :=
  if holds then [] else [⟨[key.toList], kind⟩]

/-- The bounds of the cache that an environment sets. -/
def cacheOfEnvironment (env : Environment) : Except Failure CacheSettings := do
  let usual := CacheSettings.usual
  let maxEntries ← env.number "VIEWSCAFFOLD_CACHE_MAX_ENTRIES" Number.readInt? usual.maxEntries
  let expiration ← env.number "VIEWSCAFFOLD_CACHE_EXPIRATION" Number.readFloat? usual.expiration
  let sweepInterval ←
    env.number "VIEWSCAFFOLD_CACHE_SWEEP_INTERVAL" Number.readFloat? usual.sweepInterval
  let faults := boundFault (1 ≤ maxEntries) "max_entries" .tooSmall ++
    boundFault (0.0 < expiration) "expiration_seconds" .notAboveBound ++
    boundFault (0.0 < sweepInterval) "sweep_interval_seconds" .notAboveBound
  if faults.isEmpty then .ok ⟨maxEntries.toNat, expiration, sweepInterval⟩
  else .error (.invalid faults)

def ofEnvironment (env : Environment) : Except Failure Settings := do
  let cache ← cacheOfEnvironment env
  let usual := Settings.usual
  let flag (name : String) (value : Bool) : Bool := ((env.get? name).map readFlag).getD value
  return {
    viewFolder := (env.get? "VIEWSCAFFOLD_TEMPLATE_DIR").getD usual.viewFolder
    useLayout := flag "VIEWSCAFFOLD_USE_LAYOUT" usual.useLayout
    layoutName := (env.get? "VIEWSCAFFOLD_LAYOUT_NAME").getD usual.layoutName
    enableLogging := flag "VIEWSCAFFOLD_ENABLE_LOGGING" usual.enableLogging
    cache := cache
    search := {
      modelFolders :=
        ((env.get? "VIEWSCAFFOLD_MODEL_FOLDERS").map readFolders).getD usual.search.modelFolders
      excludedFolders := usual.search.excludedFolders
      skipIdentity := flag "VIEWSCAFFOLD_SKIP_IDENTITY" usual.search.skipIdentity } }

end RazorViews.Settings
