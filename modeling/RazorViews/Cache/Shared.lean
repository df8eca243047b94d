import RazorViews.Cache.Store
import RazorViews.Settings.Basic

/-!
The store that all extractions of a run share, unless they are given one.
-/

namespace RazorViews

/-- The shared store, which is made when it is first needed, and how many have been made. -/
structure SharedStore where
  made : Nat
  store : Option Store

namespace SharedStore

def absent : SharedStore := ⟨0, none⟩

/-- An empty store with bounds, which settings keep positive. -/
def storeOf (bounds : CacheSettings) : Store :=
  ⟨bounds.maxEntries, .real bounds.expiration, [], 0⟩

/-- Makes a store with bounds, in the place of the one that is there. -/
def configure (s : SharedStore) (bounds : CacheSettings) : SharedStore × Store :=
  (⟨s.made + 1, some (storeOf bounds)⟩, storeOf bounds)

/-- The shared store; the usual bounds hold for one that has to be made. -/
def get (s : SharedStore) : SharedStore × Store :=
  match s.store with
  | some store => (s, store)
  | none => s.configure .usual

end SharedStore

end RazorViews
