import RazorViews.Cache.Shared
import RazorViews.Extraction

/-!
A session: the files, the cache and the clock that successive operations work on, and what there is
to tell about them.
-/

namespace RazorViews

/-- What successive operations work on. -/
structure Session where
  tree : Tree
  /-- What asking for the time of a file answers, by the text of its path. -/
  timeOf : Text → FileTime
  now : Number
  store : Store
  /-- What happened so far, the first event first. -/
  events : List Event

namespace Session

/-- The times of the files of a tree that nobody else changes: they are all the same. -/
def fixedTime (t : Tree) (path : Text) : FileTime :=
  match t.isFile (Path.ofText path) with
  | .ok true => .ok (.whole 0)
  | _ => .error path

/-- A new session on a tree that nobody else changes. -/
def ofTree (t : Tree) (bounds : CacheSettings) : Session :=
  ⟨t, fixedTime t, .whole 0, SharedStore.storeOf bounds, []⟩

/-- The session with more to tell. -/
def tell (s : Session) (events : List Event) : Session := { s with events := s.events ++ events }

def surroundings (s : Session) : Surroundings := ⟨s.tree, s.timeOf, s.now⟩

def extract (settings : SearchSettings) (typeName root : Text) (s : Session) :
    Session × Except Failure (List Property) :=
  let (store, events, result) := Extraction.run settings s.surroundings s.store typeName root
  ({ s with store := store }.tell events, result)

end Session

end RazorViews
