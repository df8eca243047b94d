import RazorViews.Cache.Store
import RazorViews.Property.Extract
import RazorViews.Workspace.Search

/-!
From the name of a type to the properties of its class.

The file that declares the class is searched for, its source is read, and the properties are
extracted from it, unless the cache can serve them.  Whatever goes wrong with files leads to an
empty list, never to a failure.
-/

namespace RazorViews

/-- What an extraction finds around it. -/
structure Surroundings where
  tree : Tree
  /-- What asking for the time of a file answers, by the text of its path. -/
  timeOf : Text → FileTime
  now : Number

namespace Extraction

/-- The file to read for a class below a folder, if there is one. -/
def sourceFile? (settings : SearchSettings) (t : Tree) (className root : Text) :
    List Event × Option Path :=
  match Search.find t settings className (Path.ofText root) with
  | .error e => ([.searchRefused root className e], none)
  | .ok files =>
    match Search.select settings files with
    | some file => ([], some file)
    | none => ([.noSourceFile className root], none)

/-- The text of source: a byte order mark is dropped, and bytes that are no text become replacement
characters. -/
def sourceOfBytes (bytes : List UInt8) : Text :=
  Utf8.unifyLineEnds (Utf8.decodeLossy (Utf8.dropMark bytes))

def readSource (t : Tree) (file : Path) : Except SystemError Text :=
  match t.contents file with
  | .ok bytes => .ok (sourceOfBytes bytes)
  | .error e => .error e

/-- Reads a file, extracts the properties of a class, and puts them into the cache. -/
def scanFile (settings : SearchSettings) (around : Surroundings) (store : Store)
    (typeName className : Text) (file : Path) :
    Store × List Event × Except Failure (List Property) :=
  match readSource around.tree file with
  | .error e => (store, [.unreadableModel file.toText e], .ok [])
  | .ok source =>
    match Property.extract settings.skipIdentity source className with
    | (events, .error failure) => (store, events, .error failure)
    | (events, .ok properties) =>
      let (kept, more) :=
        store.set typeName file.toText properties (around.timeOf file.toText) around.now
      (kept, events ++ more, .ok properties)

/-- The properties of a class in a file, from the cache if it can serve them. -/
def fromFile (settings : SearchSettings) (around : Surroundings) (store : Store)
    (typeName className : Text) (file : Path) :
    Store × List Event × Except Failure (List Property) :=
  match store.get typeName file.toText (around.timeOf file.toText) around.now with
  | (store, events, some properties) =>
    (store, events ++ [.cacheHit typeName file.toText], .ok properties)
  | (store, events, none) =>
    let (kept, more, result) := scanFile settings around store typeName className file
    (kept, events ++ more, result)

/-- The properties of the class that a type names, searched for below a folder.  Only a blank name
is refused. -/
def run (settings : SearchSettings) (around : Surroundings) (store : Store)
    (typeName root : Text) : Store × List Event × Except Failure (List Property) :=
  let type := Text.trim typeName
  let className := TypeName.className type
  if type.isEmpty then (store, [], .error .blankTypeName)
  else if className.isEmpty then (store, [.noClassName type], .ok [])
  else
    match sourceFile? settings around.tree className root with
    | (events, none) => (store, events, .ok [])
    | (events, some file) =>
      let (kept, more, result) := fromFile settings around store type className file
      (kept, events ++ more, result)

end Extraction

end RazorViews
