import RazorViews.Event
import RazorViews.Failure
import RazorViews.Number.Basic
import RazorViews.Property.Basic

/-!
A bounded store of extraction results.

An entry is kept under the name of a type, together with the time of the file it came from and the
reading of the clock when it was put in.  It is served as long as the file is not newer and the
entry not too old.  When the store is full, the entry that has been in it longest makes room.

Clients may interleave, so each operation is built of steps that are atomic by themselves: a
look-up, a removal of the very entry that was looked up, an insertion, and, for a sweep, a
collection of names and one removal per name.  Reading the clock and asking a file for its time
happen between the steps; what they answered is handed in.
-/

namespace RazorViews

/-- An extraction result in the store. -/
structure Entry where
  typeName : Text
  path : Text
  properties : List Property
  /-- The time of the file when the entry was put in. -/
  modified : Number
  /-- The reading of the clock when the entry was put in. -/
  cachedAt : Number
  /-- Tells this entry from every other one that the store has held. -/
  serial : Nat

/-- A bounded store of extraction results. -/
structure Store where
  /-- How many entries are kept at most. -/
  maxEntries : Nat
  /-- The age up to which an entry is served. -/
  lifetime : Number
  /-- The entries, the one longest in the store first. -/
  entries : List Entry
  nextSerial : Nat

/-- What asking a file for its time answers: the time, or the text of the refusal. -/
abbrev FileTime := Except Text Number

namespace Store

/-- An empty store, for at least one entry and with a positive lifetime. -/
def make? (maxEntries : Int) (lifetime : Number) : Except Failure Store :=
  if maxEntries < 1 then .error .noEntries
  else if lifetime.lt (.whole 0) || lifetime.isZero then .error .noLifetime
  else .ok ⟨maxEntries.toNat, lifetime, [], 0⟩

def size (s : Store) : Nat := s.entries.length

def find? (s : Store) (name : Text) : Option Entry := s.entries.find? fun e => e.typeName == name

def contains (s : Store) (name : Text) : Bool := (s.find? name).isSome

def isExpired (s : Store) (now : Number) (e : Entry) : Bool := s.lifetime.lt (now.sub e.cachedAt)

/-! ## Atomic steps -/

def remove (s : Store) (name : Text) : Store :=
  { s with entries := s.entries.filter fun e => e.typeName != name }

/-- Removes an entry, unless another one has taken its place. -/
def discard (s : Store) (e : Entry) : Store :=
  match s.find? e.typeName with
  | some present => if present.serial == e.serial then s.remove e.typeName else s
  | none => s

/-- The entries with one replaced by another of the same name. -/
def replace (e : Entry) (entries : List Entry) : List Entry :=
  entries.map fun old => if old.typeName == e.typeName then e else old

/-- Puts an entry in: in the place of the old one of that name, or at the end; then, if the store
is full, the first entry goes. -/
def insert (s : Store) (typeName path : Text) (properties : List Property)
    (modified cachedAt : Number) : Store × List Event :=
  let e : Entry := ⟨typeName, path, properties, modified, cachedAt, s.nextSerial⟩
  let numbered := { s with nextSerial := s.nextSerial + 1 }
  if s.contains typeName then ({ numbered with entries := replace e s.entries }, [])
  else
    match s.entries with
    | oldest :: rest =>
      if s.maxEntries ≤ s.size then
        ({ numbered with entries := rest ++ [e] }, [.evicted oldest.typeName])
      else ({ numbered with entries := s.entries ++ [e] }, [])
    | [] => ({ numbered with entries := [e] }, [])

def staleNames (s : Store) (now : Number) : List Text :=
  (s.entries.filter (s.isExpired now)).map (·.typeName)

/-- Removes the entry under a name if it is too old; tells whether it did. -/
def removeStale (s : Store) (now : Number) (name : Text) : Store × Bool :=
  match s.find? name with
  | some e => if s.isExpired now e then (s.remove name, true) else (s, false)
  | none => (s, false)

/-! ## Operations -/

/-- Why an entry that was looked up is not served. -/
def dropReason? (s : Store) (e : Entry) (path : Text) (fileTime : FileTime) (now : Number) :
    Option Event :=
  match fileTime with
  | .error error => some (.droppedWithoutFile e.typeName path error)
  | .ok modified =>
    if e.modified.lt modified then some (.droppedChanged e.typeName path)
    else if s.isExpired now e then some (.droppedExpired e.typeName)
    else none

/-- The properties under a name, if they may be served; an entry that may not is removed. -/
def get (s : Store) (name path : Text) (fileTime : FileTime) (now : Number) :
    Store × List Event × Option (List Property) :=
  match s.find? name with
  | none => (s, [], none)
  | some e =>
    match s.dropReason? e path fileTime now with
    | some event => (s.discard e, [event], none)
    | none => (s, [], some e.properties)

/-- Puts properties in under a name.  Without the time of their file they are not kept, and neither
is what was there before. -/
def set (s : Store) (name path : Text) (properties : List Property) (fileTime : FileTime)
    (now : Number) : Store × List Event :=
  match fileTime with
  | .error error => (s.remove name, [.notCached name path error])
  | .ok modified => s.insert name path properties modified now

def delete (s : Store) (name : Text) : Store × Bool := (s.remove name, s.contains name)

def clear (s : Store) : Store := { s with entries := [] }

/-- Removes the entries under the given names that are too old, and counts them. -/
def removeAllStale (s : Store) (now : Number) : List Text → Store × Nat
  | [] => (s, 0)
  | name :: rest =>
    let (after, removed) := s.removeStale now name
    let (last, count) := removeAllStale after now rest
    (last, if removed then count + 1 else count)

/-- Removes the entries that are too old, and counts them. -/
def sweep (s : Store) (now : Number) : Store × List Event × Nat :=
  let (after, count) := s.removeAllStale now (s.staleNames now)
  (after, if count == 0 then [] else [.swept count], count)

end Store

end RazorViews
