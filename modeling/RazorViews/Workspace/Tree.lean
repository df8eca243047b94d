import RazorViews.Text.Utf8
import RazorViews.Workspace.Path
import RazorViews.Workspace.SystemError

/-!
A tree of files and folders, and what can be done with it.

The tree is a finite list of entries under distinct locations, in the order in which they were
made.  Operations take paths and follow them step by step, as a system does: a step leads on only
from a folder, a step `..` leads to the folder above, and a name may take no more than 255 bytes.
A path with a NUL in it is refused before any step is taken.  Links between files, permissions, and
the limits that systems set to whole paths and to the depth of folders are left out.
-/

namespace RazorViews

/-- The names that lead from the top of a tree to a place in it. -/
abbrev Location := List Text

/-- What stands at a location. -/
inductive Node where
  | folder
  | file (content : List UInt8)
deriving DecidableEq, Repr

/-- A tree of files and folders. -/
structure Tree where
  /-- The working directory. -/
  home : Location
  /-- What stands where, below the top. -/
  entries : List (Location × Node)
  /-- There is one entry for a location at most. -/
  distinct : (entries.map Prod.fst).Nodup

namespace Tree

def empty (home : Location) : Tree := ⟨home, [], List.nodup_nil⟩

/-- What stands at a location; the top is a folder. -/
def get? (t : Tree) (l : Location) : Option Node :=
  if l.isEmpty then some .folder else t.entries.lookup l

/-! ## Changing entries -/

/-- Entries with one more, in the place of the old one for the location or at the end. -/
def put (l : Location) (n : Node) : List (Location × Node) → List (Location × Node)
  | [] => [(l, n)]
  | (k, m) :: rest => if k = l then (l, n) :: rest else (k, m) :: put l n rest

theorem mem_keys_put (l : Location) (n : Node) (k : Location) (entries : List (Location × Node)) :
    k ∈ (put l n entries).map Prod.fst ↔ k = l ∨ k ∈ entries.map Prod.fst := by
  induction entries with
  | nil => simp [put]
  | cons e rest ih =>
    by_cases he : e.1 = l
    · rw [put, if_pos he, List.map_cons, List.map_cons, List.mem_cons, List.mem_cons, he,
        or_self_left]
    · rw [put, if_neg he, List.map_cons, List.map_cons, List.mem_cons, List.mem_cons, ih,
        or_left_comm]

theorem nodup_keys_put (l : Location) (n : Node) (entries : List (Location × Node))
    (h : (entries.map Prod.fst).Nodup) : ((put l n entries).map Prod.fst).Nodup := by
  induction entries with
  | nil => simp [put]
  | cons e rest ih =>
    by_cases he : e.1 = l
    · simp_all [put]
    · rw [List.map_cons, List.nodup_cons] at h
      rw [put, if_neg he, List.map_cons, List.nodup_cons, mem_keys_put, not_or]
      exact ⟨⟨he, h.1⟩, ih h.2⟩

def insert (t : Tree) (l : Location) (n : Node) : Tree :=
  { t with entries := put l n t.entries, distinct := nodup_keys_put l n t.entries t.distinct }

def erase (t : Tree) (l : Location) : Tree :=
  { t with
    entries := t.entries.filter fun e => e.1 ≠ l
    distinct := t.distinct.sublist (List.filter_sublist.map Prod.fst) }

/-! ## Following paths -/

/-- The most bytes that a name may take. -/
def maxNameBytes : Nat := 255

/-- Follows steps from a location.  The last step need not lead to anything. -/
def walk (t : Tree) (l : Location) : List Text → Except SystemCause Location
  | [] => .ok l
  | step :: rest =>
    match t.get? l with
    | none => .error .missing
    | some (.file _) => .error .notAFolder
    | some .folder =>
      if step == ['.', '.'] then walk t l.dropLast rest
      else if maxNameBytes < Utf8.size step then .error .nameTooLong
      else walk t (l ++ [step]) rest

/-- Where a path starts from. -/
def origin (t : Tree) (p : Path) : Location := if p.root == .here then t.home else []

/-- The location that a path leads to. -/
def resolve (t : Tree) (p : Path) : Except SystemCause Location :=
  if p.steps.any (·.contains '\x00') then .error .nulInName else t.walk (t.origin p) p.steps

/-- What stands where a path leads. -/
def status (t : Tree) (p : Path) : Except SystemCause Node := do
  let l ← t.resolve p
  match t.get? l with
  | some n => .ok n
  | none => .error .missing

/-- Names the path that a refusal is about. -/
def about {α : Type} (p : Path) : Except SystemCause α → Except SystemError α
  | .ok a => .ok a
  | .error cause => .error ⟨cause, p.toText⟩

/-- A question about what stands where a path leads; the answer is no when nothing does.  Only a
name that is too long leaves the question open. -/
def asks (t : Tree) (holds : Node → Bool) (p : Path) : Except SystemError Bool :=
  match t.status p with
  | .ok n => .ok (holds n)
  | .error .nameTooLong => .error ⟨.nameTooLong, p.toText⟩
  | .error _ => .ok false

def isFolderNode : Node → Bool
  | .folder => true
  | .file _ => false

def isFolder (t : Tree) (p : Path) : Except SystemError Bool := t.asks isFolderNode p

def isFile (t : Tree) (p : Path) : Except SystemError Bool := t.asks (!isFolderNode ·) p

def isThere (t : Tree) (p : Path) : Except SystemError Bool := t.asks (fun _ => true) p

/-! ## Reading -/

def contents (t : Tree) (p : Path) : Except SystemError (List UInt8) :=
  about p <| do
    match ← t.status p with
    | .file content => .ok content
    | .folder => .error .isAFolder

def namesIn (t : Tree) (l : Location) : List Text :=
  t.entries.filterMap fun (k, _) =>
    match k.getLast? with
    | some name => if k.dropLast == l then some name else none
    | none => none

/-- The entries below a location, each with the names that lead to it from there. -/
def below (t : Tree) (l : Location) : List (Location × Node) :=
  t.entries.filterMap fun (k, n) =>
    if l.isPrefixOf k && k.length != l.length then some (k.drop l.length, n) else none

/-! ## Writing -/

/-- The location for a new entry: the folder above has to be there. -/
def place (t : Tree) (p : Path) (taken : SystemCause) : Except SystemCause Location :=
  if p.steps.any (·.contains '\x00') then .error .nulInName
  else
    match p.steps.getLast? with
    | none => .error taken
    | some name => do
      let above ← t.walk (t.origin p) p.parent.steps
      match t.get? above with
      | none => .error .missing
      | some (.file _) => .error .notAFolder
      | some .folder =>
        if name == ['.', '.'] then .error taken
        else if maxNameBytes < Utf8.size name then .error .nameTooLong
        else .ok (above ++ [name])

def makeFolder (t : Tree) (p : Path) : Except SystemCause Tree := do
  let l ← t.place p .alreadyThere
  match t.get? l with
  | some _ => .error .alreadyThere
  | none => .ok (t.insert l .folder)

/-- The refusal to make a folder does not count when the folder is there already. -/
def unlessThere (t : Tree) (p : Path) (cause : SystemCause) : Except SystemError Tree := do
  if cause != .nulInName && (← t.isFolder p) then .ok t else .error ⟨cause, p.toText⟩

/-- Makes a folder and the folders above it, as far as they are missing.  The folders made stay
when a later one is refused. -/
def makeFolders (t : Tree) (p : Path) : Tree × Except SystemError Unit :=
  go t p p.steps.length
where
  /-- A second attempt, once the folder above is there. -/
  again (t : Tree) (p : Path) : Tree × Except SystemError Unit :=
    match t.makeFolder p with
    | .ok made => (made, .ok ())
    | .error cause =>
      match if cause == .missing then .error ⟨cause, p.toText⟩ else t.unlessThere p cause with
      | .ok same => (same, .ok ())
      | .error e => (t, .error e)
  go (t : Tree) (p : Path) : (levels : Nat) → Tree × Except SystemError Unit
    | 0 => again t p
    | levels + 1 =>
      match t.makeFolder p with
      | .ok made => (made, .ok ())
      | .error .missing =>
        match go t p.parent levels with
        | (made, .ok ()) => again made p
        | (made, .error e) => (made, .error e)
      | .error cause =>
        match t.unlessThere p cause with
        | .ok same => (same, .ok ())
        | .error e => (t, .error e)

def writeFile (t : Tree) (p : Path) (content : List UInt8) : Except SystemError Tree :=
  about p <| do
    let l ← t.place p .isAFolder
    match t.get? l with
    | some .folder => .error .isAFolder
    | _ => .ok (t.insert l (.file content))

/-- Writes a file after making the folders above it, as far as they are missing. -/
def storeFile (t : Tree) (p : Path) (content : List UInt8) : Tree × Except SystemError Unit :=
  match t.makeFolders p.parent with
  | (made, .error e) => (made, .error e)
  | (made, .ok ()) =>
    match made.writeFile p content with
    | .ok written => (written, .ok ())
    | .error e => (made, .error e)

def removeFile (t : Tree) (p : Path) : Except SystemError Tree :=
  about p <| do
    let l ← t.resolve p
    match t.get? l with
    | none => .error .missing
    | some .folder => .error .isAFolder
    | some (.file _) => .ok (t.erase l)

end Tree

end RazorViews
