import RazorViews.CommandLine.Run

/-!
The program: reads the files it may need, runs the command line, writes what has changed, and
prints.
-/

namespace RazorViews.Program

/-! ## Files -/

/-- The path of a location on the disk. -/
def diskPath (l : Location) : String :=
  String.ofList ('/' :: Text.join ['/'] l)

/-- Adds what a folder entry stands for, and everything below it. -/
partial def addEntry (l : Location) (entry : IO.FS.DirEntry) (t : Tree) : IO Tree := do
  let here := l ++ [entry.fileName.toList]
  let kind := (← entry.path.symlinkMetadata).type
  if kind == .dir then
    let mut tree := t.insert here .folder
    for inner in ← entry.path.readDir do
      tree ← addEntry here inner tree
    return tree
  else if ← entry.path.isDir then return t.insert here .folder
  else return t.insert here (.file (← IO.FS.readBinFile entry.path).toList)

/-- Everything below the working directory, and the folders above it. -/
def readFiles : IO Tree := do
  let current ← IO.currentDir
  let home := Path.stepsOf current.toString.toList
  let mut tree := Tree.empty home
  for count in List.range home.length do
    tree := tree.insert (home.take (count + 1)) .folder
  for entry in ← current.readDir do
    tree ← addEntry home entry tree
  return tree

/-- Writes the entries of a tree that differ from those of another. -/
def writeFiles (before after : Tree) : IO Unit := do
  for (l, node) in after.entries do
    if before.get? l != some node then
      match node with
      | .folder => IO.FS.createDirAll (diskPath l)
      | .file content => IO.FS.writeBinFile (diskPath l) ⟨content.toArray⟩

/-! ## The user -/

/-- The variables that settings are taken from, as far as they are set. -/
def readEnvironment : IO Settings.Environment :=
  Settings.Environment.names.filterMapM fun name => do
    return (← IO.getEnv name).map fun value => (name.toList, value.toList)

def printLine (t : Text) : IO Unit := IO.println (String.ofList t)

def print : Printed → IO Unit
  | .line _ t => printLine t
  | .table t => t.lines.forM printLine
  | .gap => printLine []

/-- Runs the program; the result is its exit status. -/
def run (arguments : List String) : IO UInt32 := do
  let before ← readFiles
  let outcome := Invocation.run (arguments.map String.toList) (← readEnvironment) before
  writeFiles before outcome.tree
  for event in outcome.events do
    IO.eprintln (String.ofList event.text)
  match outcome.reply with
  | .ok reply =>
    reply.printed.forM print
    return UInt32.ofNat reply.status
  | .error failure =>
    IO.eprintln (String.ofList failure.text)
    return 1

end RazorViews.Program

def main (arguments : List String) : IO UInt32 := RazorViews.Program.run arguments
