import SchemaStack.CommandLine.Execution
/-!
# The program

Reads its arguments, takes a picture of the directories that the command works in, runs the
command on the picture, and carries out the changes.
-/

namespace SchemaStack.Program

def locationOf (realPath : String) : Filesystem.Location :=
  (Path.mk realPath).segments.filter (· ≠ "")

def pathOf (l : Filesystem.Location) : String := "/" ++ "/".intercalate l

/-- Adds a location with everything below it, as far as it can be read. -/
partial def addTree (l : Filesystem.Location) (fs : Filesystem) : IO Filesystem := do
  let some entries ← (some <$> (do (← IO.FS.realPath (pathOf l)).readDir)).catchExceptions
    fun _ => pure none
    | addFile l fs
  let mut fs := fs.set l .directory
  for e in entries do
    fs ← addTree (l ++ [e.fileName]) fs
  return fs
where
  addFile (l : Filesystem.Location) (fs : Filesystem) : IO Filesystem := do
    let bytes ← (some <$> IO.FS.readBinFile (pathOf l)).catchExceptions fun _ => pure none
    return match bytes with
      | some b => fs.set l (.file b.data.toList)
      | none => fs

/-- The directories on the way to a location, itself included. -/
def addAbove (l : Filesystem.Location) (fs : Filesystem) : Filesystem :=
  (List.range l.length).foldl (fun fs n => fs.set (l.take (n + 1)) .directory) fs

/-- Adds a directory with everything below it and the directories above it. -/
def addDirectory (p : Path) (fs : Filesystem) : IO Filesystem := do
  let real ← (some <$> IO.FS.realPath p.text).catchExceptions fun _ => pure none
  match real with
  | none => return fs
  | some real =>
    let l := locationOf real.toString
    addTree l (addAbove l fs)

/-- The files that a command finds. -/
def picture (c : Command) : IO Filesystem := do
  let current := locationOf (← IO.currentDir).toString
  c.directories.foldlM (fun fs p => addDirectory p fs) (addAbove current ⟨[], current⟩)

/-- Makes, writes and removes what differs. Directories come before what is in them. -/
def carryOut (before after : Filesystem) : IO Unit := do
  for (l, n) in after.nodes.mergeSort fun a b => a.1.length ≤ b.1.length do
    if before.get? l ≠ some n then
      match n with
      | .directory => IO.FS.createDirAll (pathOf l)
      | .file bytes => IO.FS.writeBinFile (pathOf l) ⟨bytes.toArray⟩
  for (l, n) in before.nodes do
    if n ≠ .directory ∧ after.get? l = none then IO.FS.removeFile (pathOf l)

def usage : String := "Usage: (init | compile | validate | classify) [options]"

def runCommand (c : Command) : IO UInt32 := do
  let before ← picture c
  let e := c.run before
  carryOut before e.files
  IO.print e.output
  match e.failure with
  | none => return 0
  | some f =>
    IO.eprintln ("error: " ++ f.message)
    return 1

end SchemaStack.Program

open SchemaStack in
def main (args : List String) : IO UInt32 := do
  match Command.ofArguments args with
  | .ok c => Program.runCommand c
  | .error .helped =>
    IO.println Program.usage
    return 0
  | .error .refused =>
    IO.eprintln Program.usage
    return 2
