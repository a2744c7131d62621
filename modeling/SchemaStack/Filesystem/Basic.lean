import SchemaStack.Filesystem.Path
/-!
# Filesystems

Files and directories by location, and what a path leads to. Every name on the way to the last
one has to be that of a directory.
-/

namespace SchemaStack

/-- Why a file cannot be read or written. -/
inductive FileFault where
  | notFound
  | busy
  | exists
  | notDirectory
  | isDirectory
  | nameTooLong
  | nulInName
  | notText
deriving DecidableEq, Repr, Inhabited

def FileFault.message : FileFault → String
  | .notFound => "No such file or directory (os error 2)"
  | .busy => "Device or resource busy (os error 16)"
  | .exists => "File exists (os error 17)"
  | .notDirectory => "Not a directory (os error 20)"
  | .isDirectory => "Is a directory (os error 21)"
  | .nameTooLong => "File name too long (os error 36)"
  | .nulInName => "file name contained an unexpected NUL byte"
  | .notText => "stream did not contain valid UTF-8"

/-- A fault and the path that was used. -/
structure FileError where
  path : Path
  fault : FileFault
deriving DecidableEq, Repr

def FileError.message (e : FileError) : String :=
  "cannot access " ++ e.path.text ++ ": " ++ e.fault.message

/-- The names on the way from the root, outermost first. -/
abbrev Filesystem.Location := List String

inductive FileNode where
  | file (bytes : List UInt8)
  | directory
deriving DecidableEq, Repr

structure Filesystem where
  /-- What there is below the root, at most once per location. -/
  nodes : List (Filesystem.Location × FileNode)
  /-- The directory in which relative paths start. -/
  current : Filesystem.Location
deriving Repr

namespace Filesystem

variable (fs : Filesystem)

/-- What is at a location. The root is always a directory. -/
def get? (l : Location) : Option FileNode := if l = [] then some .directory else fs.nodes.lookup l

def erase (l : Location) : Filesystem := { fs with nodes := fs.nodes.filter fun n => n.1 ≠ l }

def set (l : Location) (n : FileNode) : Filesystem :=
  { fs with nodes := (l, n) :: (fs.erase l).nodes }

theorem get?_set (l l' : Location) (n : FileNode) :
    (fs.set l n).get? l' = if l' = [] then some .directory
      else if l' = l then some n else fs.get? l' := by
  by_cases h0 : l' = []
  · simp [get?, h0]
  by_cases h : l' = l
  · subst h
    simp [get?, set, h0]
  · have hl : (l' == l) = false := by simpa using h
    simp only [get?, set, erase, h0, if_false, h, List.lookup_cons, hl]
    generalize fs.nodes = ns
    induction ns with
    | nil => rfl
    | cons e ns ih =>
      obtain ⟨k, m⟩ := e
      by_cases hk : k = l
      · subst hk
        simp only [List.filter_cons, ne_eq, not_true_eq_false, decide_false, Bool.false_eq_true,
          if_false, List.lookup_cons, hl]
        exact ih
      · simp only [List.filter_cons, ne_eq, hk, not_false_eq_true, decide_true, if_true,
          List.lookup_cons]
        cases l' == k
        · exact ih
        · rfl

/-- What a path leads to: a name in a directory, or by its last dots, or as the root, a directory
itself. -/
inductive Place where
  | named (parent : Location) (name : String)
  | itself (l : Location)
deriving DecidableEq, Repr

def maxNameBytes : Nat := 255

def maxPathBytes : Nat := 4095

/-- The directory that one segment leads to. -/
def enter (l : Location) (s : String) : Except FileFault Location :=
  if s = "." then .ok l
  else if s = ".." then .ok l.dropLast
  else if maxNameBytes < s.utf8ByteSize then .error .nameTooLong
  else
    match fs.get? (l ++ [s]) with
    | none => .error .notFound
    | some (.file _) => .error .notDirectory
    | some .directory => .ok (l ++ [s])

def walk (l : Location) : List String → Except FileFault Place
  | [] => .ok (.itself l)
  | [s] =>
    if s = "." then .ok (.itself l)
    else if s = ".." then .ok (.itself l.dropLast)
    else if maxNameBytes < s.utf8ByteSize then .error .nameTooLong
    else .ok (.named l s)
  | s :: ss => do walk (← fs.enter l s) ss

def place (p : Path) : Except FileFault Place :=
  if p.text.toList.contains '\x00' then .error .nulInName
  else if maxPathBytes < p.text.utf8ByteSize then .error .nameTooLong
  else if p.text.isEmpty then .error .notFound
  else fs.walk (if p.isAbsolute then [] else fs.current) (p.segments.filter (· ≠ ""))

/-- What there is at the end of a path, and where. Only a directory may be named with a slash
behind it. -/
def stat (p : Path) : Except FileFault (Location × FileNode) := do
  match ← fs.place p with
  | .itself l => .ok (l, .directory)
  | .named d name =>
    match fs.get? (d ++ [name]) with
    | none => .error .notFound
    | some .directory => .ok (d ++ [name], .directory)
    | some (.file bytes) =>
      if p.endsInSlash then .error .notDirectory else .ok (d ++ [name], .file bytes)

def has (p : Path) : Bool := (fs.stat p).toOption.isSome

def isDirectory (p : Path) : Bool := (fs.stat p).toOption.any fun r => r.2 == .directory

/-- The name of the directory or file that a path leads to, whatever the path calls it. -/
def nameOf? (p : Path) : Option String := (fs.stat p).toOption.bind fun r => r.1.getLast?

/-! ## Reading -/

def readBytes (p : Path) : Except FileFault (List UInt8) := do
  match ← fs.stat p with
  | (_, .file bytes) => .ok bytes
  | (_, .directory) => .error .isDirectory

def readText (p : Path) : Except FileFault String := do
  let bytes ← fs.readBytes p
  match String.fromUTF8? ⟨bytes.toArray⟩ with
  | some text => .ok text
  | none => .error .notText

/-! ## Writing -/

/-- Replaces the content of a file, or makes a new one. -/
def write (p : Path) (bytes : List UInt8) : Except FileFault Filesystem := do
  match ← fs.place p with
  | .itself _ => .error .isDirectory
  | .named d name =>
    if p.endsInSlash then .error .isDirectory
    else
      match fs.get? (d ++ [name]) with
      | some .directory => .error .isDirectory
      | _ => .ok (fs.set (d ++ [name]) (.file bytes))

def makeDirectory (p : Path) : Except FileFault Filesystem := do
  match ← fs.place p with
  | .itself _ => .error .exists
  | .named d name =>
    match fs.get? (d ++ [name]) with
    | some _ => .error .exists
    | none => .ok (fs.set (d ++ [name]) .directory)

/-- Makes the first of the given directories, and before it those after it in the list as far as
they are missing. -/
def makeDirectories : List Path → Filesystem → Except FileFault Unit × Filesystem
  | [], fs => (.ok (), fs)
  | p :: ps, fs =>
    if p.text.isEmpty then (.ok (), fs)
    else
      let orThere (f : FileFault) (fs : Filesystem) : Except FileFault Unit × Filesystem :=
        (if fs.isDirectory p then .ok () else .error f, fs)
      match fs.makeDirectory p with
      | .ok fs => (.ok (), fs)
      | .error .notFound =>
        match makeDirectories ps fs with
        | (.error f, fs) => (.error f, fs)
        | (.ok (), fs) =>
          match fs.makeDirectory p with
          | .ok fs => (.ok (), fs)
          | .error f => orThere f fs
      | .error f => orThere f fs

/-- Moves the file at one path to another path, over a file that is there. -/
def rename (source target : Path) : Except FileFault Filesystem := do
  let (l, node) ← fs.stat source
  match ← fs.place target with
  | .itself _ => .error .busy
  | .named d name =>
    if target.endsInSlash then .error .notDirectory
    else
      match fs.get? (d ++ [name]) with
      | some .directory => .error .isDirectory
      | _ => .ok ((fs.erase l).set (d ++ [name]) node)

/-- Takes away whatever is at a location or below it. -/
def removeAll (l : Location) : Filesystem :=
  { fs with nodes := fs.nodes.filter fun n => !l.isPrefixOf n.1 }

end Filesystem

end SchemaStack
