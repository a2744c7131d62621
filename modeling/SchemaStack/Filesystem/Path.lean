/-!
# Paths

A path is a text; its segments stand between slashes. Empty segments mean nothing, and neither
does a dot except at the front. What a path leads to depends on the files there are and is not
decided here.
-/

namespace SchemaStack

structure Path where
  text : String
deriving DecidableEq, Repr, Inhabited

namespace Path

/-- The parts of a list between the separators, one more than there are separators. -/
def splitAt (sep : Char) : List Char → List (List Char)
  | [] => [[]]
  | c :: cs =>
    if c = sep then [] :: splitAt sep cs
    else
      match splitAt sep cs with
      | [] => [[c]]
      | w :: ws => (c :: w) :: ws

def segments (p : Path) : List String := (splitAt '/' p.text.toList).map String.ofList

def ofSegments (ss : List String) : Path := ⟨"/".intercalate ss⟩

def isAbsolute (p : Path) : Bool := p.text.toList.head? == some '/'

def endsInSlash (p : Path) : Bool := p.text.toList.getLast? == some '/'

/-- A path inside another one. An absolute path stays as it is. -/
def join (p : Path) (name : String) : Path :=
  if (Path.mk name).isAbsolute then ⟨name⟩
  else if p.text.isEmpty || p.endsInSlash then ⟨p.text ++ name⟩
  else ⟨p.text ++ "/" ++ name⟩

def isIdle (s : String) : Bool := s == "" || s == "."

def dropIdle (ss : List String) : List String := (ss.reverse.dropWhile isIdle).reverse

/-- The segments up to the last one that means something. The first one always stays. -/
def trimmed (p : Path) : List String :=
  match p.segments with
  | [] => []
  | s :: ss => s :: dropIdle ss

/-- The path without its last part. The root and the empty path have no parent. -/
def parent? (p : Path) : Option Path :=
  match p.trimmed with
  | [] => none
  | [s] => if s = "" then none else some ⟨""⟩
  | s :: ss =>
    let up := dropIdle ss.dropLast
    if s = "" ∧ up = [] then some ⟨"/"⟩ else some (ofSegments (s :: up))

/-- The last part, if it is a name. -/
def fileName? (p : Path) : Option String :=
  p.trimmed.getLast?.filter fun s => !(isIdle s || s == "..")

/-- The path with another name in place of its last part. -/
def withFileName (p : Path) (name : String) : Path :=
  match p.fileName?, p.parent? with
  | some _, some q => q.join name
  | _, _ => p.join name

/-- The sibling that a file is written to before it takes its place. -/
def temporary (p : Path) : Path := p.withFileName (p.fileName?.getD "" ++ ".tmp")

def ancestorsFrom : Nat → Path → List Path
  | 0, _ => []
  | n + 1, p =>
    p :: match p.parent? with
      | none => []
      | some q => ancestorsFrom n q

/-- The path, its parent, the parent of that one, and so on. -/
def ancestors (p : Path) : List Path := ancestorsFrom (p.segments.length + 1) p

end Path

end SchemaStack
