import SchemaStack.Yaml.Cursor
import SchemaStack.Yaml.Token
/-!
# Anchors, tags and directives
-/

namespace SchemaStack.Yaml

/-! ## Anchors and aliases -/

/-- The characters that may touch the end of an anchor, besides white space. -/
def followsAnchor (c : Char) : Bool := ['?', ':', ',', ']', '}', '%', '@', '\x60'].contains c

/-- The name after the mark of an anchor or alias. -/
def anchorName (m : Mark) (cs : List Char) : Option (Trailing (String × Mark) cs) :=
  let name := span isNameChar cs
  if !name.value.isEmpty && (atWordEnd name.rest || startsWith followsAnchor name.rest) then
    some (name.map fun n => (String.ofList n, m.skip n.length))
  else none

/-! ## Tags -/

/-- The characters of a tag that stand for themselves. -/
def isTagChar (verbatim : Bool) (c : Char) : Bool :=
  isNameChar c ||
    [';', '/', '?', ':', '@', '&', '=', '+', '$', '.', '!', '~', '*', '\'', '(', ')'].contains c ||
    (verbatim && [',', '[', ']'].contains c)

/-- One byte written as two hexadecimal digits after a percent sign. -/
def percentByte : (cs : List Char) → Option (Reading Nat cs)
  | '%' :: a :: b :: cs => do
    let high ← hexValue? a
    let low ← hexValue? b
    return (Reading.head (high * 16 + low) b cs).cons.cons
  | _ => none

/-- How many bytes a character takes whose first byte is given. -/
def byteCount? (n : Nat) : Option Nat :=
  if n < 0x80 then some 1
  else if n < 0xC0 then none
  else if n < 0xE0 then some 2
  else if n < 0xF0 then some 3
  else if n < 0xF8 then some 4
  else none

/-- Further bytes of a character, each written with a percent sign. -/
def laterBytes : (n : Nat) → (cs : List Char) → Option (Trailing (List UInt8) cs)
  | 0, cs => some (.none [] cs)
  | n + 1, cs => do
    let b ← percentByte cs
    if b.value < 0x80 ∨ 0xC0 ≤ b.value then none
    else
      let t ← laterBytes n b.rest
      return (b.followedBy (t.map (b.value.toUInt8 :: ·))).trailing

/-- A character of a tag that is written by its bytes. -/
def percentChar (cs : List Char) : Option (Reading (List UInt8) cs) := do
  let b ← percentByte cs
  let n ← byteCount? b.value
  let t ← laterBytes (n - 1) b.rest
  return b.followedBy (t.map (b.value.toUInt8 :: ·))

/-- The bytes of a tag, and how many characters spell them. -/
def tagBytes (verbatim : Bool) (cs : List Char) : Option (Trailing (List UInt8 × Nat) cs) :=
  match cs with
  | [] => some (.none ([], 0) [])
  | c :: cs =>
    if isTagChar verbatim c then
      (tagBytes verbatim cs).map fun t =>
        (t.map fun (bs, n) => (c.toNat.toUInt8 :: bs, n + 1)).cons.trailing
    else if c = '%' then
      match percentChar (c :: cs) with
      | none => none
      | some b => (tagBytes verbatim b.rest).map fun t =>
          (b.followedBy (t.map fun (bs, n) => (b.value ++ bs, n + 3 * b.value.length))).trailing
    else some (.none ([], 0) (c :: cs))
termination_by cs.length
decreasing_by
  · exact Nat.lt_succ_self _
  · exact b.shorter

/-- The text of a handle whose first `!` has been taken: it, a name, and a closing `!` if there is
one. -/
def handleText (cs : List Char) : Trailing (List Char) cs :=
  let name := span isNameChar cs
  match exactly '!' name.rest with
  | some close => name.trans (close.map fun _ => '!' :: (name.value ++ ['!'])).trailing
  | none => name.map ('!' :: ·)

/-- Whether a handle is closed by an exclamation mark of its own. -/
def isClosedHandle (h : List Char) : Bool := 2 ≤ h.length && h.getLast? == some '!'

def bytesOf (cs : List Char) : List UInt8 := (String.ofList cs).toUTF8.toList

/-- A tag in angle brackets, from behind the opening one. -/
def verbatimTag (m : Mark) (cs : List Char) : Option (Trailing (Token × Mark) cs) := do
  let t ← tagBytes true cs
  let close ← exactly '>' t.rest
  if t.value.2 = 0 then none
  else
    return t.trans (close.map fun _ =>
      (.tag "" (.ofBytes t.value.1), m.skip (t.value.2 + 1))).trailing

/-- A tag made of a handle and a suffix. The suffix of a named handle may not be empty, and a
lone `!` is a tag by itself. -/
def shorthandTag (m : Mark) (cs : List Char) : Option (Trailing (Token × Mark) cs) := do
  let h := handleText cs
  let t ← tagBytes false h.rest
  let m := m.skip (h.value.length - 1 + t.value.2)
  if isClosedHandle h.value then
    if t.value.2 = 0 then none
    else return h.trans (t.map fun _ => (.tag (String.ofList h.value) (.ofBytes t.value.1), m))
  else
    let suffix := Tag.ofBytes (bytesOf (h.value.drop 1) ++ t.value.1)
    let token := if suffix.isEmpty then .tag "" (bytesOf ['!']) else .tag "!" suffix
    return h.trans (t.map fun _ => (token, m))

/-- A tag from behind its first `!`. -/
def anyTag (m : Mark) (cs : List Char) : Option (Trailing (Token × Mark) cs) :=
  match exactly '<' cs with
  | some r => (verbatimTag m.next r.rest).map fun t => (r.followedBy t).trailing
  | none => shorthandTag m cs

/-- A tag as a word of its own. Inside brackets a comma may follow it. -/
def tagToken (flow : Bool) (m : Mark) (cs : List Char) : Option (Trailing (Token × Mark) cs) := do
  let t ← anyTag m cs
  if atWordEnd t.rest || (flow && startsWith (· == ',') t.rest) then some t else none

/-! ## Directives -/

def numberOf (ds : List Char) : Nat := ds.foldl (fun n c => n * 10 + (c.toNat - '0'.toNat)) 0

/-- A number of at most nine digits. -/
def versionNumber (cs : List Char) : Option (Trailing Nat cs) :=
  let ds := span isDigit cs
  if ds.value.isEmpty || 9 < ds.value.length then none else some (ds.map numberOf)

def versionDirective (cs : List Char) : Option (Trailing Token cs) := do
  let blanks := span isBlank cs
  let major ← versionNumber blanks.rest
  let point ← exactly '.' major.rest
  let minor ← versionNumber point.rest
  return blanks.trans (major.trans
    (point.followedBy (minor.map fun n => .version major.value n)).trailing)

/-- The handle of a declaration is `!`, or closed. -/
def handleDirective (cs : List Char) : Option (Trailing Token cs) := do
  let blanks := span isBlank cs
  let mark ← exactly '!' blanks.rest
  let h := handleText mark.rest
  let space := span isBlank h.rest
  let t ← tagBytes true space.rest
  if h.value.getLast? != some '!' || space.value.isEmpty || t.value.2 = 0 || !atWordEnd t.rest then
    none
  else return blanks.trans (mark.followedBy (h.trans (space.trans
    (t.map fun (bs, _) => .handle (String.ofList h.value) (.ofBytes bs))))).trailing

/-- A directive from behind its percent sign to the end of its line. -/
def directive (m : Mark) (cs : List Char) : Option (Trailing (Token × Mark) cs) := do
  let name := span isNameChar cs
  let token ←
    if !atWordEnd name.rest then none
    else if name.value = ['Y', 'A', 'M', 'L'] then versionDirective name.rest
    else if name.value = ['T', 'A', 'G'] then handleDirective name.rest
    else none
  let line ← restOfLine m token.rest
  return name.trans (token.trans (line.map fun m => (token.value, m)))

end SchemaStack.Yaml
