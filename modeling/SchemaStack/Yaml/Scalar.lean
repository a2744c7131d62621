import SchemaStack.Yaml.Cursor
/-!
# Scalars

The text of a scalar, from its first character to its last. Plain and quoted scalars may run over
several lines; the white space between two lines is folded. Block scalars are taken line by line.
Texts under way are held last character first.
-/

namespace SchemaStack.Yaml

/-- White space between two words of a scalar: the blanks of one line, or line breaks. An escaped
line break leaves nothing of the first of them. -/
structure Gap where
  blanks : List Char
  breaks : Option (List Char × List Char)
deriving Repr

namespace Gap

def empty : Gap := ⟨[], none⟩

/-- The gap that an escaped line break opens. -/
def escaped : Gap := ⟨[], some ([], [])⟩

def isEmpty (g : Gap) : Bool := g.blanks.isEmpty && g.breaks.isNone

/-- Blanks count only before the first line break. -/
def blank (g : Gap) (c : Char) : Gap :=
  match g.breaks with
  | none => { g with blanks := c :: g.blanks }
  | some _ => g

def lineBreak (g : Gap) (c : Char) : Gap :=
  match g.breaks with
  | none => ⟨[], some ([c], [])⟩
  | some (first, more) => { g with breaks := some (first, c :: more) }

/-- A single newline becomes a space, and of several newlines the first is dropped. -/
def folded (g : Gap) : List Char :=
  match g.breaks with
  | none => g.blanks
  | some (['\n'], []) => [' ']
  | some (['\n'], more) => more
  | some (first, more) => more ++ first

/-- Takes one blank or one line break. -/
def take? (g : Gap) (m : Mark) : (cs : List Char) → Option (Reading (Gap × Mark) cs)
  | [] => none
  | c :: cs =>
    if isBlank c then some (.head (g.blank c, m.next) c cs)
    else (lineBreak? (c :: cs)).map (.map fun b => (g.lineBreak b, m.newLine))

end Gap

/-! ## Plain scalars -/

/-- Whether a plain scalar ends before this character. -/
def endsPlain (flow : Bool) (c : Char) (cs : List Char) : Bool :=
  (c == ':' && atWordEnd cs) || (flow && [',', '[', ']', '{', '}'].contains c)

/-- Inside brackets a colon may not touch another indicator. -/
def isStrayColon (flow : Bool) (c : Char) (cs : List Char) : Bool :=
  flow && c == ':' && startsWith ([',', '?', '[', ']', '{', '}'].contains ·) cs

/-- Whether a plain scalar does not go on with the word that stands here. -/
def stopsAtWord (flow : Bool) (margin : Nat) (m : Mark) (cs : List Char) : Bool :=
  atDocumentDelimiter m cs || startsWith (· == '#') cs || (!flow && m.column < margin)

/-- The rest of a plain scalar whose later lines start at the margin or after it, and whether line
breaks were taken after its last word. -/
def plainFrom (flow : Bool) (margin : Nat) (text : List Char) (g : Gap) (m : Mark)
    (cs : List Char) : Option (Trailing (List Char × Bool × Mark) cs) :=
  if g.breaks.isSome && m.column < margin && startsWith (· == '\t') cs then none
  else
    match g.take? m cs with
    | some r => (plainFrom flow margin text r.value.1 r.value.2 r.rest).map fun t =>
        (r.followedBy t).trailing
    | none =>
      let whole := (text.reverse, g.breaks.isSome, m)
      match cs with
      | [] => some (.none whole [])
      | c :: cs' =>
        if !g.isEmpty && stopsAtWord flow margin m (c :: cs') then some (.none whole (c :: cs'))
        else if isStrayColon flow c cs' then none
        else if endsPlain flow c cs' then some (.none whole (c :: cs'))
        else (plainFrom flow margin (c :: (g.folded ++ text)) .empty (m.past c) cs').map fun t =>
          t.cons.trailing
termination_by cs.length
decreasing_by
  · exact r.shorter
  · exact Nat.lt_succ_self _

/-! ## Quoted scalars -/

def simpleEscape? : Char → Option Char
  | '0' => some '\x00'
  | 'a' => some '\x07'
  | 'b' => some '\x08'
  | 't' => some '\t'
  | '\t' => some '\t'
  | 'n' => some '\n'
  | 'v' => some '\x0b'
  | 'f' => some '\x0c'
  | 'r' => some '\r'
  | 'e' => some '\x1b'
  | ' ' => some ' '
  | '"' => some '"'
  | '/' => some '/'
  | '\\' => some '\\'
  | 'N' => some '\x85'
  | '_' => some '\xa0'
  | 'L' => some '\u2028'
  | 'P' => some '\u2029'
  | _ => none

def hexDigits (acc : Nat) : (n : Nat) → (cs : List Char) → Option (Trailing Nat cs)
  | 0, cs => some (.none acc cs)
  | _ + 1, [] => none
  | n + 1, c :: cs => do
    let d ← hexValue? c
    let t ← hexDigits (acc * 16 + d) n cs
    return t.cons.trailing

def scalarValue? (n : Nat) : Option Char :=
  if n < 0xD800 ∨ (0xDFFF < n ∧ n ≤ 0x10FFFF) then some (Char.ofNat n) else none

/-- How many digits follow the letter of a numeric escape. -/
def escapeLength? : Char → Option Nat
  | 'x' => some 2
  | 'u' => some 4
  | 'U' => some 8
  | _ => none

/-- What a backslash and the characters after it stand for, and how many of these there are. -/
def escape? : (cs : List Char) → Option (Reading (Char × Nat) cs)
  | [] => none
  | c :: cs =>
    match escapeLength? c with
    | none => (simpleEscape? c).map fun e => .head (e, 1) c cs
    | some n => do
      let t ← hexDigits 0 n cs
      let e ← scalarValue? t.value
      return (t.map fun _ => (e, n + 1)).cons

/-- The rest of a scalar in double quotes, closing quote included. -/
def doubleFrom (text : List Char) (g : Gap) (m : Mark) (cs : List Char) :
    Option (Reading (List Char × Mark) cs) :=
  match g.take? m cs with
  | some r => (doubleFrom text r.value.1 r.value.2 r.rest).map r.after
  | none =>
    match cs with
    | [] => none
    | c :: cs' =>
      if atDocumentDelimiter m (c :: cs') then none
      else
        let text := g.folded ++ text
        if c = '"' then some (.head (text.reverse, m.next) c cs')
        else if c = '\\' then
          match lineBreak? cs' with
          | some b => (doubleFrom text .escaped m.newLine b.rest).map fun r => (b.after r).cons
          | none =>
            match escape? cs' with
            | none => none
            | some e =>
              (doubleFrom (e.value.1 :: text) .empty (m.skip (e.value.2 + 1)) e.rest).map
                fun r => (e.after r).cons
        else (doubleFrom (c :: text) .empty (m.past c) cs').map .cons
termination_by cs.length
decreasing_by
  · exact r.shorter
  · exact Nat.lt_succ_of_lt b.shorter
  · exact Nat.lt_succ_of_lt e.shorter
  · exact Nat.lt_succ_self _

/-- The rest of a scalar in single quotes, closing quote included. A quote is written twice. -/
def singleFrom (text : List Char) (g : Gap) (m : Mark) (cs : List Char) :
    Option (Reading (List Char × Mark) cs) :=
  match g.take? m cs with
  | some r => (singleFrom text r.value.1 r.value.2 r.rest).map r.after
  | none =>
    match cs with
    | [] => none
    | '\'' :: '\'' :: cs' =>
      (singleFrom ('\'' :: (g.folded ++ text)) .empty (m.skip 2) cs').map fun r => r.cons.cons
    | c :: cs' =>
      if atDocumentDelimiter m (c :: cs') then none
      else if c = '\'' then some (.head ((g.folded ++ text).reverse, m.next) c cs')
      else (singleFrom (c :: (g.folded ++ text)) .empty (m.past c) cs').map .cons
termination_by cs.length
decreasing_by
  · exact r.shorter
  · exact Nat.lt_succ_of_lt (Nat.lt_succ_self _)
  · exact Nat.lt_succ_self _

/-! ## Block scalars -/

/-- What is kept of the line breaks at the end of a block scalar: the last one of its text, none,
or all. -/
inductive Chomping where
  | clip
  | strip
  | keep
deriving DecidableEq, Repr, Inhabited

def chompingOf? : Char → Option Chomping
  | '+' => some .keep
  | '-' => some .strip
  | _ => none

/-- The optional chomping indicator. -/
def chomping : (cs : List Char) → Trailing Chomping cs
  | [] => .none .clip []
  | c :: cs =>
    match chompingOf? c with
    | none => .none .clip (c :: cs)
    | some k => (Reading.head k c cs).trailing

/-- The optional indentation indicator. It is not zero. -/
def increment : (cs : List Char) → Option (Trailing Nat cs)
  | [] => some (.none 0 [])
  | c :: cs =>
    if c = '0' then none
    else if isDigit c then some (Reading.head (c.toNat - '0'.toNat) c cs).trailing
    else some (.none 0 (c :: cs))

/-- Both indicators, in either order. -/
def blockIndicators (cs : List Char) : Option (Trailing (Chomping × Nat) cs) :=
  if startsWith isDigit cs then do
    let n ← increment cs
    let k := chomping n.rest
    return n.trans (k.map (·, n.value))
  else do
    let k := chomping cs
    let n ← increment k.rest
    return k.trans (n.map (k.value, ·))

/-- Line breaks and indentation before the next line with content, with the widest indentation
seen. While the indentation is not known yet, `indent` is zero. A tab may not indent. -/
def blockGap (indent widest : Nat) (breaks : List Char) (m : Mark) (cs : List Char) :
    Option (Trailing (List Char × Nat × Mark) cs) :=
  let widest := max widest m.column
  let indenting := indent = 0 ∨ m.column < indent
  match cs with
  | [] => some (.none (breaks, widest, m) [])
  | c :: cs =>
    if indenting ∧ c = ' ' then
      (blockGap indent widest breaks m.next cs).map fun t => t.cons.trailing
    else if indenting ∧ c = '\t' then none
    else
      match lineBreak? (c :: cs) with
      | none => some (.none (breaks, widest, m) (c :: cs))
      | some b =>
        (blockGap indent widest (b.value :: breaks) m.newLine b.rest).map fun t =>
          (b.followedBy t).trailing
termination_by cs.length
decreasing_by
  · exact Nat.lt_succ_self _
  · exact b.shorter

/-- A block scalar between two of its lines. -/
structure BlockText where
  text : List Char
  /-- The line break after the last line, if there is one. -/
  last : List Char
  /-- The line breaks after that one. -/
  breaks : List Char
  /-- Whether the last line starts with a blank. -/
  indented : Bool
deriving Repr

namespace BlockText

def chomped (b : BlockText) : Chomping → List Char
  | .strip => b.text.reverse
  | .clip => (b.last ++ b.text).reverse
  | .keep => (b.breaks ++ (b.last ++ b.text)).reverse

/-- The text before a further line. When folding, a newline between two lines that do not start
with a blank becomes a space, or is dropped where empty lines follow it. -/
def joined (b : BlockText) (fold blank : Bool) : List Char :=
  if fold && b.last == ['\n'] && !b.indented && !blank then
    if b.breaks.isEmpty then ' ' :: b.text else b.breaks ++ b.text
  else b.breaks ++ (b.last ++ b.text)

end BlockText

/-- The lines of a block scalar, which all stand at the given indentation. -/
def blockLines (fold : Bool) (indent : Nat) (b : BlockText) (m : Mark) (cs : List Char) :
    Option (Trailing (BlockText × Mark) cs) :=
  match cs with
  | [] => some (.none (b, m) [])
  | c :: cs =>
    if m.column = indent then
      let blank := isBlank c
      let line := span (!isBreak ·) cs
      let text := line.value.reverse ++ c :: b.joined fold blank
      match lineBreak? line.rest with
      | none =>
        some (line.map fun l => (⟨text, [], [], blank⟩, (m.past c).pastAll l)).cons.trailing
      | some lb =>
        match blockGap indent 0 [] m.newLine lb.rest with
        | none => none
        | some g =>
          (blockLines fold indent ⟨text, [lb.value], g.value.1, blank⟩ g.value.2.2 g.rest).map
            fun t => (line.trans (lb.followedBy (g.trans t)).trailing).cons.trailing
    else some (.none (b, m) (c :: cs))
termination_by cs.length
decreasing_by
  exact Nat.lt_succ_of_le (Nat.le_trans g.bounded
    (Nat.le_trans (Nat.le_of_lt lb.shorter) line.bounded))

/-- A block scalar from the character after its indicator. Its lines are indented by the given
increment over the collection they belong to, or else as its first line is, but not less than
the margin. -/
def blockScalar (fold : Bool) (margin : Nat) (m : Mark) (cs : List Char) :
    Option (Trailing (List Char × Mark) cs) := do
  let header ← blockIndicators cs
  let start ← restOfLine m header.rest
  let given := if header.value.2 = 0 then 0 else margin - 1 + header.value.2
  let g ← blockGap given 0 [] start.value start.rest
  let indent := if given = 0 then max g.value.2.1 (max margin 1) else given
  let lines ← blockLines fold indent ⟨[], [], g.value.1, false⟩ g.value.2.2 g.rest
  return header.trans (start.trans (g.trans
    (lines.map fun (b, m) => (b.chomped header.value.1, m))))

end SchemaStack.Yaml
