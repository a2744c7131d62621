import SchemaStack.Text.Reading
/-!
# Characters and places of a YAML text

A text is a list of characters; a mark says on which line and in which column its front is.
-/

namespace SchemaStack.Yaml

structure Mark where
  line : Nat
  /-- How many characters of the line stand before it. -/
  column : Nat
  /-- How many bytes these characters take. -/
  bytes : Nat
deriving DecidableEq, Repr, Inhabited

namespace Mark

def start : Mark := ⟨0, 0, 0⟩

/-- The place behind a character. -/
def past (m : Mark) (c : Char) : Mark :=
  { m with column := m.column + 1, bytes := m.bytes + c.utf8Size }

def pastAll (m : Mark) (cs : List Char) : Mark := cs.foldl past m

/-- The place behind ASCII characters. -/
def skip (m : Mark) (n : Nat) : Mark := { m with column := m.column + n, bytes := m.bytes + n }

def next (m : Mark) : Mark := m.skip 1

def newLine (m : Mark) : Mark := ⟨m.line + 1, 0, 0⟩

end Mark

/-- The characters that a text may consist of. -/
def isPermitted (c : Char) : Bool :=
  c == '\t' || c == '\n' || c == '\r' || (' ' ≤ c && c ≤ '~') || c == '\x85' ||
    ('\xA0' ≤ c && c ≤ '\uFFFD') || '\uFFFF' < c

def isBlank (c : Char) : Bool := c == ' ' || c == '\t'

def isBreak (c : Char) : Bool :=
  c == '\n' || c == '\r' || c == '\x85' || c == '\u2028' || c == '\u2029'

def isDigit (c : Char) : Bool := '0' ≤ c && c ≤ '9'

/-- Letters, digits, `_` and `-`. -/
def isNameChar (c : Char) : Bool :=
  isDigit c || ('a' ≤ c && c ≤ 'z') || ('A' ≤ c && c ≤ 'Z') || c == '_' || c == '-'

def hexValue? (c : Char) : Option Nat :=
  if '0' ≤ c ∧ c ≤ '9' then some (c.toNat - '0'.toNat)
  else if 'a' ≤ c ∧ c ≤ 'f' then some (c.toNat - 'a'.toNat + 10)
  else if 'A' ≤ c ∧ c ≤ 'F' then some (c.toNat - 'A'.toNat + 10)
  else none

/-- Whether the front character is one of those asked for. -/
def startsWith (p : Char → Bool) : List Char → Bool
  | [] => false
  | c :: _ => p c

/-- Whether a word that ends here is over: at a blank, a line break or the end of the text. -/
def atWordEnd : List Char → Bool
  | [] => true
  | c :: _ => isBlank c || isBreak c

/-- The given character, if it is at the front. -/
def exactly (c : Char) : (cs : List Char) → Option (Reading Unit cs)
  | [] => none
  | d :: cs => if d = c then some (.head () d cs) else none

/-- A line break at the front, as it counts inside a scalar: a newline, except for the two
separators, which are kept. -/
def lineBreak? : (cs : List Char) → Option (Reading Char cs)
  | '\r' :: '\n' :: cs => some (Reading.head '\n' '\n' cs).cons
  | c :: cs =>
    if c = '\u2028' ∨ c = '\u2029' then some (.head c c cs)
    else if isBreak c then some (.head '\n' c cs)
    else none
  | [] => none

/-- Three dashes or three points at the start of a line, as a word of their own, delimit
documents. -/
def atDelimiter (mark : Char) (m : Mark) : List Char → Bool
  | a :: b :: c :: cs =>
    m.column = 0 && a == mark && b == mark && c == mark && atWordEnd cs
  | _ => false

def atDocumentDelimiter (m : Mark) (cs : List Char) : Bool :=
  atDelimiter '-' m cs || atDelimiter '.' m cs

/-- Everything up to the first character that fails the test. -/
def span (p : Char → Bool) : (cs : List Char) → Trailing (List Char) cs
  | [] => .none [] []
  | c :: cs =>
    if p c then ((span p cs).map (c :: ·)).cons.trailing else .none [] (c :: cs)

/-- Blanks and a comment at the end of a line, and the line break, if there is one. Nothing else
may stand there. -/
def restOfLine (m : Mark) (cs : List Char) : Option (Trailing Mark cs) :=
  let blanks := span isBlank cs
  let comment : Trailing (List Char) blanks.rest :=
    if startsWith (· == '#') blanks.rest then span (!isBreak ·) blanks.rest
    else .none [] blanks.rest
  if comment.rest.isEmpty then
    some (blanks.trans (comment.map fun text => (m.skip blanks.value.length).pastAll text))
  else
    (lineBreak? comment.rest).map fun b =>
      blanks.trans (comment.trans (b.map fun _ => m.newLine).trailing)

end SchemaStack.Yaml
