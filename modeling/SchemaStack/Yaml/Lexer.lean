import SchemaStack.Yaml.Name
import SchemaStack.Yaml.Scalar
/-!
# From YAML texts to tokens

Indentation becomes tokens: a block collection opens where an entry or key stands deeper than the
collection around it, and closes where a line starts at a lesser column. A word on one line may
turn out to be a key when a colon follows it; its key token is then put in front of it.
-/

namespace SchemaStack.Yaml

/-- Where a key may start whose colon has not been seen. -/
structure PendingKey where
  /-- A key at the indentation of its mapping: without its colon the text is wrong. -/
  required : Bool
  /-- How many tokens stand before it. -/
  before : Nat
  mark : Mark
deriving Repr

namespace PendingKey

/-- A key ends on its line, and its colon comes within 1024 bytes. -/
def isOver (k : PendingKey) (m : Mark) : Bool :=
  k.mark.line < m.line || k.mark.bytes + 1024 < m.bytes

def dropped : Option PendingKey → Option (Option PendingKey)
  | some k => if k.required then none else some none
  | none => some none

def checked (m : Mark) : Option PendingKey → Option (Option PendingKey)
  | some k => if k.isOver m then dropped (some k) else some (some k)
  | none => some none

end PendingKey

structure Lexing where
  /-- The tokens so far, last one first. -/
  tokens : List Token
  /-- The columns of the open block collections, innermost first. -/
  columns : List Nat
  /-- Whether a key may start here. -/
  keyAllowed : Bool
  /-- The key that may have started between the innermost brackets. -/
  pending : Option PendingKey
  /-- The keys that may have started outside of each open bracket, innermost first. -/
  outer : List (Option PendingKey)

namespace Lexing

def start : Lexing := ⟨[], [], true, none, []⟩

variable (s : Lexing)

/-- Between brackets, indentation means nothing. -/
def inFlow : Bool := !s.outer.isEmpty

/-- The least column of the content of the innermost block collection. -/
def margin : Nat :=
  match s.columns with
  | [] => 0
  | c :: _ => c + 1

def add (t : Token) : Lexing := { s with tokens := t :: s.tokens }

def allowKey (b : Bool) : Lexing := { s with keyAllowed := b }

/-- Closes the block collections whose columns pass the test, innermost first. -/
def close (p : Nat → Bool) : Lexing :=
  if s.inFlow then s
  else
    let closed := s.columns.takeWhile p
    { s with
      tokens := List.replicate closed.length .blockEnd ++ s.tokens
      columns := s.columns.drop closed.length }

/-- Puts tokens in front of the last ones, so that `n` tokens stand before them. -/
def insertAfter (n : Nat) (ts : List Token) : Lexing :=
  let later := s.tokens.length - n
  { s with tokens := s.tokens.take later ++ (ts.reverse ++ s.tokens.drop later) }

/-- Opens a block collection at a column, unless one stands there already, and gives the token to
put in front. -/
def openBlock (column : Nat) (t : Token) : Lexing × List Token :=
  if s.inFlow || column < s.margin then (s, [])
  else ({ s with columns := column :: s.columns }, [t])

/-- Opens a block collection for an entry, a key or a value that has to start here. -/
def openHere (m : Mark) (t : Token) : Option Lexing :=
  if s.inFlow then some s
  else if !s.keyAllowed then none
  else
    let (s, ts) := s.openBlock m.column t
    some (ts.foldl add s)

def dropKey : Option Lexing :=
  (PendingKey.dropped s.pending).map fun k => { s with pending := k }

/-- Notes that a key may start here. -/
def noteKey (m : Mark) : Option Lexing :=
  if s.keyAllowed then
    let required := !s.inFlow && s.columns.head? == some m.column
    s.dropKey.map fun s => { s with pending := some ⟨required, s.tokens.length, m⟩ }
  else some s

def dropOldKeys (m : Mark) : Option Lexing := do
  let pending ← PendingKey.checked m s.pending
  let outer ← s.outer.mapM (PendingKey.checked m)
  return { s with pending, outer }

/-- A token of the text's outermost level: all block collections are over. -/
def addOutermost (t : Token) : Option Lexing :=
  ((s.close fun _ => true).dropKey).map fun s => (s.allowKey false).add t

def openFlow (m : Mark) (t : Token) : Option Lexing :=
  (s.noteKey m).map fun s =>
    { s with tokens := t :: s.tokens, keyAllowed := true, pending := none,
             outer := s.pending :: s.outer }

def closeFlow (t : Token) : Option Lexing :=
  s.dropKey.map fun s =>
    match s.outer with
    | [] => (s.allowKey false).add t
    | k :: outer =>
      { s with tokens := t :: s.tokens, keyAllowed := false, pending := k, outer }

def addFlowEntry : Option Lexing :=
  s.dropKey.map fun s => (s.allowKey true).add .flowEntry

def addBlockEntry (m : Mark) : Option Lexing := do
  let s ← s.openHere m .blockSequence
  let s ← s.dropKey
  return (s.allowKey true).add .blockEntry

def addKey (m : Mark) : Option Lexing := do
  let s ← s.openHere m .blockMapping
  let s ← s.dropKey
  return (s.allowKey (!s.inFlow)).add .key

/-- A colon makes a key of the word before it, or gives a value to a key that is left out. -/
def addValue (m : Mark) : Option Lexing :=
  match s.pending with
  | some k =>
    let (s, ts) := s.openBlock k.mark.column .blockMapping
    let s := s.insertAfter k.before (ts ++ [.key])
    some ({ s with pending := none, keyAllowed := false }.add .value)
  | none =>
    (s.openHere m .blockMapping).map fun s => (s.allowKey (!s.inFlow)).add .value

end Lexing

/-- White space, comments and line breaks before the next token. A tab counts as white space
where no key may start, and a byte order mark at the start of a line, where it takes a column as
a space does. After a line break of a block text a key may start. -/
def skipSpace (flow keyAllowed : Bool) (m : Mark) (cs : List Char) :
    Trailing (Bool × Mark) cs :=
  match cs with
  | [] => .none (keyAllowed, m) []
  | c :: cs =>
    if c = ' ' || (c = '\t' && (flow || !keyAllowed)) || (c = '\uFEFF' && m.column = 0) then
      (skipSpace flow keyAllowed (m.past c) cs).cons.trailing
    else if c = '#' then
      let comment := span (!isBreak ·) cs
      (comment.trans
        (skipSpace flow keyAllowed ((m.past c).pastAll comment.value) comment.rest)).cons.trailing
    else
      match lineBreak? (c :: cs) with
      | none => .none (keyAllowed, m) (c :: cs)
      | some b => (b.followedBy (skipSpace flow (keyAllowed || !flow) m.newLine b.rest)).trailing
termination_by cs.length
decreasing_by
  · exact Nat.lt_succ_self _
  · exact Nat.lt_succ_of_le comment.bounded
  · exact b.shorter

/-- The characters that no plain scalar starts with, wherever they stand. -/
def isIndicator (c : Char) : Bool :=
  [',', '[', ']', '{', '}', '#', '&', '*', '!', '|', '>', '\'', '"', '%', '@', '\x60'].contains c

/-- Whether a plain scalar may start with this character. -/
def startsPlain (flow : Bool) (c : Char) (cs : List Char) : Bool :=
  if c = '-' then !startsWith isBlank cs
  else if c = '?' || c = ':' then !flow && !atWordEnd cs
  else !(isBlank c || isBreak c || isIndicator c)

/-- A reading of scalar text, as a token after those of `s`. -/
def Lexing.addScalar (s : Lexing) (style : ScalarStyle) (text : List Char) : Lexing :=
  s.add (.scalar style (String.ofList text))

/-- The token that starts with the character `c`. -/
def Lexing.token (s : Lexing) (m : Mark) (c : Char) (cs : List Char) :
    Option (Trailing (Lexing × Mark) cs) := do
  let single (s : Lexing) : Trailing (Lexing × Mark) cs := .none (s, m.next) cs
  if m.column = 0 && c = '%' then
    let t ← directive m.next cs
    let s ← s.addOutermost t.value.1
    return t.map fun (_, m) => (s, m)
  else if atDocumentDelimiter m (c :: cs) then
    let s ← s.addOutermost (if c = '-' then .documentStart else .documentEnd)
    let t := span (· == c) cs
    return t.map fun cs => (s, m.skip (cs.length + 1))
  else if c = '[' then (s.openFlow m .flowSequence).map single
  else if c = '{' then (s.openFlow m .flowMapping).map single
  else if c = ']' then (s.closeFlow .flowSequenceEnd).map single
  else if c = '}' then (s.closeFlow .flowMappingEnd).map single
  else if c = ',' then s.addFlowEntry.map single
  else if c = '-' && atWordEnd cs then (s.addBlockEntry m).map single
  else if c = '?' && (s.inFlow || atWordEnd cs) then (s.addKey m).map single
  else if c = ':' && (s.inFlow || atWordEnd cs) then (s.addValue m).map single
  else if c = '*' || c = '&' then
    let s ← s.noteKey m
    let t ← anchorName m.next cs
    return t.map fun (name, m) =>
      ((s.allowKey false).add (if c = '*' then .alias name else .anchor name), m)
  else if c = '!' then
    let s ← s.noteKey m
    let t ← tagToken s.inFlow m.next cs
    return t.map fun (tag, m) => ((s.allowKey false).add tag, m)
  else if (c = '|' || c = '>') && !s.inFlow then
    let s ← s.dropKey
    let t ← blockScalar (c = '>') s.margin m.next cs
    let style := if c = '>' then .folded else .literal
    return t.map fun (text, m) => ((s.allowKey true).addScalar style text, m)
  else if c = '\'' || c = '"' then
    let s ← s.noteKey m
    let r ← if c = '"' then doubleFrom [] .empty m.next cs else singleFrom [] .empty m.next cs
    return (r.map fun (text, m) => ((s.allowKey false).addScalar .quoted text, m)).trailing
  else if startsPlain s.inFlow c cs then
    let s ← s.noteKey m
    let t ← plainFrom s.inFlow s.margin [c] .empty (m.past c) cs
    return t.map fun (text, broken, m) => ((s.allowKey broken).addScalar .plain text, m)
  else none

/-- The tokens of a text from a place on. At its end all block collections are closed. -/
def tokensFrom (s : Lexing) (m : Mark) (cs : List Char) : Option (List Token) :=
  let space := skipSpace s.inFlow s.keyAllowed m cs
  let m := space.value.2
  match (s.allowKey space.value.1).dropOldKeys m with
  | none => none
  | some s =>
    let s := s.close (m.column < ·)
    match _hr : space.rest with
    | [] => ((s.close fun _ => true).dropKey).map fun s => s.tokens.reverse
    | c :: cs' =>
      match s.token m c cs' with
      | none => none
      | some t => tokensFrom t.value.1 t.value.2 t.rest
termination_by cs.length
decreasing_by
  have h := space.bounded
  rw [_hr, List.length_cons] at h
  have := t.bounded
  omega

/-- The tokens of a text, or nothing where the text is not well formed. -/
def tokens? (text : String) : Option (List Token) :=
  let cs := text.toList
  if cs.all isPermitted then tokensFrom .start .start cs else none

end SchemaStack.Yaml
