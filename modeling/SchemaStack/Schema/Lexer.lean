import SchemaStack.Fault
import SchemaStack.Text.Reading
/-!
# From text to tokens

White space, commas and byte-order marks separate tokens and are dropped, and so is a comment up
to the end of its line. A string in three quotes is taken as it stands; a string in single quotes
ends on its line and has five escapes. The line of a token counts the newlines before it.
-/

namespace SchemaStack.Lexer

open Text (isBlank)

def isSeparator (c : Char) : Bool := isBlank c || c == ',' || c == '\uFEFF'

def punctuation : List Char := ['{', '}', '(', ')', '[', ']', ':', '!', '@', '=', '|', '&']

def isDigit (c : Char) : Bool := '0' ≤ c && c ≤ '9'

def isLetter (c : Char) : Bool := ('a' ≤ c && c ≤ 'z') || ('A' ≤ c && c ≤ 'Z')

def startsName (c : Char) : Bool := c == '_' || isLetter c

def continuesName (c : Char) : Bool := c == '_' || isLetter c || isDigit c

def startsNumber (c : Char) : Bool := c == '-' || isDigit c

def continuesNumber (c : Char) : Bool := c == '.' || isDigit c

/-- The characters of a block string up to its closing quotes. -/
def blockBody : (cs : List Char) → Option (Reading (List Char) cs)
  | [] => none
  | '"' :: '"' :: '"' :: rest => some (Reading.head [] '"' rest).cons.cons
  | c :: rest => (blockBody rest).map fun r => (r.map (c :: ·)).cons

def escape? : Char → Option Char
  | 'n' => some '\n'
  | 't' => some '\t'
  | '"' => some '"'
  | '\\' => some '\\'
  | '/' => some '/'
  | _ => none

/-- The characters of a string on one line, escapes resolved, up to its closing quote. -/
def lineBody : (cs : List Char) → Except LexicalFault (Reading (List Char) cs)
  | [] => .error .unterminatedString
  | '"' :: rest => .ok (.head [] '"' rest)
  | ['\\'] => .error (.invalidEscape none)
  | '\\' :: e :: rest =>
    match escape? e with
    | none => .error (.invalidEscape (some e))
    | some c => (lineBody rest).map fun r => (r.map (c :: ·)).cons.cons
  | c :: rest =>
    if c = '\n' then .error .unterminatedString
    else (lineBody rest).map fun r => (r.map (c :: ·)).cons

/-- What follows an opening quote: the text, and the number of newlines in it. -/
def quoted : (cs : List Char) → Except LexicalFault (Reading (List Char × Nat) cs)
  | '"' :: '"' :: rest =>
    match blockBody rest with
    | none => .error .unterminatedBlockString
    | some r => .ok (r.map fun s => (s, s.count '\n')).cons.cons
  | cs => (lineBody cs).map (.map fun s => (s, 0))

def digitsValue (ds : List Char) : Nat :=
  ds.foldl (fun n c => n * 10 + (c.toNat - '0'.toNat)) 0

/-- A number with a point: digits on at least one side of it, and no second point. -/
def float? (negative : Bool) (cs : List Char) : Option Token :=
  let whole := cs.takeWhile (· ≠ '.')
  let places := (cs.dropWhile (· ≠ '.')).drop 1
  if places.contains '.' || (whole.isEmpty && places.isEmpty) then none
  else some (.float (.ofDecimal negative (digitsValue (whole ++ places)) places.length))

/-- A number without a point: at least one digit, within 64 bits. -/
def int? (negative : Bool) (cs : List Char) : Option Token :=
  let n : Int := if negative then -digitsValue cs else digitsValue cs
  let bound : Int := Nat.pow 2 63
  if cs.isEmpty || n < -bound || bound ≤ n then none else some (.int n)

def number? (text : List Char) : Option Token :=
  let (negative, digits) := match text with
    | '-' :: ds => (true, ds)
    | ds => (false, ds)
  if digits.contains '.' then float? negative digits else int? negative digits

theorem length_dropWhile_le (p : Char → Bool) (cs : List Char) :
    (cs.dropWhile p).length ≤ cs.length :=
  List.Sublist.length_le (List.dropWhile_sublist p)

/-- The tokens of a text whose first character is on the given line. -/
def tokensFrom (line : Nat) (cs : List Char) : Except SchemaError (List Lexeme) :=
  match cs with
  | [] => .ok []
  | c :: cs =>
    if c = '\n' then tokensFrom (line + 1) cs
    else if isSeparator c then tokensFrom line cs
    else if c = '#' then tokensFrom line (cs.dropWhile (· ≠ '\n'))
    else if punctuation.contains c then
      (tokensFrom line cs).map (⟨.punct c, line⟩ :: ·)
    else if c = '"' then
      match quoted cs with
      | .error f => .error ((Fault.lexical f).onLine line)
      | .ok r =>
        (tokensFrom (line + r.value.2) r.rest).map
          (⟨.string (String.ofList r.value.1), line⟩ :: ·)
    else if startsNumber c then
      let text := c :: cs.takeWhile continuesNumber
      match number? text with
      | none => .error ((Fault.lexical (.invalidNumber (String.ofList text))).onLine line)
      | some t => (tokensFrom line (cs.dropWhile continuesNumber)).map (⟨t, line⟩ :: ·)
    else if startsName c then
      let text := c :: cs.takeWhile continuesName
      (tokensFrom line (cs.dropWhile continuesName)).map
        (⟨.name (String.ofList text), line⟩ :: ·)
    else .error ((Fault.lexical (.unexpectedCharacter c)).onLine line)
termination_by cs.length
decreasing_by
  all_goals simp only [List.length_cons]
  · exact Nat.lt_succ_self _
  · exact Nat.lt_succ_self _
  · exact Nat.lt_succ_of_le (length_dropWhile_le _ _)
  · exact Nat.lt_succ_self _
  · exact Nat.lt_succ_of_lt r.shorter
  · exact Nat.lt_succ_of_le (length_dropWhile_le _ _)
  · exact Nat.lt_succ_of_le (length_dropWhile_le _ _)

def tokens (text : String) : Except SchemaError (List Lexeme) := tokensFrom 1 text.toList

end SchemaStack.Lexer
