import SchemaStack.Json.Number
/-!
# Writing JSON values

The compact form, and the indented form in which every item and member stands on a line of its
own, four spaces deeper than its container; empty containers stay on one line.
-/

namespace SchemaStack.Json

/-- A code point below `0x20` as two hexadecimal digits. -/
def controlDigits (n : Nat) : List Char := [Nat.digitChar (n / 16), Nat.digitChar (n % 16)]

def escapeChar (c : Char) : List Char :=
  if c = '"' then ['\\', '"']
  else if c = '\\' then ['\\', '\\']
  else if c = '\x08' then ['\\', 'b']
  else if c = '\x0c' then ['\\', 'f']
  else if c = '\n' then ['\\', 'n']
  else if c = '\r' then ['\\', 'r']
  else if c = '\t' then ['\\', 't']
  else if c.toNat < 0x20 then ['\\', 'u', '0', '0'] ++ controlDigits c.toNat
  else [c]

/-- A string literal with its quotes. -/
def quote (s : String) : List Char := '"' :: (s.toList.flatMap escapeChar ++ ['"'])

mutual

def compactChars : Json → List Char
  | .null => ['n', 'u', 'l', 'l']
  | .bool true => ['t', 'r', 'u', 'e']
  | .bool false => ['f', 'a', 'l', 's', 'e']
  | .number n => n.text
  | .string s => quote s
  | .array items => '[' :: (compactItems true items ++ [']'])
  | .object members => '{' :: (compactMembers true members ++ ['}'])

def compactItems (first : Bool) : List Json → List Char
  | [] => []
  | v :: vs => (if first then [] else [',']) ++ compactChars v ++ compactItems false vs

def compactMembers (first : Bool) : List (String × Json) → List Char
  | [] => []
  | (k, v) :: ms =>
    (if first then [] else [',']) ++ quote k ++ ':' :: compactChars v ++ compactMembers false ms

end

def compact (j : Json) : String := String.ofList (compactChars j)

def newline (level : Nat) : List Char := '\n' :: List.replicate (4 * level) ' '

mutual

/-- The indented form of a value whose line starts `level` steps in. -/
def prettyChars (level : Nat) : Json → List Char
  | .null => ['n', 'u', 'l', 'l']
  | .bool true => ['t', 'r', 'u', 'e']
  | .bool false => ['f', 'a', 'l', 's', 'e']
  | .number n => n.text
  | .string s => quote s
  | .array [] => ['[', ']']
  | .array (v :: vs) =>
    '[' :: (newline (level + 1) ++ prettyChars (level + 1) v ++
      prettyItems (level + 1) vs ++ newline level ++ [']'])
  | .object [] => ['{', '}']
  | .object ((k, v) :: ms) =>
    '{' :: (newline (level + 1) ++ quote k ++ [':', ' '] ++ prettyChars (level + 1) v ++
      prettyMembers (level + 1) ms ++ newline level ++ ['}'])

/-- The items after the first. -/
def prettyItems (level : Nat) : List Json → List Char
  | [] => []
  | v :: vs => ',' :: (newline level ++ prettyChars level v ++ prettyItems level vs)

/-- The members after the first. -/
def prettyMembers (level : Nat) : List (String × Json) → List Char
  | [] => []
  | (k, v) :: ms =>
    ',' :: (newline level ++ quote k ++ [':', ' '] ++ prettyChars level v ++
      prettyMembers level ms)

end

def pretty (j : Json) : String := String.ofList (prettyChars 0 j)

end SchemaStack.Json
