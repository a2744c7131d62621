import SchemaStack.Text.Reading
/-!
# JSON texts

The grammar of JSON as a tree that keeps what is written: numbers digit by digit, repeated keys,
and escaped code units before any pairing of surrogates. Nesting is not limited here; limits
belong to those who read values out of a text.
-/

namespace SchemaStack

/-- A character of a string: itself, or the code unit of a `\u` escape. -/
inductive JsonUnit where
  | char (c : Char)
  | escaped (unit : Nat)
deriving DecidableEq, Repr

/-- A number as written. The digits before the point are never empty; a part that is present has
at least one digit. -/
structure JsonNumeral where
  negative : Bool
  whole : List Char
  fraction : List Char
  /-- Sign and digits of the exponent. -/
  exponent : Option (Bool × List Char)
deriving DecidableEq, Repr

inductive JsonText where
  | null
  | bool (b : Bool)
  | number (n : JsonNumeral)
  | string (units : List JsonUnit)
  | array (items : List JsonText)
  | object (members : List (List JsonUnit × JsonText))
deriving Repr, Inhabited

namespace JsonText

def isSpace (c : Char) : Bool := c == ' ' || c == '\n' || c == '\t' || c == '\r'

def isDigit (c : Char) : Bool := '0' ≤ c && c ≤ '9'

/-- The next character that is not white space. -/
def next? : (cs : List Char) → Option (Reading Char cs)
  | [] => none
  | c :: cs => if isSpace c then (next? cs).map .cons else some (.head c c cs)

def hexValue? (c : Char) : Option Nat :=
  if '0' ≤ c ∧ c ≤ '9' then some (c.toNat - '0'.toNat)
  else if 'a' ≤ c ∧ c ≤ 'f' then some (c.toNat - 'a'.toNat + 10)
  else if 'A' ≤ c ∧ c ≤ 'F' then some (c.toNat - 'A'.toNat + 10)
  else none

def hex4? (a b c d : Char) : Option Nat := do
  let a ← hexValue? a
  let b ← hexValue? b
  let c ← hexValue? c
  let d ← hexValue? d
  return ((a * 16 + b) * 16 + c) * 16 + d

/-- The character that a one-letter escape stands for. -/
def simpleEscape? : Char → Option Char
  | '"' => some '"'
  | '\\' => some '\\'
  | '/' => some '/'
  | 'b' => some '\x08'
  | 'f' => some '\x0c'
  | 'n' => some '\n'
  | 'r' => some '\r'
  | 't' => some '\t'
  | _ => none

/-- The units up to the closing quote. A raw control character is an error. -/
def stringBody : (cs : List Char) → Option (Reading (List JsonUnit) cs)
  | [] => none
  | '"' :: rest => some (.head [] '"' rest)
  | '\\' :: 'u' :: a :: b :: c :: d :: rest => do
    let n ← hex4? a b c d
    let r ← stringBody rest
    return (r.map (.escaped n :: ·)).cons.cons.cons.cons.cons.cons
  | '\\' :: e :: rest => do
    let c ← simpleEscape? e
    let r ← stringBody rest
    return (r.map (.char c :: ·)).cons.cons
  | c :: rest =>
    if c.toNat < 0x20 || c == '\\' then none
    else (stringBody rest).map fun r => (r.map (.char c :: ·)).cons

/-- A point with at least one digit after it, or no fraction at all. -/
def fractionPart : List Char → Option (List Char × List Char)
  | '.' :: rest =>
    if (rest.takeWhile isDigit).isEmpty then none
    else some (rest.takeWhile isDigit, rest.dropWhile isDigit)
  | rest => some ([], rest)

/-- The digits of an exponent whose sign has been read. -/
def exponentDigits (negative : Bool) (cs : List Char) :
    Option (Option (Bool × List Char) × List Char) :=
  if (cs.takeWhile isDigit).isEmpty then none
  else some (some (negative, cs.takeWhile isDigit), cs.dropWhile isDigit)

def exponentSign : List Char → Option (Option (Bool × List Char) × List Char)
  | '+' :: rest => exponentDigits false rest
  | '-' :: rest => exponentDigits true rest
  | rest => exponentDigits false rest

/-- An exponent with at least one digit, or none at all. -/
def exponentPart : List Char → Option (Option (Bool × List Char) × List Char)
  | 'e' :: rest => exponentSign rest
  | 'E' :: rest => exponentSign rest
  | rest => some (none, rest)

theorem length_dropWhile_le {α : Type} (p : α → Bool) (l : List α) :
    (l.dropWhile p).length ≤ l.length :=
  List.Sublist.length_le (List.dropWhile_sublist p)

theorem length_fractionPart_le {cs : List Char} {r : List Char × List Char}
    (h : fractionPart cs = some r) : r.2.length ≤ cs.length := by
  unfold fractionPart at h
  split at h
  · next tail =>
    have := length_dropWhile_le isDigit tail
    split at h
    · simp at h
    · simp only [Option.some.injEq] at h
      simp only [List.length_cons, ← h]
      omega
  · simp only [Option.some.injEq] at h
    simp [← h]

theorem length_exponentDigits_le {negative : Bool} {cs : List Char}
    {r : Option (Bool × List Char) × List Char}
    (h : exponentDigits negative cs = some r) : r.2.length ≤ cs.length := by
  have := length_dropWhile_le isDigit cs
  unfold exponentDigits at h
  split at h
  · simp at h
  · simp only [Option.some.injEq] at h
    simpa [← h] using this

theorem length_exponentSign_le {cs : List Char} {r : Option (Bool × List Char) × List Char}
    (h : exponentSign cs = some r) : r.2.length ≤ cs.length := by
  unfold exponentSign at h
  split at h
  · exact Nat.le_succ_of_le (length_exponentDigits_le h)
  · exact Nat.le_succ_of_le (length_exponentDigits_le h)
  · exact length_exponentDigits_le h

theorem length_exponentPart_le {cs : List Char} {r : Option (Bool × List Char) × List Char}
    (h : exponentPart cs = some r) : r.2.length ≤ cs.length := by
  unfold exponentPart at h
  split at h
  · exact Nat.le_succ_of_le (length_exponentSign_le h)
  · exact Nat.le_succ_of_le (length_exponentSign_le h)
  · simp only [Option.some.injEq] at h
    simp [← h]

theorem length_after_digit {c : Char} {cs : List Char} (h : isDigit c = true) :
    ((c :: cs).dropWhile isDigit).length < (c :: cs).length := by
  have := length_dropWhile_le isDigit cs
  simp only [List.dropWhile_cons, h, if_true, List.length_cons]
  omega

/-- A number without its sign. Only the number zero starts with a zero. -/
def unsignedNumeral (negative : Bool) : (cs : List Char) → Option (Reading JsonNumeral cs)
  | [] => none
  | c :: cs =>
    if hd : isDigit c then
      if c = '0' ∧ (cs.head?.any isDigit) then none
      else
        match hf : fractionPart ((c :: cs).dropWhile isDigit) with
        | none => none
        | some f =>
          match he : exponentPart f.2 with
          | none => none
          | some e =>
            some ⟨⟨negative, (c :: cs).takeWhile isDigit, f.1, e.1⟩, e.2,
              Nat.lt_of_le_of_lt (length_exponentPart_le he)
                (Nat.lt_of_le_of_lt (length_fractionPart_le hf) (length_after_digit hd))⟩
    else none

def numeral : (cs : List Char) → Option (Reading JsonNumeral cs)
  | [] => none
  | c :: cs =>
    if c = '-' then (unsignedNumeral true cs).map .cons else unsignedNumeral false (c :: cs)

/-- A literal word at the very front. -/
def word (v : JsonText) : (w cs : List Char) → Option (Reading JsonText cs)
  | [], _ => none
  | [a], c :: cs => if a = c then some (.head v c cs) else none
  | a :: w, c :: cs => if a = c then (word v w cs).map .cons else none
  | _ :: _, [] => none

/-- A word or a number, after any white space. -/
def scalar : (cs : List Char) → Option (Reading JsonText cs)
  | [] => none
  | c :: cs =>
    if isSpace c then (scalar cs).map .cons
    else if c = 'n' then word .null ['n', 'u', 'l', 'l'] (c :: cs)
    else if c = 't' then word (.bool true) ['t', 'r', 'u', 'e'] (c :: cs)
    else if c = 'f' then word (.bool false) ['f', 'a', 'l', 's', 'e'] (c :: cs)
    else (numeral (c :: cs)).map (.map .number)

mutual

/-- One value, after any white space. -/
def value (cs : List Char) : Option (Reading JsonText cs) :=
  match next? cs with
  | none => none
  | some r =>
    if r.value = '{' then
      match next? r.rest with
      | none => none
      | some q =>
        if q.value = '}' then some (r.after (q.map fun _ => .object []))
        else if q.value = '"' then
          (members q.rest).map fun ms => r.after (q.after (ms.map .object))
        else none
    else if r.value = '[' then
      match next? r.rest with
      | none => none
      | some q =>
        if q.value = ']' then some (r.after (q.map fun _ => .array []))
        else (elements r.rest).map fun es => r.after (es.map .array)
    else if r.value = '"' then (stringBody r.rest).map fun s => r.after (s.map .string)
    else scalar cs
termination_by (cs.length, 0)
decreasing_by
  · exact Prod.Lex.left _ _ (Nat.lt_trans q.shorter r.shorter)
  · exact Prod.Lex.left _ _ r.shorter

/-- One item or more, up to the closing bracket. -/
def elements (cs : List Char) : Option (Reading (List JsonText) cs) :=
  match value cs with
  | none => none
  | some v =>
    match next? v.rest with
    | none => none
    | some q =>
      if q.value = ']' then some (v.after (q.map fun _ => [v.value]))
      else if q.value = ',' then
        (elements q.rest).map fun es => v.after (q.after (es.map (v.value :: ·)))
      else none
termination_by (cs.length, 1)
decreasing_by
  · exact Prod.Lex.right _ (by decide)
  · exact Prod.Lex.left _ _ (Nat.lt_trans q.shorter v.shorter)

/-- One member or more, from inside the first key to the closing brace. -/
def members (cs : List Char) : Option (Reading (List (List JsonUnit × JsonText)) cs) :=
  match stringBody cs with
  | none => none
  | some k =>
    match next? k.rest with
    | none => none
    | some p =>
      if p.value = ':' then
        match value p.rest with
        | none => none
        | some v =>
          match next? v.rest with
          | none => none
          | some q =>
            if q.value = '}' then
              some (k.after (p.after (v.after (q.map fun _ => [(k.value, v.value)]))))
            else if q.value = ',' then
              match next? q.rest with
              | none => none
              | some o =>
                if o.value = '"' then
                  (members o.rest).map fun ms =>
                    k.after (p.after (v.after (q.after
                      (o.after (ms.map ((k.value, v.value) :: ·))))))
                else none
            else none
      else none
termination_by (cs.length, 0)
decreasing_by
  · exact Prod.Lex.left _ _ (Nat.lt_trans p.shorter k.shorter)
  · exact Prod.Lex.left _ _ (Nat.lt_trans o.shorter (Nat.lt_trans q.shorter
      (Nat.lt_trans v.shorter (Nat.lt_trans p.shorter k.shorter))))

end

/-- A whole text: one value with nothing but white space around it. -/
def parse? (cs : List Char) : Option JsonText :=
  (value cs).bind fun r => if r.rest.all isSpace then some r.value else none

end JsonText

end SchemaStack
