import SchemaStack.Json.Number
/-!
# Reading JSON values

From the tree of a text to the value it stands for. Surrogates have to come in pairs, numbers
have to be in range, and arrays and objects nest at most 127 deep. A repeated key keeps its first
position and its last value.
-/

namespace SchemaStack

def JsonText.maxDepth : Nat := 127

namespace JsonText

def isHighSurrogate (n : Nat) : Bool := 0xD800 ≤ n && n ≤ 0xDBFF
def isLowSurrogate (n : Nat) : Bool := 0xDC00 ≤ n && n ≤ 0xDFFF

/-- The characters of a string, or nothing where a surrogate stands alone. -/
def chars? : List JsonUnit → Option (List Char)
  | [] => some []
  | .char c :: us => (chars? us).map (c :: ·)
  | .escaped n :: us =>
    if isLowSurrogate n then none
    else if isHighSurrogate n then
      match us with
      | .escaped m :: us' =>
        if isLowSurrogate m then
          (chars? us').map (Char.ofNat (0x10000 + (n - 0xD800) * 0x400 + (m - 0xDC00)) :: ·)
        else none
      | _ => none
    else (chars? us).map (Char.ofNat n :: ·)

def string? (us : List JsonUnit) : Option String := (chars? us).map String.ofList

mutual

/-- The value of a text whose arrays and objects nest at most `depth` deep. -/
def json? (depth : Nat) : JsonText → Option Json
  | .null => some .null
  | .bool b => some (.bool b)
  | .number n => n.number?.map .number
  | .string us => (string? us).map .string
  | .array items => if depth = 0 then none else (jsonItems? (depth - 1) items).map .array
  | .object members =>
    if depth = 0 then none
    else (jsonMembers? (depth - 1) members).map fun ms => .object (Entries.ofList ms)

def jsonItems? (depth : Nat) : List JsonText → Option (List Json)
  | [] => some []
  | t :: ts => do
    let v ← json? depth t
    let vs ← jsonItems? depth ts
    return v :: vs

/-- The members as they stand, before repeated keys are merged. -/
def jsonMembers? (depth : Nat) :
    List (List JsonUnit × JsonText) → Option (List (String × Json))
  | [] => some []
  | (k, t) :: ts => do
    let k ← string? k
    let v ← json? depth t
    let vs ← jsonMembers? depth ts
    return (k, v) :: vs

end

end JsonText

def Json.parse? (text : String) : Option Json :=
  (JsonText.parse? text.toList).bind (JsonText.json? JsonText.maxDepth)

end SchemaStack
