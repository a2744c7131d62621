import SchemaStack.Json.Basic
import SchemaStack.Json.Text
import SchemaStack.Decimal.Shortest
/-!
# Numbers of JSON texts

Which number a numeral stands for, and how a number is written.

Whole numbers are exact between `-2^63` and `2^64 - 1`. Every other numeral is read as binary64:
as many leading digits as fit in 64 bits make an exact whole number, which is rounded once and
then scaled by a power of ten with one more rounding. So the result can differ from the nearest
number in its last place.
-/

namespace SchemaStack

namespace JsonNumeral

def digitValue (c : Char) : Nat := c.toNat - '0'.toNat

/-- The number that decimal digits are, after the digits of `n`. -/
def natOfDigits (n : Nat) (ds : List Char) : Nat :=
  ds.foldl (fun acc c => acc * 10 + digitValue c) n

/-- The digits that can be appended to `n` below `2 ^ 64`, and how many digits are left. -/
def takeDigits (n : Nat) : List Char → Nat × Nat
  | [] => (n, 0)
  | c :: cs =>
    if n * 10 + digitValue c < Nat.pow 2 64 then takeDigits (n * 10 + digitValue c) cs
    else (n, cs.length + 1)

/-- `x` divided by ten to the power `k`, in steps that a binary64 power of ten can express. -/
def scaleDown (x : Binary64) (k : Nat) : Binary64 :=
  if k ≤ 308 then x.div (.tenTo k)
  else if x.isZero then x
  else scaleDown (x.div (.tenTo 308)) (k - 308)
termination_by k

/-- `n · 10 ^ e`, or nothing where that is beyond the largest number. -/
def scale? (n : Nat) (e : Int) : Option Binary64 :=
  if e < 0 then some (scaleDown (.ofNat n) e.natAbs)
  else if 308 < e then if n = 0 then some (.ofNat 0) else none
  else
    let x := (Binary64.ofNat n).mul (.tenTo e.natAbs)
    if x.isInfinite then none else some x

/-- The exponent as written. Past `2 ^ 31 - 1` only its sign counts. -/
def exponentValue (negative : Bool) (ds : List Char) : Int :=
  let n := natOfDigits 0 ds
  if negative then -n else n

/-- The number that a numeral stands for, or nothing where it is out of range. -/
def number? (t : JsonNumeral) : Option JsonNumber :=
  let (n, left) := takeDigits 0 t.whole
  let signed (x : Binary64) : JsonNumber := .real (if t.negative then x.neg else x)
  if left = 0 ∧ t.fraction = [] ∧ t.exponent = none ∧ ¬(t.negative ∧ (n = 0 ∨ Nat.pow 2 63 < n)) then
    some (.whole (if t.negative then -n else n))
  else
    let (m, unread) := takeDigits n t.fraction
    let places : Int := (left : Int) - ((t.fraction.length : Int) - unread)
    let e := match t.exponent with
      | none => 0
      | some (s, ds) => exponentValue s ds
    (scale? m (places + e)).map signed

end JsonNumeral

namespace JsonNumber

/-- A number between `1e-5` and `1e16` is written without an exponent and always with a point;
others have one digit before the point and an exponent with its sign. Of two equally near
decimals it is the one whose last digit is even. -/
def realText (s : Bool) (m : Nat) (e : Int) : List Char :=
  let sign := if s then ['-'] else []
  if m = 0 then sign ++ ['0', '.', '0']
  else
    let d := Binary64.shortest .even m e
    if -5 ≤ d.order ∧ d.order < 16 then
      sign ++ d.split.1 ++ '.' :: (if d.split.2.isEmpty then ['0'] else d.split.2)
    else
      let mark := if d.order < 0 then ['e', '-'] else ['e', '+']
      let power := mark ++ Nat.toDigits 10 d.order.natAbs
      match d.digits with
      | [] => sign ++ power
      | c :: cs => sign ++ c :: (if cs.isEmpty then [] else '.' :: cs) ++ power

def text : JsonNumber → List Char
  | .whole n => (if n < 0 then ['-'] else []) ++ Nat.toDigits 10 n.natAbs
  | .real (.finite s m e) => realText s m e
  | .real (.infinite _) => ['n', 'u', 'l', 'l']

end JsonNumber

end SchemaStack
