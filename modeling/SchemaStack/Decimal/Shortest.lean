import SchemaStack.Decimal.Binary64
/-!
# Shortest decimals

The decimal with the fewest digits that reads back as a given binary64 number, the nearest one
where several have that many digits, and its positional written form. Two decimals may be equally
near; who writes the number says which of them it is.
-/

namespace SchemaStack

/-- The value `coefficient · 10 ^ exponent`. -/
structure Decimal where
  coefficient : Nat
  exponent : Int
deriving DecidableEq, Repr, Inhabited

namespace Decimal

/-- The same value with up to `fuel` trailing zeros of the coefficient moved to the exponent. -/
def trim : (fuel : Nat) → Decimal → Decimal
  | 0, d => d
  | fuel + 1, d =>
    if d.coefficient ≠ 0 ∧ d.coefficient % 10 = 0
    then trim fuel ⟨d.coefficient / 10, d.exponent + 1⟩
    else d

def digits (d : Decimal) : List Char := Nat.toDigits 10 d.coefficient

/-- The exponent of the leading digit. -/
def order (d : Decimal) : Int := d.exponent + (d.digits.length : Int) - 1

/-- Digits before the point, and digits after it, none of them where the value is whole. -/
def split (d : Decimal) : List Char × List Char :=
  let ds := d.digits
  if 0 ≤ d.exponent then (ds ++ List.replicate d.exponent.toNat '0', [])
  else
    let places := (-d.exponent).toNat
    if places < ds.length then (ds.take (ds.length - places), ds.drop (ds.length - places))
    else (['0'], List.replicate (places - ds.length) '0' ++ ds)

end Decimal

/-- Which of two equally near neighbours a number goes to. -/
inductive Tie where
  | even
  | away
deriving DecidableEq, Repr, Inhabited

/-- The quotient to the nearest whole number. -/
def Tie.round : Tie → (num den : Nat) → Nat
  | .even, num, den => Binary64.roundHalfEven num den
  | .away, num, den => (2 * num + den) / (2 * den)

namespace Binary64

/-- The reals that round to a number, in quarters of its last place: the number itself, both
ends, and whether the ends belong. -/
structure Interval where
  low : Nat
  middle : Nat
  high : Nat
  closed : Bool

/-- The interval of `m · 2 ^ e`. The next number below a power of two is half as far away. -/
def interval (m : Nat) (e : Int) : Interval where
  low := if m = Nat.pow 2 52 ∧ minExponent < e then 4 * m - 1 else 4 * m - 2
  middle := 4 * m
  high := 4 * m + 2
  closed := m % 2 == 0

/-- The least `p` with `m · 2 ^ e < 10 ^ p`, for a positive `m`. -/
def decimalPoint (m : Nat) (e : Int) : Int :=
  let p := Int.fdiv (((Nat.log2 m : Int) + e) * 30103) 100000
  let below (p : Int) : Bool :=
    m * powPart 2 e * powPart 10 (-p) < powPart 10 p * powPart 2 (-e)
  if below p then p else if below (p + 1) then p + 1 else p + 2

/-- The multiple of `10 ^ k` nearest to `m · 2 ^ e` among those that round to it. -/
def onGrid? (tie : Tie) (m : Nat) (e k : Int) : Option Nat :=
  let i := interval m e
  let point (n : Nat) : Nat := n * powPart 2 (e - 2) * powPart 10 (-k)
  let grid (c : Nat) : Nat := c * powPart 10 k * powPart 2 (2 - e)
  let inside (c : Nat) : Bool :=
    if i.closed then point i.low ≤ grid c && grid c ≤ point i.high
    else point i.low < grid c && grid c < point i.high
  let c := point i.middle / grid 1
  [tie.round (point i.middle) (grid 1), c, c + 1].find? inside

/-- Seventeen digits always suffice, so the search over `1, 2, … 17` digits ends with a hit. -/
def shortest (tie : Tie) (m : Nat) (e : Int) : Decimal :=
  let p := decimalPoint m e
  let hit := (List.range 17).findSome? fun (n : Nat) =>
    let k := p - ((n : Int) + 1)
    (onGrid? tie m e k).map fun c => Decimal.trim 20 ⟨c, k⟩
  hit.getD ⟨0, 0⟩

/-- Positional text without an exponent, and without a point where the value is whole. Of two
equally near decimals it is the one farther from zero. -/
def positional : Binary64 → List Char
  | .infinite s => (if s then ['-'] else []) ++ ['i', 'n', 'f']
  | .finite s m e =>
    let (whole, places) := if m = 0 then (['0'], []) else (shortest .away m e).split
    (if s then ['-'] else []) ++ whole ++ (if places.isEmpty then [] else '.' :: places)

end Binary64

end SchemaStack
