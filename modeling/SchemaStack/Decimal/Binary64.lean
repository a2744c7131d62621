/-!
# Binary64 numbers

Double-precision numbers as exact values, with the one rounding that every operation on them
ends in. There is no NaN: no operation of this module makes one.
-/

namespace SchemaStack

/-- A finite number is `± significand · 2 ^ exponent`. The numbers that `ofRatio` builds have
`exponent ≥ minExponent`, and a significand below `2 ^ 53` that has all 53 bits unless the
exponent is the least one. -/
inductive Binary64 where
  | finite (negative : Bool) (significand : Nat) (exponent : Int)
  | infinite (negative : Bool)
deriving DecidableEq, Repr, Inhabited

namespace Binary64

def minExponent : Int := -1074
def maxExponent : Int := 971

/-- The quotient to the nearest whole number, a half to the even neighbour. -/
def roundHalfEven (num den : Nat) : Nat :=
  let q := num / den
  let r := num % den
  if 2 * r < den then q else if den < 2 * r then q + 1 else q + q % 2

/-- `2 ^ e` for a non-negative exponent, and one for a negative exponent. -/
def powPart (base : Nat) (e : Int) : Nat := Nat.pow base e.toNat

/-- The greatest `l` with `2 ^ l ≤ num / den`. -/
def floorLog2 (num den : Nat) : Int :=
  let l : Int := (Nat.log2 num : Int) - (Nat.log2 den : Int)
  if den * powPart 2 l ≤ num * powPart 2 (-l) then l else l - 1

/-- The number nearest to `± num / den`. -/
def ofRatio (negative : Bool) (num den : Nat) : Binary64 :=
  if num = 0 then .finite negative 0 minExponent
  else
    let e := max (floorLog2 num den - 52) minExponent
    let q := roundHalfEven (num * powPart 2 (-e)) (den * powPart 2 e)
    let (q, e) := if q = Nat.pow 2 53 then (Nat.pow 2 52, e + 1) else (q, e)
    if maxExponent < e then .infinite negative else .finite negative q e

def ofNat (n : Nat) : Binary64 := ofRatio false n 1

/-- The number nearest to ten to the power `k`. -/
def tenTo (k : Nat) : Binary64 := ofNat (Nat.pow 10 k)

def neg : Binary64 → Binary64
  | .finite s m e => .finite (!s) m e
  | .infinite s => .infinite (!s)

def isZero : Binary64 → Bool
  | .finite _ m _ => m == 0
  | .infinite _ => false

def isInfinite : Binary64 → Bool
  | .finite .. => false
  | .infinite _ => true

/-- The product of finite numbers, rounded once. -/
def mul : Binary64 → Binary64 → Binary64
  | .finite s m e, .finite t n f =>
    ofRatio (s != t) (m * n * powPart 2 (e + f)) (powPart 2 (-(e + f)))
  | .finite s _ _, .infinite t => .infinite (s != t)
  | .infinite s, .finite t _ _ => .infinite (s != t)
  | .infinite s, .infinite t => .infinite (s != t)

/-- The quotient of finite numbers with a non-zero divisor, rounded once. -/
def div : Binary64 → Binary64 → Binary64
  | .finite s m e, .finite t n f =>
    ofRatio (s != t) (m * powPart 2 (e - f)) (n * powPart 2 (f - e))
  | .finite s _ _, .infinite t => .finite (s != t) 0 minExponent
  | .infinite s, .finite t _ _ => .infinite (s != t)
  | .infinite s, .infinite t => .infinite (s != t)

/-- The number nearest to the decimal `± digits · 10 ^ (-places)`. -/
def ofDecimal (negative : Bool) (digits places : Nat) : Binary64 :=
  ofRatio negative digits (Nat.pow 10 places)

end Binary64

end SchemaStack
