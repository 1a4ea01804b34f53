import Dashboard.Double.Round

/-!
# Decimals: reading, and the shortest that reads back

A decimal is `digits · 10^exponent`.  Reading it gives the nearest number.
`shortest` goes the other way: it takes the fewest digits for which one of the
two neighbours of the number on that decimal grid reads back as the number,
and of two such neighbours the nearer one.  Only an exact tie between them is
left to the format that writes the digits.
-/

namespace Dashboard

/-- The decimal `digits · 10^exponent`. -/
structure Decimal where
  digits : Nat
  exponent : Int
deriving DecidableEq, Repr

namespace Decimal

/-- How many decimal digits a natural number is written with. -/
def digitCount (n : Nat) : Nat :=
  (Nat.toDigits 10 n).length

/-- Numerator and denominator of a decimal. -/
def ratio (d : Decimal) : Nat × Nat :=
  if d.exponent < 0 then (d.digits, Nat.pow 10 d.exponent.natAbs)
  else (d.digits * Nat.pow 10 d.exponent.natAbs, 1)

/-- The nearest number.  Decimals far outside the range are settled by their
size alone. -/
def toDouble (d : Decimal) : Double :=
  if d.digits = 0 then .zero
  else if 400 < d.exponent + digitCount d.digits then .infinity false
  else if d.exponent + digitCount d.digits < -400 then .zero
  else Double.ofRatio d.ratio.1 d.ratio.2

/-- The decimal without trailing zeros among its digits. -/
def stripZeros : Nat → Decimal → Decimal
  | 0, d => d
  | fuel + 1, d =>
    if d.digits % 10 = 0 then stripZeros fuel ⟨d.digits / 10, d.exponent + 1⟩ else d

/-- The decimal with as few digits as its value needs. -/
def normalize (d : Decimal) : Decimal :=
  if d.digits = 0 then ⟨0, 0⟩ else stripZeros (digitCount d.digits) d

end Decimal

namespace Double

/-- Which of two equally near decimals is written. -/
inductive Tie where
  | up
  | even
deriving DecidableEq, Repr

/-- The exponent of the leading decimal digit of the positive fraction `n / d`. -/
def leadingExponent (n d : Nat) : Int :=
  if d ≤ n then Decimal.digitCount (n / d) - 1
  else -(Decimal.digitCount ((d + n - 1) / n - 1) : Int)

/-- The nearer of two neighbours on a decimal grid, where `r / d` is the
distance from the lower one in steps of the grid. -/
def nearer (tie : Tie) (low high : Decimal) (r d : Nat) : Decimal :=
  if 2 * r < d then low
  else if d < 2 * r then high
  else match tie with
    | .up => high
    | .even => if low.digits % 2 = 0 then low else high

/-- The decimal of at most `p` digits that is written for `x = n / d`, if one of
the two neighbours of `x` reads back. -/
def decimalOf? (tie : Tie) (x : Double) (n d : Nat) (p : Nat) : Option Decimal :=
  let e := leadingExponent n d + 1 - p
  let n' := if e < 0 then n * Nat.pow 10 e.natAbs else n
  let d' := if e < 0 then d else d * Nat.pow 10 e.natAbs
  let low : Decimal := ⟨n' / d', e⟩
  let high : Decimal := ⟨n' / d' + 1, e⟩
  match decide (low.toDouble = x), decide (high.toDouble = x) with
  | true, true => some (nearer tie low high (n' % d') d')
  | true, false => some low
  | false, true => some high
  | false, false => none

/-- The finite magnitude `m · 2^k` written out exactly. -/
def exactDecimal (m k : Nat) : Decimal :=
  ⟨units m k * Nat.pow 5 leastPlaces, -leastPlaces⟩

/-- The shortest decimal that reads back as the finite magnitude `m · 2^k`. -/
def shortest (tie : Tie) (m k : Nat) (h : Canonical m k) : Decimal :=
  if m = 0 then ⟨0, 0⟩
  else
    let x : Double := .finite false m k h
    let found := (List.range 17).findSome? fun i =>
      decimalOf? tie x (units m k) unitsInOne (i + 1)
    (found.getD (exactDecimal m k)).normalize

end Double

end Dashboard
