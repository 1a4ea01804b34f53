import Dashboard.Double.Decimal

/-!
# Numbers as text

Two formats write the same shortest digits: one always positionally, the
other with an exponent for very large and very small numbers.  Reading takes
digits with an optional point and an optional exponent.
-/

namespace Dashboard.Double

/-- How the shortest digits of a number are laid out. -/
structure Layout where
  /-- Which of two equally near decimals is written. -/
  tie : Tie
  /-- Exponents of the leading digit that are written positionally; without
  bounds all are. -/
  positional : Option (Int × Int)

/-- Numbers in configuration files are written positionally whatever their
size; of two equally near decimals the larger is taken. -/
def plainLayout : Layout :=
  ⟨.up, none⟩

/-- Numbers in JSON get an exponent outside `10^-5 … 10^16`; of two equally near
decimals the one with the even last digit is taken. -/
def jsonLayout : Layout :=
  ⟨.even, some (-5, 16)⟩

/-- The digits with a point, and at least one digit on both sides of it. -/
def positionalText (digits : List Char) (exponent : Int) : List Char :=
  if 0 ≤ exponent then
    digits ++ List.replicate exponent.natAbs '0' ++ ['.', '0']
  else
    let places := exponent.natAbs
    if places < digits.length then
      digits.take (digits.length - places) ++ '.' :: digits.drop (digits.length - places)
    else
      '0' :: '.' :: (List.replicate (places - digits.length) '0' ++ digits)

/-- One digit before the point and a signed exponent. -/
def scientificText (digits : List Char) (leading : Int) : List Char :=
  let rest := digits.drop 1
  digits.take 1 ++ (if rest.isEmpty then [] else '.' :: rest) ++
    'e' :: (if leading < 0 then '-' else '+') :: Nat.toDigits 10 leading.natAbs

/-- The text of a decimal in a layout. -/
def decimalText (layout : Layout) (d : Decimal) : List Char :=
  let digits := Nat.toDigits 10 d.digits
  let leading : Int := d.exponent + digits.length - 1
  match layout.positional with
  | none => positionalText digits d.exponent
  | some (low, high) =>
    if low ≤ leading ∧ leading < high then positionalText digits d.exponent
    else scientificText digits leading

/-- The text of a finite number in a layout. -/
def finiteText (layout : Layout) (negative : Bool) (m k : Nat) (h : Canonical m k) :
    List Char :=
  (if negative then ['-'] else []) ++ decimalText layout (shortest layout.tie m k h)

/-- The decimal digits at the start of a text, as a number on top of `n`, how
many there were, and the rest. -/
def readDigits (n count : Nat) : List Char → Nat × Nat × List Char
  | [] => (n, count, [])
  | c :: cs =>
    if c.isDigit then readDigits (n * 10 + (c.toNat - 48)) (count + 1) cs
    else (n, count, c :: cs)

/-- The exponent part of a number; a text without one has exponent zero. -/
def readExponent? : List Char → Option Int
  | [] => some 0
  | c :: cs =>
    if c == 'e' || c == 'E' then
      let (negative, cs) : Bool × List Char := match cs with
        | '-' :: rest => (true, rest)
        | '+' :: rest => (false, rest)
        | rest => (false, rest)
      match readDigits 0 0 cs with
      | (n, _ + 1, []) => some (if negative then -(n : Int) else n)
      | _ => none
    else none

/-- Digits with an optional point and an optional exponent; at least one digit
stands before or after the point. -/
def readDecimal? (cs : List Char) : Option Decimal :=
  match readDigits 0 0 cs with
  | (whole, wholeCount, '.' :: rest) =>
    match readDigits whole 0 rest with
    | (digits, places, rest) =>
      if wholeCount + places = 0 then none
      else (readExponent? rest).map fun e => ⟨digits, e - places⟩
  | (digits, count, rest) =>
    if count = 0 then none
    else (readExponent? rest).map fun e => ⟨digits, e⟩

/-- The nearest number to a decimal text, which may have a sign in front. -/
def read? : List Char → Option Double
  | '-' :: cs => (readDecimal? cs).map fun d => d.toDouble.negate
  | '+' :: cs => (readDecimal? cs).map Decimal.toDouble
  | cs => (readDecimal? cs).map Decimal.toDouble

end Dashboard.Double
