import Dashboard.Json.Failure
import Dashboard.Value.Basic

/-!
# Numbers in JSON

A number without fraction and exponent is an integer while it fits 64 bits
with or without sign; negative zero and everything longer is a number of
double precision.  A number with a fraction or an exponent is its digits,
those that fit 64 bits, times or divided by a power of ten, with one rounding
for the digits, one for the power and one for the result; out of range is a
fault, too small is zero.
-/

namespace Dashboard.Json

/-- The largest digits that are collected. -/
def maxDigits : Nat :=
  0xFFFFFFFFFFFFFFFF

/-- A power of ten. -/
def tenTo (n : Nat) : Double :=
  Double.ofNat (Nat.pow 10 n)

/-- A number times a power of ten; none when it is too large.  Three divisions
take every collected number to zero, so the steps suffice. -/
def scaled (x : Double) (exponent : Int) : Nat → Option Double
  | 0 => some x
  | steps + 1 =>
    if exponent.natAbs ≤ 308 then
      if 0 ≤ exponent then
        let y := x.mul (tenTo exponent.natAbs)
        if y.isFinite then some y else none
      else some (x.div (tenTo exponent.natAbs))
    else if x.same Double.zero then some x
    else if 0 ≤ exponent then none
    else scaled (x.div (tenTo 308)) (exponent + 308) steps

/-- The number with these digits and this exponent. -/
def ofDigits (negative : Bool) (digits : Nat) (exponent : Int) (rest : List Char) :
    Except Failure (Value × List Char) :=
  match scaled (Double.ofNat digits) exponent 8 with
  | some x => .ok (.float (if negative then x.negate else x), rest)
  | none => failed .numberOutOfRange rest

/-- The integer with these digits. -/
def ofInteger (negative : Bool) (digits : Nat) : Value :=
  if negative then
    if 0 < digits ∧ digits ≤ 0x8000000000000000 then .int (Int64.ofInt (-(digits : Int)))
    else .float (Double.ofNat digits).negate
  else if digits < 0x8000000000000000 then .int (Int64.ofInt digits)
  else .float (Double.ofNat digits)

/-- The digits of an exponent; the largest that count have ten digits. -/
def readExponentDigits (n : Nat) : List Char → Option Nat × List Char
  | [] => (some n, [])
  | c :: cs =>
    if c.isDigit then
      let next := n * 10 + (c.toNat - 48)
      if 0x80000000 ≤ next then (none, cs) else readExponentDigits next cs
    else (some n, c :: cs)

/-- The number whose exponent mark has been taken. -/
def readExponent (negative : Bool) (digits : Nat) (start : Int) (cs : List Char) :
    Except Failure (Value × List Char) :=
  let (down, cs) : Bool × List Char := match cs with
    | '+' :: rest => (false, rest)
    | '-' :: rest => (true, rest)
    | rest => (false, rest)
  match cs with
  | [] => failed .unfinishedValue []
  | c :: rest =>
    if c.isDigit then
      match readExponentDigits (c.toNat - 48) rest with
      | (some e, rest) =>
        ofDigits negative digits (if down then start - e else start + e) rest
      | (none, rest) =>
        if digits ≠ 0 ∧ !down then failed .numberOutOfRange rest
        else
          .ok (.float (if negative then Double.zero.negate else Double.zero),
            rest.dropWhile Char.isDigit)
    else failed .invalidNumber rest

/-- The number after its last digit that counts. -/
def readNumberEnd (negative : Bool) (digits : Nat) (exponent : Int) :
    List Char → Except Failure (Value × List Char)
  | [] => ofDigits negative digits exponent []
  | c :: rest =>
    if c == 'e' || c == 'E' then readExponent negative digits exponent rest
    else ofDigits negative digits exponent (c :: rest)

/-- The digits after the point; `places` of them have been taken. -/
def readFraction (negative : Bool) (digits : Nat) (start : Int) (places : Nat) :
    List Char → Except Failure (Value × List Char)
  | [] =>
    if places = 0 then failedAhead .unfinishedValue []
    else readNumberEnd negative digits (start - places) []
  | c :: rest =>
    if c.isDigit then
      let next := digits * 10 + (c.toNat - 48)
      if maxDigits < next then
        readNumberEnd negative digits (start - places) (rest.dropWhile Char.isDigit)
      else readFraction negative next start (places + 1) rest
    else if places = 0 then failedAhead .invalidNumber (c :: rest)
    else readNumberEnd negative digits (start - places) (c :: rest)

/-- The number after a whole part that is too long: `dropped` digits of it are
left out. -/
def readLong (negative : Bool) (digits : Nat) (dropped : Nat) :
    List Char → Except Failure (Value × List Char)
  | [] => ofDigits negative digits dropped []
  | c :: rest =>
    if c.isDigit then readLong negative digits (dropped + 1) rest
    else if c == '.' then readFraction negative digits dropped 0 rest
    else readNumberEnd negative digits dropped (c :: rest)

/-- The digits of the whole part. -/
def readWhole (negative : Bool) (digits : Nat) :
    List Char → Except Failure (Value × List Char)
  | [] => .ok (ofInteger negative digits, [])
  | c :: rest =>
    if c.isDigit then
      let next := digits * 10 + (c.toNat - 48)
      if maxDigits < next then readLong negative digits 0 (c :: rest)
      else readWhole negative next rest
    else if c == '.' then readFraction negative digits 0 0 rest
    else if c == 'e' || c == 'E' then readExponent negative digits 0 rest
    else .ok (ofInteger negative digits, c :: rest)

/-- The number whose sign has been taken; no digit follows a leading zero. -/
def readUnsigned (negative : Bool) : List Char → Except Failure (Value × List Char)
  | [] => failed .unfinishedValue []
  | '0' :: [] => readWhole negative 0 []
  | '0' :: c :: rest =>
    if c.isDigit then failedAhead .invalidNumber (c :: rest)
    else readWhole negative 0 (c :: rest)
  | c :: rest =>
    if c.isDigit then readWhole negative (c.toNat - 48) rest
    else failed .invalidNumber rest

/-- The text of a number; what is not finite has none and is written as null. -/
def floatText : Double → List Char
  | .finite s m k h => Double.finiteText Double.jsonLayout s m k h
  | _ => "null".toList

end Dashboard.Json
