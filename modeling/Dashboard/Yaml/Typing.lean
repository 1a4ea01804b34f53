import Dashboard.Double.Text

/-!
# What a plain scalar stands for

A plain scalar is null, a truth value, an integer, a number or a text,
whichever its characters spell first.  Integers have 64 bits, with or without
sign; one that needs up to 128 bits is refused, and a longer one is a number.
A decimal with a leading zero is a text.
-/

namespace Dashboard.Yaml

/-- What a plain scalar stands for. -/
inductive Scalar where
  | null
  | bool (b : Bool)
  | int (n : Int)
  | float (x : Double)
  | str (s : String)
deriving DecidableEq, Repr

namespace Scalar

/-- The words for null. -/
def isNullWord (cs : List Char) : Bool :=
  cs == "~".toList || cs == "null".toList || cs == "Null".toList || cs == "NULL".toList

/-- The words for the truth values. -/
def readBool? (cs : List Char) : Option Bool :=
  if cs == "true".toList || cs == "True".toList || cs == "TRUE".toList then some true
  else if cs == "false".toList || cs == "False".toList || cs == "FALSE".toList then some false
  else none

/-- The value of a digit in a base up to sixteen. -/
def digitValue? (base : Nat) (c : Char) : Option Nat :=
  let value :=
    if c.isDigit then c.toNat - 48
    else if 'a' ≤ c ∧ c ≤ 'f' then c.toNat - 87
    else if 'A' ≤ c ∧ c ≤ 'F' then c.toNat - 55
    else 16
  if value < base then some value else none

/-- The natural number that digits spell on top of `n`. -/
def readNat? (base : Nat) : Nat → List Char → Option Nat
  | n, [] => some n
  | n, c :: cs => do readNat? base (n * base + (← digitValue? base c)) cs

/-- The natural number that one digit or more spell. -/
def readDigits? (base : Nat) : List Char → Option Nat
  | [] => none
  | cs => readNat? base 0 cs

/-- A decimal that would have a leading zero. -/
def hasLeadingZero (cs : List Char) : Bool :=
  let digits := match cs with
    | '-' :: rest | '+' :: rest => rest
    | _ => cs
  match digits with
  | '0' :: d :: rest => (d :: rest).all Char.isDigit
  | _ => false

/-- The magnitude after the sign: with a base mark, or decimal. -/
def readMagnitude? (decimal : Bool) (cs : List Char) : Option Nat :=
  let marked := match cs with
    | '0' :: 'x' :: rest => readDigits? 16 rest
    | '0' :: 'o' :: rest => readDigits? 8 rest
    | '0' :: 'b' :: rest => readDigits? 2 rest
    | _ => none
  match marked with
  | some n => some n
  | none => if decimal then readDigits? 10 cs else none

/-- The integer that a text spells, of any size. -/
def readInt? (cs : List Char) : Option Int :=
  let decimal := !hasLeadingZero cs
  match cs with
  | '-' :: rest => (readMagnitude? decimal rest).map fun n => -(n : Int)
  | '+' :: rest => (readMagnitude? decimal rest).map fun n => (n : Int)
  | _ => (readMagnitude? decimal cs).map fun n => (n : Int)

/-- Integers that fit 64 bits with or without sign. -/
def fits64 (n : Int) : Bool :=
  -0x8000000000000000 ≤ n && n < 0x10000000000000000

/-- Integers that fit 128 bits with or without sign. -/
def fits128 (n : Int) : Bool :=
  -0x80000000000000000000000000000000 ≤ n &&
    n < 0x100000000000000000000000000000000

/-- The number that a text spells, if it is finite or one of the words for
infinity and NaN. -/
def readDouble? (cs : List Char) : Option Double :=
  if cs == ".nan".toList || cs == ".NaN".toList || cs == ".NAN".toList then some .nan
  else if cs == "-.inf".toList || cs == "-.Inf".toList || cs == "-.INF".toList then
    some (.infinity true)
  else
    let unsigned := match cs with
      | '+' :: rest => rest
      | _ => cs
    if unsigned == ".inf".toList || unsigned == ".Inf".toList || unsigned == ".INF".toList then
      some (.infinity false)
    else
      match cs with
      | '+' :: '-' :: _ | '+' :: '+' :: _ => none
      | _ => (Double.read? cs).filter Double.isFinite

/-- The integer reading: refused when 128 bits are needed, none when the text
is no integer or needs more. -/
def ofInteger? (cs : List Char) : Option (Option Int) :=
  match readInt? cs with
  | some n => if fits64 n then some (some n) else if fits128 n then none else some none
  | none => some none

/-- What a plain scalar stands for; none when it is refused. -/
def ofPlain? (cs : List Char) : Option Scalar :=
  if cs.isEmpty || isNullWord cs then some .null
  else match readBool? cs with
  | some b => some (.bool b)
  | none =>
    match ofInteger? cs with
    | none => none
    | some (some n) => some (.int n)
    | some none =>
      match if hasLeadingZero cs then none else readDouble? cs with
      | some x => some (.float x)
      | none => some (.str (String.ofList cs))

end Scalar

end Dashboard.Yaml
