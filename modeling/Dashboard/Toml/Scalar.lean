import Dashboard.Double.Text
import Dashboard.Toml.Character

/-!
# Numbers, dates and truth values of TOML

The program keeps only texts, so that of other scalars it matters whether they
are well-formed and within their range.
-/

namespace Dashboard.Toml

/-- The characters of scalars without quotes. -/
def isScalarChar (c : Char) : Bool :=
  isBareChar c || c == '+' || c == '.' || c == ':'

/-- Digits with single low lines between them. -/
def areDigits (isDigit : Char → Bool) : List Char → Bool
  | [] => false
  | [c] => isDigit c
  | c :: '_' :: cs => isDigit c && areDigits isDigit cs
  | c :: cs => isDigit c && areDigits isDigit cs

/-- The digits without the low lines. -/
def bareDigits (cs : List Char) : List Char :=
  cs.filter (· != '_')

/-- The text without a sign, and whether there was a minus. -/
def dropSign : List Char → Bool × List Char
  | '+' :: cs => (false, cs)
  | '-' :: cs => (true, cs)
  | cs => (false, cs)

/-- Decimal digits without a zero in front of others. -/
def isWhole (cs : List Char) : Bool :=
  areDigits Char.isDigit cs && (cs == ['0'] || cs.head? != some '0')

/-- The number that digits spell. -/
def digitsValue (base : Nat) (cs : List Char) : Nat :=
  (bareDigits cs).foldl (fun n c =>
    n * base + (if c.isDigit then c.toNat - 48 else c.toLower.toNat - 87)) 0

/-- Hexadecimal digits. -/
def isHexDigit (c : Char) : Bool :=
  c.isDigit || ('a' ≤ c && c ≤ 'f') || ('A' ≤ c && c ≤ 'F')

/-- An integer of 64 bits. -/
def isInteger : List Char → Bool
  | '0' :: 'x' :: cs => areDigits isHexDigit cs && digitsValue 16 cs < 0x8000000000000000
  | '0' :: 'o' :: cs => areDigits (fun c => '0' ≤ c && c ≤ '7') cs && digitsValue 8 cs < 0x8000000000000000
  | '0' :: 'b' :: cs => areDigits (fun c => c == '0' || c == '1') cs && digitsValue 2 cs < 0x8000000000000000
  | cs =>
    let (negative, cs) := dropSign cs
    isWhole cs && digitsValue 10 cs < 0x8000000000000000 + (if negative then 1 else 0)

/-- The exponent of a number behind its letter. -/
def isExponent (cs : List Char) : Bool :=
  areDigits Char.isDigit (dropSign cs).2

/-- The shape of a number with a fraction, an exponent or both. -/
def isFloatShape (cs : List Char) : Bool :=
  let (whole, rest) := (dropSign cs).2.span fun c => c.isDigit || c == '_'
  isWhole whole &&
  match rest with
  | 'e' :: rest | 'E' :: rest => isExponent rest
  | '.' :: rest =>
    let (fraction, rest) := rest.span fun c => c.isDigit || c == '_'
    areDigits Char.isDigit fraction &&
    match rest with
    | [] => true
    | 'e' :: rest | 'E' :: rest => isExponent rest
    | _ => false
  | _ => false

/-- A number that does not run over to infinity, or a word for infinity or NaN. -/
def isFloat (cs : List Char) : Bool :=
  ["inf".toList, "nan".toList].contains (dropSign cs).2 ||
  (isFloatShape cs && Double.read? (bareDigits cs) != some (.infinity false))

/-- A number of so many digits within bounds, and what follows. -/
def field? (digits low high : Nat) (cs : List Char) : Option (Nat × List Char) :=
  let ds := cs.take digits
  if ds.length = digits && ds.all Char.isDigit && low ≤ digitsValue 10 ds &&
      digitsValue 10 ds ≤ high then
    some (digitsValue 10 ds, cs.drop digits)
  else none

/-- What follows a character. -/
def drop? (c : Char) : List Char → Option (List Char)
  | d :: cs => if c == d then some cs else none
  | [] => none

/-- The days of a month. -/
def daysIn (year month : Nat) : Nat :=
  if month = 2 then
    if (year % 4 = 0 ∧ year % 100 ≠ 0) ∨ year % 400 = 0 then 29 else 28
  else if [4, 6, 9, 11].contains month then 30
  else 31

/-- What follows a date. -/
def dropDate? (cs : List Char) : Option (List Char) := do
  let (year, cs) ← field? 4 0 9999 cs
  let (month, cs) ← field? 2 1 12 (← drop? '-' cs)
  let (day, cs) ← field? 2 1 31 (← drop? '-' cs)
  if day ≤ daysIn year month then some cs else none

/-- What follows a time of day. -/
def dropTime? (cs : List Char) : Option (List Char) := do
  let (_, cs) ← field? 2 0 23 cs
  let (_, cs) ← field? 2 0 59 (← drop? ':' cs)
  let (_, cs) ← field? 2 0 60 (← drop? ':' cs)
  match cs with
  | '.' :: cs => if cs.head?.any Char.isDigit then some (cs.dropWhile Char.isDigit) else none
  | cs => some cs

/-- The text is an offset from universal time, or empty. -/
def isOffset : List Char → Bool
  | [] | ['Z'] | ['z'] => true
  | '+' :: cs | '-' :: cs =>
    match field? 2 0 23 cs with
    | some (_, ':' :: cs) => (field? 2 0 59 cs).any fun r => r.2.isEmpty
    | _ => false
  | _ => false

/-- The text is a time of day and an offset. -/
def isTimeOffset (cs : List Char) : Bool :=
  (dropTime? cs).any isOffset

/-- The text is a date, a time of day, or both. -/
def isDateTime (cs : List Char) : Bool :=
  match dropDate? cs with
  | some [] => true
  | some ('T' :: cs) | some ('t' :: cs) => isTimeOffset cs
  | some _ => false
  | none => dropTime? cs == some []

/-- What follows a scalar without quotes.  A date and a time of day may have a
blank between them. -/
def dropScalar? (cs : List Char) : Option (List Char) :=
  let (word, rest) := cs.span isScalarChar
  if dropDate? word == some [] then
    match rest with
    | ' ' :: c :: rest =>
      if c.isDigit then
        let (time, rest) := (c :: rest).span isScalarChar
        if isTimeOffset time then some rest else none
      else some (' ' :: c :: rest)
    | rest => some rest
  else if word == "true".toList || word == "false".toList || isDateTime word ||
      isInteger word || isFloat word then some rest
  else none

end Dashboard.Toml
