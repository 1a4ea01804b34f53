/-!
# Characters of a YAML text

Only printable characters may occur in a text.  There are six line breaks; all
but the two Unicode separators are read as a line feed, which `normalize`
settles once, so that the rest of the reader knows three.
-/

namespace Dashboard.Yaml

/-- The characters that may occur in a text. -/
def isPrintable (c : Char) : Bool :=
  let n := c.toNat
  n == 9 || n == 10 || n == 13 || (0x20 ≤ n && n ≤ 0x7E) || n == 0x85 ||
  (0xA0 ≤ n && n ≤ 0xD7FF) || (0xE000 ≤ n && n ≤ 0xFFFD) || 0x10000 ≤ n

/-- The mark that may open a line and is skipped there. -/
def byteOrderMark : Char :=
  '\ufeff'

/-- Carriage returns, alone or before a line feed, and next-line characters
become line feeds. -/
def normalize : List Char → List Char
  | [] => []
  | '\r' :: '\n' :: cs => '\n' :: normalize cs
  | '\r' :: cs => '\n' :: normalize cs
  | '\u0085' :: cs => '\n' :: normalize cs
  | c :: cs => c :: normalize cs

/-- Line breaks of a normalized text. -/
def isBreak (c : Char) : Bool :=
  c == '\n' || c == '\u2028' || c == '\u2029'

/-- Blanks inside a line. -/
def isSpace (c : Char) : Bool :=
  c == ' ' || c == '\t'

/-- Blanks and line breaks. -/
def isGap (c : Char) : Bool :=
  isSpace c || isBreak c

/-- The text ends here or goes on with a blank or a line break. -/
def atGap : List Char → Bool
  | [] => true
  | c :: _ => isGap c

/-- The text ends here or goes on with a line break. -/
def atLineEnd : List Char → Bool
  | [] => true
  | c :: _ => isBreak c

/-- Letters, digits, the underscore and the hyphen, all of ASCII. -/
def isWord (c : Char) : Bool :=
  c.isAlphanum || c == '_' || c == '-'

/-- The value of a hexadecimal digit in either case. -/
def hexValue? (c : Char) : Option Nat :=
  if c.isDigit then some (c.toNat - 48)
  else if 'a' ≤ c ∧ c ≤ 'f' then some (c.toNat - 87)
  else if 'A' ≤ c ∧ c ≤ 'F' then some (c.toNat - 55)
  else none

/-- The number of exactly `n` hexadecimal digits, and what follows them. -/
def readHex? : Nat → Nat → List Char → Option (Nat × List Char)
  | 0, value, cs => some (value, cs)
  | n + 1, value, c :: cs => do readHex? n (value * 16 + (← hexValue? c)) cs
  | _ + 1, _, [] => none

end Dashboard.Yaml
