import Dashboard.Json.Failure

/-!
# Texts in JSON

Between double quotes a quote, a backslash and the control characters below
the space are escaped, and everything else stands for itself.  Reading also
takes every other escape of the format; code units that are no characters
must come in pairs.
-/

namespace Dashboard.Json

/-- The hexadecimal digit of a number below sixteen, in lower case. -/
def hexDigit (n : Nat) : Char :=
  Nat.digitChar n

/-- One character as it stands between quotes. -/
def escape (c : Char) : List Char :=
  if c == '"' then ['\\', '"']
  else if c == '\\' then ['\\', '\\']
  else if c == '\n' then ['\\', 'n']
  else if c == '\r' then ['\\', 'r']
  else if c == '\t' then ['\\', 't']
  else if c == '\x08' then ['\\', 'b']
  else if c == '\x0c' then ['\\', 'f']
  else if c.toNat < 0x20 then
    ['\\', 'u', '0', '0', hexDigit (c.toNat / 16), hexDigit (c.toNat % 16)]
  else [c]

/-- A text between double quotes. -/
def quote (s : List Char) : List Char :=
  '"' :: s.flatMap escape ++ ['"']

/-- The value of a hexadecimal digit in either case. -/
def hexValue? (c : Char) : Option Nat :=
  if c.isDigit then some (c.toNat - 48)
  else if 'a' ≤ c ∧ c ≤ 'f' then some (c.toNat - 87)
  else if 'A' ≤ c ∧ c ≤ 'F' then some (c.toNat - 55)
  else none

/-- The code unit of four hexadecimal digits. -/
def readUnit : List Char → Except Failure (Nat × List Char)
  | a :: b :: c :: d :: rest =>
    match hexValue? a, hexValue? b, hexValue? c, hexValue? d with
    | some a, some b, some c, some d => .ok (((a * 16 + b) * 16 + c) * 16 + d, rest)
    | _, _, _, _ => failed .invalidEscape rest
  | _ => failed .unfinishedText []

/-- The character of the escape whose first code unit has been read. -/
def readSurrogate (unit : Nat) (cs : List Char) : Except Failure (Char × List Char) :=
  if 0xDC00 ≤ unit ∧ unit ≤ 0xDFFF then failed .loneSurrogate cs
  else if unit < 0xD800 ∨ 0xDBFF < unit then .ok (Char.ofNat unit, cs)
  else match cs with
    | '\\' :: 'u' :: rest => do
      let (low, rest) ← readUnit rest
      if low < 0xDC00 ∨ 0xDFFF < low then failed .loneSurrogate rest
      else .ok (Char.ofNat (0x10000 + (unit - 0xD800) * 0x400 + (low - 0xDC00)), rest)
    | '\\' :: rest => failed .unfinishedSurrogate (rest.drop 1)
    | _ => failed .unfinishedSurrogate (cs.drop 1)

/-- The character of an escape, after its backslash. -/
def readEscape : List Char → Except Failure (Char × List Char)
  | [] => failed .unfinishedText []
  | 'u' :: rest => do
    let (unit, rest) ← readUnit rest
    readSurrogate unit rest
  | '"' :: rest => .ok ('"', rest)
  | '\\' :: rest => .ok ('\\', rest)
  | '/' :: rest => .ok ('/', rest)
  | 'b' :: rest => .ok ('\x08', rest)
  | 'f' :: rest => .ok ('\x0c', rest)
  | 'n' :: rest => .ok ('\n', rest)
  | 'r' :: rest => .ok ('\r', rest)
  | 't' :: rest => .ok ('\t', rest)
  | _ :: rest => failed .invalidEscape rest

/-- The characters up to the closing quote, with as many steps as the text has
characters. -/
def readTextSteps : Nat → List Char → Except Failure (List Char × List Char)
  | 0, cs => failed .unfinishedText cs
  | _ + 1, [] => failed .unfinishedText []
  | _ + 1, '"' :: rest => .ok ([], rest)
  | n + 1, '\\' :: rest => do
    let (c, rest) ← readEscape rest
    let (cs, rest) ← readTextSteps n rest
    .ok (c :: cs, rest)
  | n + 1, c :: rest =>
    if c.toNat < 0x20 then failed .controlCharacter rest
    else do
      let (cs, rest) ← readTextSteps n rest
      .ok (c :: cs, rest)

/-- The text whose opening quote has been taken. -/
def readText (cs : List Char) : Except Failure (String × List Char) := do
  let (chars, rest) ← readTextSteps (cs.length + 1) cs
  .ok (String.ofList chars, rest)

end Dashboard.Json
