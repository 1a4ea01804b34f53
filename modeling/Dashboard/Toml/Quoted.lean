import Dashboard.Toml.Character

/-!
# Quoted texts of TOML

A text stands between double quotes, where a backslash escapes, or between
single quotes, where nothing does; three quotes on each side let it go over
several lines.  Writing uses single quotes only where that saves escapes and
nothing stands against it.
-/

namespace Dashboard.Toml

/-! ## Reading -/

/-- The value of a hexadecimal digit. -/
def hexValue? (c : Char) : Option Nat :=
  if '0' ≤ c ∧ c ≤ '9' then some (c.toNat - '0'.toNat)
  else if 'a' ≤ c ∧ c ≤ 'f' then some (c.toNat - 'a'.toNat + 10)
  else if 'A' ≤ c ∧ c ≤ 'F' then some (c.toNat - 'A'.toNat + 10)
  else none

/-- The number that so many hexadecimal digits spell, and the rest. -/
def readHex? : Nat → Nat → List Char → Option (Nat × List Char)
  | 0, n, cs => some (n, cs)
  | k + 1, n, c :: cs => do readHex? k (16 * n + (← hexValue? c)) cs
  | _ + 1, _, [] => none

/-- The character of a code point. -/
def charOf? (n : Nat) : Option Char :=
  if n.isValidChar then some (Char.ofNat n) else none

/-- The character of an escape behind its backslash, and the rest. -/
def readEscape? : List Char → Option (Char × List Char)
  | 'b' :: cs => some ('\x08', cs)
  | 't' :: cs => some ('\t', cs)
  | 'n' :: cs => some ('\n', cs)
  | 'f' :: cs => some ('\x0c', cs)
  | 'r' :: cs => some ('\r', cs)
  | '"' :: cs => some ('"', cs)
  | '\\' :: cs => some ('\\', cs)
  | 'u' :: cs => do
    let (n, cs) ← readHex? 4 0 cs
    return (← charOf? n, cs)
  | 'U' :: cs => do
    let (n, cs) ← readHex? 8 0 cs
    return (← charOf? n, cs)
  | _ => none

/-- What follows the end of a line that a backslash joins with the next text. -/
def joinLines? (cs : List Char) : Option (List Char) := do
  let rest ← dropLineEnd? (skipSpaces cs)
  return rest.dropWhile fun c => isSpace c || c == '\n' || c == '\r'

/-- A text between quotes on one line, behind the first quote. -/
def readLine? (quote : Char) : Nat → List Char → List Char → Option (List Char × List Char)
  | 0, _, _ => none
  | _ + 1, _, [] => none
  | steps + 1, done, c :: cs =>
    if c == quote then some (done.reverse, cs)
    else if c == '\\' && quote == '"' then do
      let (e, cs) ← readEscape? cs
      readLine? quote steps (e :: done) cs
    else if isTextChar c then readLine? quote steps (c :: done) cs
    else none

/-- How many quotes a text starts with, at most `most`, and what follows. -/
def countQuotes (quote : Char) : Nat → List Char → Nat × List Char
  | most + 1, c :: cs =>
    if c == quote then
      let (n, rest) := countQuotes quote most cs
      (n + 1, rest)
    else (0, c :: cs)
  | _, cs => (0, cs)

/-- A text between three quotes, behind the first ones.  Up to two quotes may
stand before those that end it. -/
def readLines? (quote : Char) : Nat → List Char → List Char → Option (List Char × List Char)
  | 0, _, _ => none
  | _ + 1, _, [] => none
  | steps + 1, done, c :: cs =>
    if c == quote then
      let (n, rest) := countQuotes quote 5 (c :: cs)
      if n < 3 then readLines? quote steps (List.replicate n quote ++ done) rest
      else some ((List.replicate (n - 3) quote ++ done).reverse, rest)
    else if c == '\\' && quote == '"' then
      match readEscape? cs with
      | some (e, cs) => readLines? quote steps (e :: done) cs
      | none => do readLines? quote steps done (← joinLines? cs)
    else
      match dropLineEnd? (c :: cs) with
      | some rest => readLines? quote steps ('\n' :: done) rest
      | none => if isTextChar c then readLines? quote steps (c :: done) cs else none

/-- A text behind its three quotes; a line end right behind them is no part of it. -/
def readBlock? (quote : Char) (cs : List Char) : Option (List Char × List Char) :=
  readLines? quote (cs.length + 1) [] ((dropLineEnd? cs).getD cs)

/-- A quoted text. -/
def readQuoted? : List Char → Option (String × List Char)
  | '"' :: '"' :: '"' :: cs => (readBlock? '"' cs).map fun r => (String.ofList r.1, r.2)
  | '\'' :: '\'' :: '\'' :: cs => (readBlock? '\'' cs).map fun r => (String.ofList r.1, r.2)
  | '"' :: cs => (readLine? '"' (cs.length + 1) [] cs).map fun r => (String.ofList r.1, r.2)
  | '\'' :: cs => (readLine? '\'' (cs.length + 1) [] cs).map fun r => (String.ofList r.1, r.2)
  | _ => none

/-! ## Writing -/

/-- Characters that need an escape whatever else the text holds. -/
def isControl (c : Char) : Bool :=
  (c.toNat < 0x20 && c != '\t' && c != '\n') || c.toNat == 0x7F

/-- Three single quotes in a row. -/
def hasTripleQuote : List Char → Bool
  | '\'' :: '\'' :: '\'' :: _ => true
  | _ :: cs => hasTripleQuote cs
  | [] => false

/-- The text is better written between single quotes: it holds what would need an
escape between double quotes, and nothing that single quotes cannot hold. -/
def prefersLiteral (cs : List Char) : Bool :=
  cs.any (fun c => c == '\\' || c == '"') && !cs.any isControl && !hasTripleQuote cs &&
  cs.getLast? != some '\''

/-- The four hexadecimal digits of a code point, in upper case. -/
def hex4 (n : Nat) : List Char :=
  [n / 4096, n / 256 % 16, n / 16 % 16, n % 16].map fun d => (Nat.digitChar d).toUpper

/-- One character between double quotes; a line feed stays in a text over several
lines. -/
def escaped (c : Char) : List Char :=
  if c == '"' then ['\\', '"']
  else if c == '\\' then ['\\', '\\']
  else if c == '\t' then ['\\', 't']
  else if c == '\r' then ['\\', 'r']
  else if c == '\x08' then ['\\', 'b']
  else if c == '\x0c' then ['\\', 'f']
  else if isControl c then ['\\', 'u'] ++ hex4 c.toNat
  else [c]

/-- A quoted text as it is written. -/
def quoted (s : String) : String :=
  let cs := s.toList
  let lines := cs.contains '\n'
  if prefersLiteral cs then
    if lines then "'''\n" ++ s ++ "'''"
    else if cs.contains '\'' then "'''" ++ s ++ "'''"
    else "'" ++ s ++ "'"
  else
    let body := String.ofList (cs.flatMap escaped)
    if lines then "\"\"\"\n" ++ body ++ "\"\"\"" else "\"" ++ body ++ "\""

end Dashboard.Toml
