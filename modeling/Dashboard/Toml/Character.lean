/-!
# Characters of TOML

Blanks within a line, line ends, comments and the characters of bare keys.  A
line ends with a line feed, with or without a carriage return before it.
-/

namespace Dashboard.Toml

/-- Blanks within a line. -/
def isSpace (c : Char) : Bool :=
  c == ' ' || c == '\t'

/-- The text without the blanks it starts with. -/
def skipSpaces (cs : List Char) : List Char :=
  cs.dropWhile isSpace

/-- The characters of comments and quoted texts. -/
def isTextChar (c : Char) : Bool :=
  c == '\t' || (0x20 ≤ c.toNat && c.toNat ≠ 0x7F)

/-- The characters of bare keys. -/
def isBareChar (c : Char) : Bool :=
  c.isAlphanum || c == '_' || c == '-'

/-- What follows a line end. -/
def dropLineEnd? : List Char → Option (List Char)
  | '\n' :: cs => some cs
  | '\r' :: '\n' :: cs => some cs
  | _ => none

/-- What follows a comment, if there is one. -/
def skipComment : List Char → List Char
  | '#' :: cs => cs.dropWhile isTextChar
  | cs => cs

/-- What follows blanks, comments and line ends. -/
def skipLines : Nat → List Char → List Char
  | 0, cs => cs
  | steps + 1, cs =>
    let cs := skipComment (skipSpaces cs)
    match dropLineEnd? cs with
    | some rest => skipLines steps rest
    | none => cs

/-- What follows the end of a statement: blanks, a comment, and the line end or
the end of the text. -/
def endStatement? (cs : List Char) : Option (List Char) :=
  match skipComment (skipSpaces cs) with
  | [] => some []
  | rest => dropLineEnd? rest

end Dashboard.Toml
