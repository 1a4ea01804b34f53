import Dashboard.Yaml.Character

/-!
# Places in a text

A cursor is the text that is left together with where it starts: how many
characters have been taken, the line and the column.  Structure depends on
columns, and the length of an implicit key on the other two.
-/

namespace Dashboard.Yaml

/-- A place in a text. -/
structure Cursor where
  rest : List Char
  index : Nat
  line : Nat
  column : Nat
deriving DecidableEq, Repr

namespace Cursor

/-- The start of a text. -/
def start (cs : List Char) : Cursor :=
  ⟨cs, 0, 0, 0⟩

/-- The place after a character that is no line break. -/
def skip (c : Cursor) : Cursor :=
  match c.rest with
  | [] => c
  | _ :: cs => ⟨cs, c.index + 1, c.line, c.column + 1⟩

/-- The place after `n` characters that are no line breaks. -/
def skipN : Nat → Cursor → Cursor
  | 0, c => c
  | n + 1, c => skipN n c.skip

/-- The place after a line break. -/
def skipBreak (c : Cursor) : Cursor :=
  match c.rest with
  | [] => c
  | _ :: cs => ⟨cs, c.index + 1, c.line + 1, 0⟩

/-- The place behind the longest run of characters of a class without line
breaks. -/
def skipWhile (p : Char → Bool) (c : Cursor) : Cursor :=
  let taken := c.rest.takeWhile p
  ⟨c.rest.dropWhile p, c.index + taken.length, c.line, c.column + taken.length⟩

/-- The place at the end of the line. -/
def skipLine (c : Cursor) : Cursor :=
  c.skipWhile fun x => !isBreak x

/-- The end of the line when a comment starts here, this place otherwise. -/
def skipComment (c : Cursor) : Cursor :=
  match c.rest with
  | '#' :: _ => c.skipLine
  | _ => c

/-- Three dashes or three points that open a line and stand alone. -/
def atDocumentMark (c : Cursor) : Bool :=
  c.column == 0 &&
    match c.rest with
    | '-' :: '-' :: '-' :: cs => atGap cs
    | '.' :: '.' :: '.' :: cs => atGap cs
    | _ => false

end Cursor

end Dashboard.Yaml
