import Dashboard.Yaml.Cursor

/-!
# Folding of lines inside a scalar

Blanks between two words of a quoted or plain scalar are kept.  A line break
between them is folded: blanks around it vanish, one line feed becomes a
space, and of several breaks the first one is dropped when it is a line feed.
-/

namespace Dashboard.Yaml

/-- The blanks and breaks between two words of a scalar. -/
structure Fold where
  /-- Blanks before any line break. -/
  spaces : List Char := []
  /-- The first line break, unless it was escaped. -/
  first : Option Char := none
  /-- The line breaks after the first. -/
  more : List Char := []
  /-- A line break has been passed. -/
  broken : Bool := false
deriving DecidableEq, Repr

namespace Fold

/-- What the fold stands for. -/
def text (f : Fold) : List Char :=
  if f.broken then
    match f.first with
    | some '\n' => if f.more.isEmpty then [' '] else f.more
    | some c => c :: f.more
    | none => f.more
  else f.spaces

/-- The fold after one more blank. -/
def addSpace (f : Fold) (c : Char) : Fold :=
  if f.broken then f else { f with spaces := f.spaces ++ [c] }

/-- The fold after one more line break. -/
def addBreak (f : Fold) (c : Char) : Fold :=
  if f.broken then { f with more := f.more ++ [c] }
  else { f with first := some c, spaces := [], broken := true }

end Fold

/-- Take blanks and breaks.  After a break no tab may stand in a column below
`margin`. -/
def readFold? (margin : Nat) : List Char → Fold → Cursor → Option (Fold × Cursor)
  | [], f, c => some (f, c)
  | x :: xs, f, c =>
    if isSpace x then
      if f.broken && x == '\t' && c.column < margin then none
      else readFold? margin xs (f.addSpace x) c.skip
    else if isBreak x then readFold? margin xs (f.addBreak x) c.skipBreak
    else some (f, c)

end Dashboard.Yaml
