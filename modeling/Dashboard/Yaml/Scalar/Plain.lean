import Dashboard.Yaml.Scalar.Folding

/-!
# Plain scalars

A scalar without quotes runs to a colon before a gap, to a comment, to a
document mark, or to a line that is not indented deeper than its block; inside
brackets also to a comma or a bracket.  Gaps at its end are not part of it.
-/

namespace Dashboard.Yaml

/-- The characters that end a plain scalar inside brackets. -/
def isFlowIndicator (c : Char) : Bool :=
  c == ',' || c == '[' || c == ']' || c == '\x7b' || c == '\x7d'

/-- A colon that must not stand in a plain scalar inside brackets. -/
def atBadColon : List Char → Bool
  | ':' :: c :: _ => isFlowIndicator c || c == '?'
  | _ => false

/-- The plain scalar ends before what follows, gaps apart. -/
def atPlainEnd (inFlow : Bool) : List Char → Bool
  | [] => true
  | ':' :: cs => atGap cs
  | c :: _ => inFlow && isFlowIndicator c

/-- The characters of one word: none at a colon that is not allowed. -/
def readPlainWord? (inFlow : Bool) : List Char → Cursor → Option (List Char × Cursor)
  | [], c => some ([], c)
  | x :: xs, c =>
    if isGap x then some ([], c)
    else if inFlow && atBadColon (x :: xs) then none
    else if atPlainEnd inFlow (x :: xs) then some ([], c)
    else do
      let (word, c) ← readPlainWord? inFlow xs c.skip
      return (x :: word, c)

/-- The words and folds from here on, after `text` and the fold before this
place.  Also says whether the scalar ended after a line break. -/
def readPlainBody? (inFlow : Bool) (margin : Nat) :
    Nat → List Char → Fold → Cursor → Option (List Char × Bool × Cursor)
  | 0, _, _, _ => none
  | steps + 1, text, fold, c =>
    if c.atDocumentMark || c.rest.head? == some '#' then some (text, fold.broken, c)
    else do
      let (word, c) ← readPlainWord? inFlow c.rest c
      let (text, fold) : List Char × Fold :=
        if word.isEmpty then (text, fold) else (text ++ fold.text ++ word, {})
      match c.rest with
      | [] => return (text, fold.broken, c)
      | x :: _ =>
        if !isGap x then return (text, fold.broken, c)
        let (fold, c) ← readFold? margin c.rest fold c
        if !inFlow && c.column < margin then return (text, fold.broken, c)
        readPlainBody? inFlow margin steps text fold c

/-- The plain scalar that starts here, in a block whose content stands in
column `margin` or deeper. -/
def readPlain? (inFlow : Bool) (margin : Nat) (c : Cursor) :
    Option (List Char × Bool × Cursor) :=
  readPlainBody? inFlow margin (c.rest.length + 1) [] {} c

end Dashboard.Yaml
