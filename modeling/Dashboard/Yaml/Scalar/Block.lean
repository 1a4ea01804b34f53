import Dashboard.Yaml.Cursor

/-!
# Block scalars

A literal or folded block scalar is the indented lines below its header.  The
header may give the indentation and what happens to the line breaks at the
end: one is kept, or none, or all of them.  A folded scalar joins lines that
start with no blank by a space.
-/

namespace Dashboard.Yaml

/-- What happens to the line breaks at the end of a block scalar. -/
inductive Chomp where
  | clip
  | strip
  | keep
deriving DecidableEq, Repr

/-- The chomping indicator. -/
def chompOf? : Char → Option Chomp
  | '+' => some .keep
  | '-' => some .strip
  | _ => none

/-- An indentation indicator: one digit, which may not be zero. -/
def readIncrement? (c : Cursor) : Option (Nat × Cursor) :=
  match c.rest with
  | x :: _ =>
    if x.isDigit then
      if x == '0' then none else some (x.toNat - 48, c.skip)
    else some (0, c)
  | [] => some (0, c)

/-- A chomping indicator, if there is one. -/
def readChomp (c : Cursor) : Option Chomp × Cursor :=
  match c.rest.head?.bind chompOf? with
  | some chomp => (some chomp, c.skip)
  | none => (none, c)

/-- The two indicators of a header in either order; zero when no indentation is
given. -/
def readIndicators? (c : Cursor) : Option (Chomp × Nat × Cursor) :=
  match readChomp c with
  | (some chomp, c) => do
    let (increment, c) ← readIncrement? c
    return (chomp, increment, c)
  | (none, c) => do
    let (increment, c) ← readIncrement? c
    let (chomp, c) := if increment = 0 then (none, c) else readChomp c
    return (chomp.getD .clip, increment, c)

/-- Empty lines and the indentation of the line after them, with the deepest
column that blanks reach.  An indentation of zero is still unknown. -/
def readEmptyLines? (indent : Nat) :
    Nat → Nat → List Char → Cursor → Option (Nat × List Char × Cursor)
  | 0, _, _, _ => none
  | steps + 1, deepest, breaks, c =>
    match c.rest with
    | [] => some (max deepest c.column, breaks, c)
    | x :: _ =>
      let free := indent == 0 || c.column < indent
      if free && x == ' ' then readEmptyLines? indent steps deepest breaks c.skip
      else
        let deepest := max deepest c.column
        if free && x == '\t' then none
        else if isBreak x then
          readEmptyLines? indent steps deepest (breaks ++ [x]) c.skipBreak
        else some (deepest, breaks, c)

/-- Lines read so far, and the breaks that wait for the next line. -/
structure BlockText where
  text : List Char := []
  /-- The break at the end of the last line. -/
  lastBreak : List Char := []
  /-- The last line started with a blank. -/
  afterBlank : Bool := false

/-- The indented lines from here on; `breaks` are the empty lines before. -/
def readBlockLines? (literal : Bool) (indent : Nat) :
    Nat → BlockText → List Char → Cursor → Option (BlockText × List Char × Cursor)
  | 0, _, _, _ => none
  | steps + 1, b, breaks, c =>
    match c.rest with
    | [] => some (b, breaks, c)
    | x :: _ =>
      if c.column != indent then some (b, breaks, c)
      else do
        let blank := isSpace x
        let joined : List Char :=
          if !literal && b.lastBreak == ['\n'] && !b.afterBlank && !blank then
            if breaks.isEmpty then [' '] else []
          else b.lastBreak
        let line := c.rest.takeWhile fun y => !isBreak y
        let c := c.skipLine
        let lastBreak := c.rest.take 1
        let (_, breaks', c) ← readEmptyLines? indent (c.rest.length + 1) 0 [] c.skipBreak
        readBlockLines? literal indent steps
          ⟨b.text ++ joined ++ breaks ++ line, lastBreak, blank⟩ breaks' c

/-- The block scalar whose indicator is next, in a block indented by `parent`
columns (`-1` outside all blocks). -/
def readBlock? (literal : Bool) (parent : Int) (c : Cursor) :
    Option (List Char × Cursor) := do
  let (chomp, increment, c) ← readIndicators? c.skip
  let c := (c.skipWhile isSpace).skipComment
  if !atLineEnd c.rest then none
  let c := c.skipBreak
  let given := if increment = 0 then 0 else (max parent 0).toNat + increment
  let (deepest, breaks, c) ← readEmptyLines? given (c.rest.length + 1) 0 [] c
  let indent := if given = 0 then max (max deepest (parent + 1).toNat) 1 else given
  let (b, breaks, c) ← readBlockLines? literal indent (c.rest.length + 1) {} breaks c
  let tail := match chomp with
    | .strip => []
    | .clip => b.lastBreak
    | .keep => b.lastBreak ++ breaks
  return (b.text ++ tail, c)

end Dashboard.Yaml
