import Dashboard.Toml.Quoted
import Dashboard.Toml.Scalar
import Dashboard.Toml.Table

/-!
# Reading TOML

A text is a sequence of statements on lines of their own: a value under a key,
or the header of a table.  All faults are alike: reading gives the table of the
text or nothing.
-/

namespace Dashboard.Toml

/-- One part of a key. -/
def readPart? (cs : List Char) : Option (String × List Char) :=
  match cs with
  | '"' :: cs => (readLine? '"' (cs.length + 1) [] cs).map fun r => (String.ofList r.1, r.2)
  | '\'' :: cs => (readLine? '\'' (cs.length + 1) [] cs).map fun r => (String.ofList r.1, r.2)
  | cs =>
    let (bare, rest) := cs.span isBareChar
    if bare.isEmpty then none else some (String.ofList bare, rest)

/-- The parts of a key, with points and blanks between them. -/
def readKey? : Nat → List Char → Option (List String × List Char)
  | 0, _ => none
  | steps + 1, cs => do
    let (part, cs) ← readPart? (skipSpaces cs)
    match skipSpaces cs with
    | '.' :: cs =>
      let (more, cs) ← readKey? steps cs
      return (part :: more, cs)
    | cs => return ([part], cs)

/-- How many lists and tables may be open in a value. -/
def maxDepth : Nat :=
  79

mutual

/-- A value, with `depth` lists and tables that may still be opened. -/
def readValue? : Nat → Nat → List Char → Option (Toml × List Char)
  | 0, _, _ => none
  | steps + 1, depth, cs =>
    match cs with
    | '[' :: cs =>
      if depth = 0 then none
      else do
        let cs ← readItems? steps (depth - 1) cs
        return (.other, cs)
    | '\x7b' :: cs =>
      if depth = 0 then none
      else
        match skipSpaces cs with
        | '\x7d' :: cs => some (.other, cs)
        | cs => do
          let cs ← readInline? steps (depth - 1) [] cs
          return (.other, cs)
    | '"' :: _ | '\'' :: _ => do
      let (s, cs) ← readQuoted? cs
      return (.text s, cs)
    | cs => (dropScalar? cs).map fun cs => (.other, cs)

/-- What follows the items of a list and its end. -/
def readItems? : Nat → Nat → List Char → Option (List Char)
  | 0, _, _ => none
  | steps + 1, depth, cs =>
    match skipLines cs.length cs with
    | ']' :: cs => some cs
    | cs => do
      let (_, cs) ← readValue? steps depth cs
      match skipLines cs.length cs with
      | ',' :: cs => readItems? steps depth cs
      | ']' :: cs => some cs
      | _ => none

/-- What follows the entries of a table in one line and its end. -/
def readInline? : Nat → Nat → Table → List Char → Option (List Char)
  | 0, _, _, _ => none
  | steps + 1, depth, t, cs => do
    let (t, cs) ← readEntry? steps depth t cs
    match skipSpaces cs with
    | ',' :: cs => readInline? steps depth t cs
    | '\x7d' :: cs => some cs
    | _ => none

/-- A key and its value, put into a table. -/
def readEntry? : Nat → Nat → Table → List Char → Option (Table × List Char)
  | 0, _, _, _ => none
  | steps + 1, depth, t, cs => do
    let (key, cs) ← readKey? (cs.length + 1) cs
    match cs with
    | '=' :: cs =>
      let (v, cs) ← readValue? steps depth (skipSpaces cs)
      let last ← key.getLast?
      return (← putDotted last v key.dropLast t, cs)
    | _ => none

end

/-- A text that is being read: its table so far, and where keys go. -/
structure Reading where
  root : Table := []
  place : List String := []

/-- The rest of a header: its key and the text behind its brackets. -/
def readHeader? (close cs : List Char) : Option (List String × List Char) := do
  let (key, cs) ← readKey? (cs.length + 1) cs
  if close.isPrefixOf cs then some (key, cs.drop close.length) else none

/-- One statement, and what follows it up to the end of its line. -/
def readStatement? (r : Reading) (cs : List Char) : Option (Reading × List Char) :=
  match cs with
  | '[' :: '[' :: cs => do
    let (key, cs) ← readHeader? [']', ']'] cs
    let last ← key.getLast?
    return ({ root := ← changeAt (appendTable last) key.dropLast r.root, place := key }, cs)
  | '[' :: cs => do
    let (key, cs) ← readHeader? [']'] cs
    let last ← key.getLast?
    return ({ root := ← changeAt (stateTable last) key.dropLast r.root, place := key }, cs)
  | cs => do
    let (key, cs) ← readKey? (cs.length + 1) cs
    match cs with
    | '=' :: cs =>
      let (v, cs) ← readValue? (2 * cs.length + 2) maxDepth (skipSpaces cs)
      let last ← key.getLast?
      return ({ r with root := ← changeAt (putDotted last v key.dropLast) r.place r.root }, cs)
    | _ => none

/-- The statements of a text. -/
def readStatements? : Nat → Reading → List Char → Option Reading
  | 0, _, _ => none
  | steps + 1, r, cs =>
    match skipLines cs.length cs with
    | [] => some r
    | cs => do
      let (r, cs) ← readStatement? r cs
      readStatements? steps r (← endStatement? cs)

/-- The table of a text. -/
def read? (text : String) : Option Table :=
  let cs := match text.toList with
    | '\uFEFF' :: cs => cs
    | cs => cs
  (readStatements? (cs.length + 1) {} cs).map Reading.root

end Dashboard.Toml
