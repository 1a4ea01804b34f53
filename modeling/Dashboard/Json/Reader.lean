import Dashboard.Json.Number
import Dashboard.Json.Quoted

/-!
# Reading JSON

One value per text, blanks around it.  Lists and objects may be nested 127
deep.  A later entry of a name replaces the value of the earlier one and keeps
its place.
-/

namespace Dashboard.Json

/-- The four blanks of JSON. -/
def isBlank (c : Char) : Bool :=
  c == ' ' || c == '\n' || c == '\t' || c == '\r'

/-- A text without its leading blanks. -/
def skipBlanks (cs : List Char) : List Char :=
  cs.dropWhile isBlank

/-- The rest of a fixed word. -/
def readWord : List Char → List Char → Except Failure (List Char)
  | [], cs => .ok cs
  | _ :: _, [] => failed .unfinishedValue []
  | w :: ws, c :: cs => if w == c then readWord ws cs else failed .identifierExpected cs

mutual

/-- One value; `depth` containers may still be opened, and every step takes a
character. -/
def readValue : Nat → Nat → List Char → Except Failure (Value × List Char)
  | 0, _, cs => failed .tooDeep cs
  | steps + 1, depth, cs =>
    match skipBlanks cs with
    | [] => failedAhead .unfinishedValue []
    | 'n' :: rest => do .ok (.null, ← readWord ['u', 'l', 'l'] rest)
    | 't' :: rest => do .ok (.bool true, ← readWord ['r', 'u', 'e'] rest)
    | 'f' :: rest => do .ok (.bool false, ← readWord ['a', 'l', 's', 'e'] rest)
    | '"' :: rest => do
      let (s, rest) ← readText rest
      .ok (.str s, rest)
    | '-' :: rest => readUnsigned true rest
    | '[' :: rest =>
      match depth with
      | 0 => failedAhead .tooDeep ('[' :: rest)
      | depth + 1 => do
        let (items, rest) ← readItems steps depth true rest
        .ok (.seq items, rest)
    | '\x7b' :: rest =>
      match depth with
      | 0 => failedAhead .tooDeep ('\x7b' :: rest)
      | depth + 1 => do
        let (entries, rest) ← readEntries steps depth true rest
        .ok (.map (Entries.ofPairs entries), rest)
    | c :: rest =>
      if c.isDigit then readUnsigned false (c :: rest)
      else failedAhead .valueExpected (c :: rest)

/-- The items of a list up to its end. -/
def readItems : Nat → Nat → Bool → List Char → Except Failure (List Value × List Char)
  | 0, _, _, cs => failed .tooDeep cs
  | steps + 1, depth, first, cs =>
    match skipBlanks cs with
    | [] => failedAhead .unfinishedList []
    | ']' :: rest => .ok ([], rest)
    | c :: rest =>
      if first then do
        let (v, rest) ← readValue steps depth (c :: rest)
        let (vs, rest) ← readItems steps depth false rest
        .ok (v :: vs, rest)
      else if c == ',' then
        match skipBlanks rest with
        | [] => failedAhead .unfinishedValue []
        | ']' :: rest => failedAhead .trailingComma (']' :: rest)
        | rest => do
          let (v, rest) ← readValue steps depth rest
          let (vs, rest) ← readItems steps depth false rest
          .ok (v :: vs, rest)
      else failedAhead .listCommaOrEndExpected (c :: rest)

/-- The entries of an object up to its end. -/
def readEntries :
    Nat → Nat → Bool → List Char → Except Failure (List (String × Value) × List Char)
  | 0, _, _, cs => failed .tooDeep cs
  | steps + 1, depth, first, cs =>
    match skipBlanks cs with
    | [] => failedAhead .unfinishedObject []
    | '\x7d' :: rest => .ok ([], rest)
    | c :: rest =>
      if first then readEntry steps depth (c :: rest)
      else if c == ',' then
        match skipBlanks rest with
        | [] => failedAhead .unfinishedValue []
        | '\x7d' :: rest => failedAhead .trailingComma ('\x7d' :: rest)
        | rest => readEntry steps depth rest
      else failedAhead .objectCommaOrEndExpected (c :: rest)

/-- One entry and those after it. -/
def readEntry : Nat → Nat → List Char → Except Failure (List (String × Value) × List Char)
  | 0, _, cs => failed .tooDeep cs
  | steps + 1, depth, cs =>
    match cs with
    | '"' :: rest => do
      let (k, rest) ← readText rest
      match skipBlanks rest with
      | [] => failedAhead .unfinishedObject []
      | ':' :: rest =>
        let (v, rest) ← readValue steps depth rest
        let (m, rest) ← readEntries steps depth false rest
        .ok ((k, v) :: m, rest)
      | rest => failedAhead .colonExpected rest
    | cs => failedAhead .keyNotText cs

end

/-- How many containers may be nested. -/
def maxDepth : Nat :=
  127

/-- The value of a whole text. -/
def readChars (cs : List Char) : Except Failure Value := do
  let (v, rest) ← readValue (3 * cs.length + 3) maxDepth cs
  match skipBlanks rest with
  | [] => .ok v
  | rest => failedAhead .trailingCharacters rest

/-- The value of a whole text. -/
def read (text : String) : Except Failure Value :=
  readChars text.toList

end Dashboard.Json
