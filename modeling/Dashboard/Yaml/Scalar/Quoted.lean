import Dashboard.Yaml.Scalar.Folding

/-!
# Quoted scalars

Between single quotes only the quote itself is special: it is written twice.
Between double quotes a backslash starts an escape, and before a line break it
removes that break together with the blanks around it.  Line breaks are
folded in both.
-/

namespace Dashboard.Yaml

/-- The character of a one-letter escape. -/
def simpleEscape? : Char → Option Char
  | '0' => some '\x00'
  | 'a' => some '\x07'
  | 'b' => some '\x08'
  | 't' => some '\t'
  | '\t' => some '\t'
  | 'n' => some '\n'
  | 'v' => some '\x0b'
  | 'f' => some '\x0c'
  | 'r' => some '\r'
  | 'e' => some '\x1b'
  | ' ' => some ' '
  | '"' => some '"'
  | '/' => some '/'
  | '\\' => some '\\'
  | 'N' => some '\u0085'
  | '_' => some '\u00a0'
  | 'L' => some '\u2028'
  | 'P' => some '\u2029'
  | _ => none

/-- How many hexadecimal digits follow the letter of a numeric escape. -/
def escapeWidth? : Char → Option Nat
  | 'x' => some 2
  | 'u' => some 4
  | 'U' => some 8
  | _ => none

/-- The character with a code point, if it is one. -/
def charOf? (n : Nat) : Option Char :=
  if n < 0xD800 ∨ (0xDFFF < n ∧ n ≤ 0x10FFFF) then some (Char.ofNat n) else none

/-- The character of the escape that starts here, and its length with the
backslash. -/
def readEscape? : List Char → Option (Char × Nat)
  | '\\' :: letter :: rest =>
    match escapeWidth? letter with
    | some width => do
      let (value, _) ← readHex? width 0 rest
      return (← charOf? value, 2 + width)
    | none => do return (← simpleEscape? letter, 2)
  | _ => none

/-- What ended a word of a quoted scalar. -/
inductive WordEnd where
  | gap
  | escapedBreak
deriving DecidableEq, Repr

/-- The characters up to the closing quote, a gap or an escaped line break. -/
def readQuotedWord? (double : Bool) :
    Nat → List Char → Cursor → Option (List Char × WordEnd × Cursor)
  | 0, _, _ => none
  | steps + 1, word, c =>
    match c.rest with
    | [] => some (word, .gap, c)
    | x :: rest =>
      if isGap x then some (word, .gap, c)
      else if double then
        if x == '"' then some (word, .gap, c)
        else if x == '\\' then
          match rest with
          | y :: _ =>
            if isBreak y then some (word, .escapedBreak, c.skip.skipBreak)
            else do
              let (escaped, length) ← readEscape? c.rest
              readQuotedWord? double steps (word ++ [escaped]) (c.skipN length)
          | [] => none
        else readQuotedWord? double steps (word ++ [x]) c.skip
      else if x == '\'' then
        match rest with
        | '\'' :: _ => readQuotedWord? double steps (word ++ ['\'']) (c.skipN 2)
        | _ => some (word, .gap, c)
      else readQuotedWord? double steps (word ++ [x]) c.skip

/-- The words and folds up to and with the closing quote. -/
def readQuotedBody? (double : Bool) : Nat → List Char → Cursor → Option (List Char × Cursor)
  | 0, _, _ => none
  | steps + 1, text, c =>
    if c.atDocumentMark then none
    else do
      let (text, ended, c) ← readQuotedWord? double (c.rest.length + 1) text c
      match ended, c.rest with
      | _, [] => none
      | .gap, x :: _ =>
        if x == (if double then '"' else '\'') then return (text, c.skip)
        let (fold, c) ← readFold? 0 c.rest {} c
        readQuotedBody? double steps (text ++ fold.text) c
      | .escapedBreak, x :: _ =>
        if x == (if double then '"' else '\'') then return (text, c.skip)
        let (fold, c) ← readFold? 0 c.rest { broken := true } c
        readQuotedBody? double steps (text ++ fold.text) c

/-- The quoted scalar whose opening quote is next. -/
def readQuoted? (double : Bool) (c : Cursor) : Option (List Char × Cursor) :=
  readQuotedBody? double (c.rest.length + 1) [] c.skip

end Dashboard.Yaml
