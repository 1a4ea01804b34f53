import Dashboard.Yaml.Cursor
import Dashboard.Yaml.Token

/-!
# Anchors, tags and directives

Anchors and aliases are names.  A tag is written out in angle brackets, or as
a handle and a suffix; directives give the version and the handles.
-/

namespace Dashboard.Yaml

/-- The characters that may follow the name of an anchor. -/
def endsName : List Char → Bool
  | [] => true
  | c :: _ => isGap c || "?:,]\x7d%@`".toList.contains c

/-- The name of an anchor or alias, whose mark is next. -/
def readName? (c : Cursor) : Option (String × Cursor) :=
  let c := c.skip
  let name := c.rest.takeWhile isWord
  let c := c.skipWhile isWord
  if name.isEmpty || !endsName c.rest then none
  else some (String.ofList name, c)

/-- The characters of a tag besides letters, digits and escapes. -/
def isTagMark (c : Char) : Bool :=
  ";/?:@&=+$.!~*'()".toList.contains c

/-- How many octets a character takes, by its first octet. -/
def octetCount? (octet : Nat) : Option Nat :=
  if octet < 0x80 then some 1
  else if 0xC0 ≤ octet ∧ octet < 0xE0 then some 2
  else if 0xE0 ≤ octet ∧ octet < 0xF0 then some 3
  else if 0xF0 ≤ octet ∧ octet < 0xF8 then some 4
  else none

/-- An octet written as a percent sign and two hexadecimal digits. -/
def readOctet? : List Char → Option Nat
  | '%' :: a :: b :: _ => do return (← hexValue? a) * 16 + (← hexValue? b)
  | _ => none

/-- The octets of a character after the first. -/
def readOctets? : Nat → Nat → Cursor → Option (Nat × Cursor)
  | 0, code, c => some (code, c)
  | n + 1, code, c => do
    let octet ← readOctet? c.rest
    if octet < 0x80 || 0xC0 ≤ octet then none
    else readOctets? n (code * 0x40 + octet % 0x40) (c.skipN 3)

/-- An escaped character of a tag. -/
def readTagEscape? (c : Cursor) : Option (Char × Cursor) := do
  let octet ← readOctet? c.rest
  let count ← octetCount? octet
  let lead := if count = 1 then octet else octet % Nat.pow 2 (7 - count)
  let (code, c) ← readOctets? (count - 1) lead (c.skipN 3)
  return (Char.ofNat code, c)

/-- The characters of a tag; a verbatim one may also hold commas and square
brackets. -/
def readTagText? (verbatim : Bool) :
    Nat → List Char → Cursor → Option (List Char × Cursor)
  | 0, _, _ => none
  | steps + 1, text, c =>
    match c.rest with
    | [] => some (text, c)
    | x :: _ =>
      if x == '%' then do
        let (y, c) ← readTagEscape? c
        readTagText? verbatim steps (text ++ [y]) c
      else if isWord x || isTagMark x || (verbatim && (x == ',' || x == '[' || x == ']')) then
        readTagText? verbatim steps (text ++ [x]) c.skip
      else some (text, c)

/-- The characters of a tag, of which there must be one. -/
def readTagSuffix? (verbatim : Bool) (c : Cursor) : Option (List Char × Cursor) := do
  let (text, c) ← readTagText? verbatim (c.rest.length + 1) [] c
  if text.isEmpty then none else some (text, c)

/-- The mark, the word after it and the mark that may close a handle. -/
def readHandle (c : Cursor) : List Char × Bool × Cursor :=
  let c := c.skip
  let word := c.rest.takeWhile isWord
  let c := c.skipWhile isWord
  match c.rest with
  | '!' :: _ => (word, true, c.skip)
  | _ => (word, false, c)

/-- A tag in one of its three forms. -/
def readTagForm? (c : Cursor) : Option (Token × Cursor) :=
  match c.rest with
  | '!' :: '<' :: _ => do
    let (text, c) ← readTagSuffix? true (c.skipN 2)
    match c.rest with
    | '>' :: _ => return (.tag "" (String.ofList text), c.skip)
    | _ => none
  | _ =>
    match readHandle c with
    | (word, true, c) => do
      let (text, c) ← readTagSuffix? false c
      return (.tag (String.ofList ('!' :: word ++ ['!'])) (String.ofList text), c)
    | (word, false, c) => do
      let (text, c) ← readTagText? false (c.rest.length + 1) word c
      if text.isEmpty then return (.tag "" "!", c)
      return (.tag "!" (String.ofList text), c)

/-- The tag whose mark is next; a gap follows it, or a comma inside brackets. -/
def readTag? (inFlow : Bool) (c : Cursor) : Option (Token × Cursor) := do
  let (token, c) ← readTagForm? c
  if atGap c.rest || (inFlow && c.rest.head? == some ',') then some (token, c) else none

/-- A number of a version: one to nine digits. -/
def readVersionNumber? (c : Cursor) : Option (Nat × Cursor) :=
  let digits := c.rest.takeWhile Char.isDigit
  if digits.isEmpty || 9 < digits.length then none
  else some (digits.foldl (fun n d => n * 10 + (d.toNat - 48)) 0, c.skipWhile Char.isDigit)

/-- The two numbers of a version. -/
def readVersion? (c : Cursor) : Option (Token × Cursor) := do
  let (major, c) ← readVersionNumber? (c.skipWhile isSpace)
  match c.rest with
  | '.' :: _ =>
    let (minor, c) ← readVersionNumber? c.skip
    return (.versionDirective major minor, c)
  | _ => none

/-- A handle and what it stands for. -/
def readTagDirective? (c : Cursor) : Option (Token × Cursor) := do
  let c := c.skipWhile isSpace
  match c.rest with
  | '!' :: _ =>
    let (word, closed, c) := readHandle c
    if !closed && !word.isEmpty then none
    let handle := '!' :: word ++ (if closed then ['!'] else [])
    match c.rest with
    | x :: _ =>
      if !isSpace x then none
      let c := c.skipWhile isSpace
      let (text, c) ← readTagSuffix? true c
      if !atGap c.rest then none
      return (.tagDirective (String.ofList handle) (String.ofList text), c)
    | [] => none
  | _ => none

/-- The directive whose mark is next, with the rest of its line. -/
def readDirective? (c : Cursor) : Option (Token × Cursor) := do
  let c := c.skip
  let name := c.rest.takeWhile isWord
  let c := c.skipWhile isWord
  if !atGap c.rest then none
  let (token, c) ←
    if name == "YAML".toList then readVersion? c
    else if name == "TAG".toList then readTagDirective? c
    else none
  let c := (c.skipWhile isSpace).skipComment
  if !atLineEnd c.rest then none
  return (token, c.skipBreak)

end Dashboard.Yaml
