import Dashboard.Text.Blank
import Dashboard.Yaml.Reader

/-!
# When and how texts are quoted in a configuration file

A text is written bare when nobody can take it for anything else: it holds no
character with a meaning in YAML, starts and ends with no blank, is none of
the old words for truth values, and reads back as itself.  The empty text is
two single quotes.  Every other text stands between double quotes on one line,
with escapes for what a reader would refuse or take for a line break.
-/

namespace Dashboard.Render

/-- The characters that stand for themselves between double quotes, quotes and
backslashes apart. -/
def isPlainChar (c : Char) : Bool :=
  let n := c.toNat
  (0x20 ≤ n && n ≤ 0x7E) || (0xA0 ≤ n && n ≤ 0x2027) || (0x202A ≤ n && n ≤ 0xD7FF) ||
  (0xE000 ≤ n && n ≤ 0xFFFD) || 0x10000 ≤ n

/-- The characters that need an escape: not printable, or a line separator. -/
def needsEscape (c : Char) : Bool :=
  !isPlainChar c

/-- The four hexadecimal digits of a code point, in upper case. -/
def hex4 (n : Nat) : List Char :=
  [n / 4096, n / 256 % 16, n / 16 % 16, n % 16].map fun d => (Nat.digitChar d).toUpper

/-- One character as it stands between double quotes. -/
def escape (c : Char) : List Char :=
  if c == '"' then ['\\', '"']
  else if c == '\\' then ['\\', '\\']
  else if c == '\n' then ['\\', 'n']
  else if c == '\r' then ['\\', 'r']
  else if c == '\t' then ['\\', 't']
  else if needsEscape c then ['\\', 'u'] ++ hex4 c.toNat
  else [c]

/-- A text between double quotes. -/
def doubleQuoted (s : List Char) : List Char :=
  '"' :: s.flatMap escape ++ ['"']

/-- The characters that no bare text holds. -/
def isSignificant (c : Char) : Bool :=
  c == ':' || c == '#' || c == '-' || c == '[' || c == ']' || c == '\x7b' || c == '\x7d' ||
  c == '\n'

/-- The characters that no bare text starts with. -/
def isIndicator (c : Char) : Bool :=
  "'\"&*!|>%@`,?".toList.contains c

/-- The old words for truth values, in lower case. -/
def legacyWords : List (List Char) :=
  ["yes", "no", "on", "off", "y", "n"].map String.toList

/-- An old word for a truth value, whatever the case of its letters. -/
def isLegacyWord (s : List Char) : Bool :=
  legacyWords.contains (s.map Char.toLower)

/-- A reader of YAML gives this very text. -/
def readsBack (s : List Char) : Bool :=
  match Yaml.readChars? s with
  | some (.scalar (.str t)) => t == String.ofList s
  | _ => false

/-- A text that is not written bare. -/
def needsQuotes (s : List Char) : Bool :=
  s.any isSignificant || s.any needsEscape ||
  s.head?.any Text.isBlank || s.getLast?.any Text.isBlank ||
  s.head?.any isIndicator || isLegacyWord s || !readsBack s

/-- A text as it is written in a block. -/
def quoted (s : List Char) : List Char :=
  if s.isEmpty then ['\'', '\'']
  else if needsQuotes s then doubleQuoted s
  else s

end Dashboard.Render
