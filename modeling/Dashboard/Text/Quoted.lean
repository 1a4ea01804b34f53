import Dashboard.Text.Unseen

/-!
# Texts in double quotes for messages

Paths in error messages and text fields of log lines are shown between double
quotes.  A quote and a backslash get a backslash, the usual control characters
their letter, and every other character that shows nothing of its own is
written as its code point in hexadecimal.
-/

namespace Dashboard.Text

/-- Hexadecimal digits of a number, in lower case. -/
def hexDigits (n : Nat) : List Char :=
  Nat.toDigits 16 n

/-- One character as it stands between double quotes. -/
def quotedChar (c : Char) : List Char :=
  if c == '"' then ['\\', '"']
  else if c == '\\' then ['\\', '\\']
  else if c == '\n' then ['\\', 'n']
  else if c == '\r' then ['\\', 'r']
  else if c == '\t' then ['\\', 't']
  else if c == '\x00' then ['\\', '0']
  else if isUnseen c then ['\\', 'u', '\x7b'] ++ hexDigits c.toNat ++ ['\x7d']
  else [c]

/-- A text between double quotes. -/
def quoted (s : String) : String :=
  String.ofList ('"' :: s.toList.flatMap quotedChar ++ ['"'])

end Dashboard.Text
