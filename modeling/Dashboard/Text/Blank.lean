/-!
# Blank characters and trimming

Names, titles, option keys and form values are compared without the blanks
around them.  A character is blank when it has the Unicode property
White_Space; trimming removes the longest blank prefix and suffix and never
touches anything between two characters that are not blank.
-/

namespace Dashboard.Text

/-- The characters with the Unicode property White_Space. -/
def isBlank (c : Char) : Bool :=
  let n := c.toNat
  (9 ≤ n && n ≤ 13) || n == 32 || n == 0x85 || n == 0xA0 || n == 0x1680 ||
  (0x2000 ≤ n && n ≤ 0x200A) || n == 0x2028 || n == 0x2029 || n == 0x202F ||
  n == 0x205F || n == 0x3000

/-- The characters without their blank prefix. -/
def dropBlanks (cs : List Char) : List Char :=
  cs.dropWhile isBlank

/-- The characters without their blank suffix. -/
def dropEndBlanks (cs : List Char) : List Char :=
  (cs.reverse.dropWhile isBlank).reverse

/-- The characters without their blank prefix and suffix. -/
def trimChars (cs : List Char) : List Char :=
  dropEndBlanks (dropBlanks cs)

/-- A text without the blanks around it. -/
def trim (s : String) : String :=
  String.ofList (trimChars s.toList)

/-- A text without its blank suffix. -/
def trimEnd (s : String) : String :=
  String.ofList (dropEndBlanks s.toList)

/-- No character other than blanks; the empty text is blank. -/
def isBlankText (s : String) : Bool :=
  s.toList.all isBlank

end Dashboard.Text
