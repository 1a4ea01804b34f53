import Dashboard.Text.Blank
import Dashboard.Text.Lines
import Dashboard.Text.Search

/-!
# Taking away the common margin

The margin of a text is what the lines that are not blank have in common at
their beginning, of spaces and tabs.  Dedenting takes it away from these lines
and leaves of a blank line only its line feed.
-/

namespace Dashboard.Text

/-- The characters that margins consist of. -/
def isMargin (c : Char) : Bool :=
  c == ' ' || c == '\t'

/-- What two texts have in common at their beginning. -/
def commonStart : List Char → List Char → List Char
  | a :: as, b :: bs => if a = b then a :: commonStart as bs else []
  | _, _ => []

/-- The common beginning of texts; of none, the empty text. -/
def commonStartAll : List (List Char) → List Char
  | [] => []
  | l :: ls => ls.foldl commonStart l

/-- The margins of the lines that are not blank. -/
def margins (text : List Char) : List (List Char) :=
  (((pieces text).map contentOf).filter fun l => !l.all isBlank).map fun l => l.takeWhile isMargin

/-- The margin that the lines of a text have in common. -/
def commonMargin (text : List Char) : List Char :=
  commonStartAll (margins text)

/-- A line without the margin.  A blank line comes out empty, and one that does
not start with the margin as it is. -/
def dedentLine (margin line : List Char) : List Char :=
  if line.all isBlank then [] else (dropPrefix? margin line).getD line

/-- A piece of a text without the margin; its line feed stays. -/
def dedentPiece (margin piece : List Char) : List Char :=
  let (content, ending) := splitEnd piece
  dedentLine margin content ++ ending

/-- A text without its common margin. -/
def dedentChars (text : List Char) : List Char :=
  (pieces text).flatMap (dedentPiece (commonMargin text))

/-- A text without its common margin. -/
def dedent (text : String) : String :=
  String.ofList (dedentChars text.toList)

/-- The common beginning is a beginning of both. -/
theorem commonStart_isPrefix (a b : List Char) :
    commonStart a b <+: a ∧ commonStart a b <+: b := by
  fun_induction commonStart a b with
  | case1 as b bs ih => exact ⟨(List.prefix_cons_inj b).2 ih.1, (List.prefix_cons_inj b).2 ih.2⟩
  | case2 => exact ⟨List.nil_prefix, List.nil_prefix⟩
  | case3 => exact ⟨List.nil_prefix, List.nil_prefix⟩

end Dashboard.Text
