import Dashboard.Shell.Question

/-!
# Questions by line

A question as lines of text, and the answer that a typed line is.  An empty line
takes what the question starts with; a line of blanks is a blank answer.
-/

namespace Dashboard

namespace Question

/-- The text that stands behind a question for what it starts with. -/
def startText (text : String) : String :=
  if text.isEmpty then "" else " [" ++ text ++ "]"

/-- The entries of a list, counted from one. -/
def optionLines (options : List String) (cursor : Nat) : List String :=
  options.zipIdx.map fun (label, i) =>
    (if i = cursor then "> " else "  ") ++ toString (i + 1) ++ ". " ++ label

/-- The line of a help text. -/
def helpLines (help : Option String) : List String :=
  (help.map fun h => "  (" ++ h ++ ")").toList

/-- A question as text; what is typed goes behind it. -/
def asText : Question → String
  | .select message options cursor help =>
    String.intercalate "\n" (helpLines help ++ optionLines options cursor ++ [message ++ " "])
  | .text message initial help _ =>
    String.intercalate "\n" (helpLines help ++ [message ++ startText initial ++ " "])
  | .confirm message truth => message ++ (if truth then " [Y/n] " else " [y/N] ")

/-- The answer that a typed line is. -/
def typed (line : String) : Question → Answer
  | .select _ _ _ _ =>
    if line.isEmpty then .enter
    else
      match line.toNat? with
      | some (n + 1) => .choice n
      | _ => .text line
  | .text _ _ _ _ => if line.isEmpty then .enter else .text line
  | .confirm _ _ =>
    if line == "y" || line == "yes" then .truth true
    else if line == "n" || line == "no" then .truth false
    else if line.isEmpty then .enter
    else .escape

end Question

end Dashboard
