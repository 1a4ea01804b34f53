import Dashboard.Yaml.Datum
import Dashboard.Yaml.Scanner

/-!
# Reading YAML

A text holds at most one document; the text without any is null.  All faults
are alike: reading gives the data or nothing.
-/

namespace Dashboard.Yaml

/-- The node of a text without forbidden characters. -/
def readNode? (cs : List Char) : Option (Option Node) := do
  if !cs.all isPrintable then none
  Node.readDocument? (← scan? (normalize cs))

/-- The data of a text. -/
def readChars? (cs : List Char) : Option Datum := do
  match ← readNode? cs with
  | some n => n.datum?
  | none => return .scalar .null

/-- The data of a text. -/
def read? (text : String) : Option Datum :=
  readChars? text.toList

end Dashboard.Yaml
