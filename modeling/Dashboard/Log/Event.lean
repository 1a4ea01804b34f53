import Dashboard.Text.Quoted

/-!
# Events of the log

What the program does is told to a log as events.  An event has a level, the
part of the program it comes from, a message and named fields; the fields hold
the texts that are shown.  Operations give their events as data, and the outer
layer decides which of them are written.
-/

namespace Dashboard.Log

/-- The levels of events, from the most severe to the least. -/
inductive Severity where
  | error
  | warn
  | info
  | debug
  | trace
deriving DecidableEq, Repr, Inhabited

/-- One event. -/
structure Event where
  severity : Severity
  source : String
  message : String
  fields : List (String × String) := []
deriving DecidableEq, Repr, Inhabited

namespace Severity

/-- The rank of a level: the more severe, the lower. -/
def rank : Severity → Nat
  | error => 1
  | warn => 2
  | info => 3
  | debug => 4
  | trace => 5

/-- The word for a level, right-aligned to five characters. -/
def column : Severity → String
  | error => "ERROR"
  | warn => " WARN"
  | info => " INFO"
  | debug => "DEBUG"
  | trace => "TRACE"

end Severity

/-- A field that holds a count or a place. -/
def number (name : String) (n : Nat) : String × String :=
  (name, toString n)

/-- A field that holds a text between double quotes. -/
def quotedText (name text : String) : String × String :=
  (name, Text.quoted text)

namespace Event

/-- The line of an event, with its source if that is asked for. -/
def line (withSource : Bool) (e : Event) : String :=
  e.severity.column ++ " " ++ (if withSource then e.source ++ ": " else "") ++ e.message ++
  String.join (e.fields.map fun f => " " ++ f.1 ++ "=" ++ f.2)

end Event

end Dashboard.Log
