import Dashboard.Files.Fault
import Dashboard.Text.Quoted

/-!
# Errors

Every operation that can be refused gives one of these causes; its wording is
`Error.message`.  Some of them are faults of what the user typed: a dialog
that meets one asks again instead of giving up.
-/

namespace Dashboard

/-- The levels of the document that are addressed by an index. -/
inductive Level where
  | page
  | column
  | widget
deriving DecidableEq, Repr

/-- The name of a level. -/
def Level.name : Level → String
  | .page => "page"
  | .column => "column"
  | .widget => "widget"

/-- Why an operation was refused. -/
inductive Error where
  | emptyName
  | missingWidgetType
  | invalidColumnSize (value : String)
  | invalidOptionLine (line : Nat) (text : String)
  | reservedOptionKey (key : String)
  | duplicateKey (key place : String)
  | pathNotFound (path : String)
  | notAContainer (path : String)
  | indexOutOfRange (level : Level) (index length : Nat)
  | emptyDocument
  | templateNotFound (name : String)
  | templateWithoutPages (name : String)
  | notAMapping
  | missingPages
  | malformedYaml
  | file (path : String) (fault : Files.Fault)
deriving DecidableEq, Repr

namespace Error

/-- The wording of an error.  What a YAML reader has to say is not part of
it. -/
def message : Error → String
  | emptyName => "Page name cannot be empty"
  | missingWidgetType => "Widget type is required"
  | invalidColumnSize value =>
    "Invalid column size '" ++ value ++ "': columns must be either 'small' or 'full'"
  | invalidOptionLine line text =>
    "Invalid option on line " ++ toString line ++ ": '" ++ text ++ "' (expected key=value)"
  | reservedOptionKey key =>
    "'" ++ key ++ "' is a reserved widget field and cannot be used as an option"
  | duplicateKey key place => "Duplicate key '" ++ key ++ "' at " ++ place
  | pathNotFound path => "Option path not found: " ++ path
  | notAContainer path => "Cannot step into a scalar at " ++ path
  | indexOutOfRange level index length =>
    "No " ++ level.name ++ " at index " ++ toString index ++ " (have " ++ toString length ++ ")"
  | emptyDocument => "Add at least one page before saving"
  | templateNotFound name => "Template '" ++ name ++ "' not found"
  | templateWithoutPages name => "Template '" ++ name ++ "' does not contain a pages list"
  | notAMapping => "Invalid configuration: not a mapping root"
  | missingPages => "Invalid configuration: missing pages list"
  | malformedYaml => "YAML error: "
  | file path fault => "I/O error on " ++ Text.quoted path ++ ": " ++ fault.message

/-- Faults of what was typed, which a dialog hands back for correction. -/
def isUserInput : Error → Bool
  | emptyName | missingWidgetType | invalidColumnSize _ | invalidOptionLine ..
  | reservedOptionKey _ | duplicateKey .. => true
  | _ => false

end Error

end Dashboard
