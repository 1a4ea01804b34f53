import Dashboard.Config
import Dashboard.Error

/-!
# What a command reports when it fails

A failure is a chain of messages: what was being done, and below it why it did
not work.  At the end of a command the chain is written over several lines; in
a session it is one line.
-/

namespace Dashboard

/-- Why a command failed. -/
inductive Trouble where
  | message (text : String)
  | refused (e : Error)
  | file (fault : Files.Fault)
  | settings (fault : Config.Fault)
  /-- A question could not be asked. -/
  | terminal (reason : String)
  | within (context : String) (cause : Trouble)
deriving DecidableEq

namespace Trouble

/-- The cause below an error, if it has one of its own. -/
def errorCauses : Error → List String
  | .file _ fault => [fault.message]
  | .malformedYaml => ["not a YAML document"]
  | _ => []

/-- The cause below a fault of the settings. -/
def settingsCause : Config.Fault → String
  | .unreadable _ fault => fault.message
  | .invalid => "not a table of settings"

/-- The messages, the outermost first. -/
def chain : Trouble → List String
  | message text => [text]
  | refused e => e.message :: errorCauses e
  | file fault => [fault.message]
  | settings fault => [fault.message, settingsCause fault]
  | terminal reason => ["IO error: " ++ reason, reason]
  | within context cause => context :: cause.chain

/-- The chain on one line. -/
def line (t : Trouble) : String :=
  String.intercalate ": " t.chain

/-- A message whose further lines are indented. -/
def indented (blanks text : String) : String :=
  String.intercalate ("\n" ++ blanks) (text.splitOn "\n")

/-- The lines of the causes, numbered when there are several. -/
def causeLines (causes : List String) : List String :=
  match causes with
  | [cause] => ["    " ++ indented "    " cause]
  | causes =>
    causes.zipIdx.map fun (cause, i) =>
      let number := toString i
      String.ofList (List.replicate (5 - number.length) ' ') ++ number ++ ": " ++
        indented "       " cause

/-- What is written at the end of a command that failed. -/
def report (t : Trouble) : String :=
  match t.chain with
  | [] => "Error\n"
  | [only] => "Error: " ++ only ++ "\n"
  | first :: causes =>
    "Error: " ++ first ++ "\n\nCaused by:\n" ++
      String.intercalate "\n" (causeLines causes) ++ "\n"

end Trouble

end Dashboard
