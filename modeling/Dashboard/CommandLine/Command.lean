import Dashboard.CommandLine.Arguments

/-!
# Commands

What the program can be asked to do.  The flag `--debug` and the option
`--reference` may stand at every level, and the deepest value counts.
-/

namespace Dashboard.CommandLine

/-- How lists and documents are printed. -/
inductive Format where
  | text
  | json
deriving DecidableEq, Repr

/-- What becomes of a formatted file. -/
inductive FormatGoal where
  | print
  | write (path : String)
  /-- Only say whether the file is formatted. -/
  | check
deriving DecidableEq, Repr

/-- What the program does. -/
inductive Command where
  | edit (file : Option String)
  | format (file : String) (goal : FormatGoal)
  | widgets (type : Option String) (format : Format)
  | templates (name : Option String) (format : Format)
  | docs (folder : Option String)
  | scrape (folder out : Option String)
  | initSettings (force : Bool)
  | showSettings
  | settingsPath
deriving DecidableEq, Repr

/-- The files that a command is given. -/
def Command.files : Command → List String
  | edit file => file.toList
  | format file (.write out) => [file, out]
  | format file _ => [file]
  | docs folder => folder.toList
  | scrape folder out => folder.toList ++ out.toList
  | widgets _ _ | templates _ _ | initSettings _ | showSettings | settingsPath => []

/-- The documentation folder that a command is given. -/
def Command.docsFolder? : Command → Option String
  | docs folder | scrape folder _ => folder
  | _ => none

/-- What holds for every command. -/
structure Globals where
  debug : Bool := false
  reference : Option String := none
deriving DecidableEq, Repr

/-- What is asked for on the command line. -/
inductive Request where
  | version
  | run (globals : Globals) (command : Command)
deriving DecidableEq, Repr

namespace Globals

/-- A level that understands what holds for every command, too. -/
def level (lv : Level) : Level :=
  { lv with
    flags := ⟨"debug", none⟩ :: lv.flags
    options := ("reference", .path) :: lv.options }

/-- The values with those of a deeper level. -/
def under (g : Globals) (given : Given) : Globals :=
  { debug := g.debug || given.has "debug"
    reference := given.option? "reference" <|> g.reference }

end Globals

namespace Request

/-- The option that chooses how to print. -/
def formatOption : String × ValueKind :=
  ("format", .word ["text", "json"])

/-- How to print, by default as text. -/
def formatOf (g : Given) : Format :=
  if g.option? "format" == some "json" then .json else .text

/-- The levels of the command line. -/
def root : Level :=
  Globals.level { hasCommands := true, hasVersion := true }

/-- The command for formatting that arguments ask for. -/
def formatCommand (g : Given) : Except Mistake Command :=
  match g.operand, g.option? "out", g.has "check" with
  | _, some _, true => .error (.conflict "check" "out")
  | none, _, _ => .error (.missingOperand "FILE")
  | some file, some out, false => .ok (.format file (.write out))
  | some file, none, true => .ok (.format file .check)
  | some file, none, false => .ok (.format file .print)

/-- Read the arguments of a command that has none below it. -/
def readLast (globals : Globals) (lv : Level) (command : Given → Except Mistake Command)
    (args : List String) : Except Mistake Request := do
  match ← (Globals.level lv).take {} args with
  | .version => return .version
  | .all g => return .run (globals.under g) (← command g)
  | .command _ word _ => throw (.unknownCommand word)

/-- Read what follows `config`. -/
def readSettings (globals : Globals) (args : List String) : Except Mistake Request := do
  match ← (Globals.level { hasCommands := true }).take {} args with
  | .version => return .version
  | .all _ => throw .missingCommand
  | .command g word rest =>
    let globals := globals.under g
    match word with
    | "init" =>
      readLast globals { flags := [⟨"force", some 'f'⟩] }
        (fun g => .ok (.initSettings (g.has "force"))) rest
    | "show" => readLast globals {} (fun _ => .ok .showSettings) rest
    | "path" => readLast globals {} (fun _ => .ok .settingsPath) rest
    | _ => throw (.unknownCommand word)

/-- Read what follows a command. -/
def readCommand (globals : Globals) (word : String) (args : List String) :
    Except Mistake Request :=
  match word with
  | "edit" =>
    readLast globals { operand := some .path } (fun g => .ok (.edit g.operand)) args
  | "fmt" =>
    readLast globals
      { flags := [⟨"check", none⟩], options := [("out", .path)], operand := some .path }
      formatCommand args
  | "widgets" =>
    readLast globals { options := [formatOption], operand := some .text }
      (fun g => .ok (.widgets g.operand (formatOf g))) args
  | "templates" =>
    readLast globals { options := [formatOption], operand := some .text }
      (fun g => .ok (.templates g.operand (formatOf g))) args
  | "docs" =>
    readLast globals { options := [("docs", .path)] }
      (fun g => .ok (.docs (g.option? "docs"))) args
  | "scrape" =>
    readLast globals { options := [("docs", .path), ("out", .path)] }
      (fun g => .ok (.scrape (g.option? "docs") (g.option? "out"))) args
  | "config" => readSettings globals args
  | _ => .error (.unknownCommand word)

/-- Read the arguments of the program. -/
def read (args : List String) : Except Mistake Request := do
  match ← root.take {} args with
  | .version => return .version
  | .all _ => throw .missingCommand
  | .command g word rest => readCommand (({} : Globals).under g) word rest

end Request

end Dashboard.CommandLine
