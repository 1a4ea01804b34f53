import Dashboard.CommandLine.Perform

/-!
# Running the program

The program is started with arguments in some surroundings.  It ends with 0 if
all went well, with 1 if a command failed, and with 2 if the arguments were not
understood.
-/

namespace Dashboard.CommandLine

/-- What the program is started in. -/
structure Surroundings where
  env : Environment
  /-- The filter for the log that the environment names. -/
  log : Option String := none
  /-- There is a terminal to ask questions on. -/
  interactive : Bool := false
  files : Files
  answers : List Answer := []

/-- What the program leaves behind. -/
structure Outcome where
  exit : Nat
  shell : Shell

/-- The line that tells the version. -/
def versionLine : String :=
  "glancectl 0.1.0"

/-- The filter of the log: the one that is named if it is one, otherwise warnings, or
with `--debug` all but the finest events. -/
def filterOf (log : Option String) (debug : Bool) : Log.Filter :=
  (log.bind Log.Filter.read?).getD (.upTo (if debug then .debug else .warn))

/-- The shell for a command. -/
def Surroundings.shell (s : Surroundings) (debug : Bool) : Shell :=
  { env := s.env, filter := filterOf s.log debug, showSource := debug
    interactive := s.interactive, files := s.files, answers := s.answers }

/-- Run the program. -/
def run (s : Surroundings) (args : List String) : Outcome :=
  match Request.read args with
  | .error m => ⟨2, (s.shell false).complain ("error: " ++ m.message)⟩
  | .ok .version => ⟨0, (s.shell false).say versionLine⟩
  | .ok (.run globals command) =>
    match (Task.perform globals.reference command).run (s.shell globals.debug) with
    | (.ok (), shell) => ⟨0, shell⟩
    | (.error t, shell) => ⟨1, shell.fail t⟩

/-- The files that a command may look at, given the settings. -/
def filesOf (env : Environment) (c : Config) (globals : Globals) (command : Command) :
    List String :=
  let folder := command.docsFolder?.getD c.docsFolder
  command.files ++
  [c.referencePath env globals.reference, c.outputPath] ++
  [Docs.configDoc, Docs.pagesDoc, Docs.sampleFile, Docs.outputFile].map (Files.joined folder)

end Dashboard.CommandLine
