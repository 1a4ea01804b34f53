import Dashboard.Files.Store
import Dashboard.Text.Blank
import Dashboard.Text.Quoted
import Dashboard.Toml.Reader

/-!
# Settings

The settings file lies in the home folder.  It may name the reference file, the
documentation folder and the file that is saved to; a leading part `~` is the
home folder.  Without a settings file every setting has its default, and
settings that are not known are passed over.
-/

namespace Dashboard

/-- What the program knows of its surroundings. -/
structure Environment where
  home : String
  /-- The reference file that the environment names. -/
  referenceData : Option String := none
deriving DecidableEq, Repr

/-- The settings that a file gives. -/
structure Config where
  referenceData : Option String := none
  docsDir : Option String := none
  defaultOutput : Option String := none
deriving DecidableEq, Repr

namespace Config

/-- Why settings cannot be read. -/
inductive Fault where
  | unreadable (path : String) (fault : Files.Fault)
  | invalid
deriving DecidableEq, Repr

/-- The folder of the settings file. -/
def folder (env : Environment) : String :=
  Files.joined env.home ".glancectl"

/-- Where the settings file lies. -/
def path (env : Environment) : String :=
  Files.joined (folder env) "config.toml"

/-- A setting that must be a text if it is there. -/
def setting? (t : Toml.Table) (key : String) : Except Fault (Option String) :=
  match Entries.get? t key with
  | none => .ok none
  | some (.text s) => .ok (some s)
  | some _ => .error .invalid

/-- The settings in the text of a file, with the home folder filled in. -/
def parse (env : Environment) (text : String) : Except Fault Config := do
  let some t := Toml.read? text | .error .invalid
  let expand := Option.map (Files.expandHome env.home)
  return {
    referenceData := expand (← setting? t "reference_data")
    docsDir := expand (← setting? t "docs_dir")
    defaultOutput := expand (← setting? t "default_output") }

/-- The settings in a file, or the defaults if there is none. -/
def loadFrom (env : Environment) (fs : Files) (path : String) : Except Fault Config :=
  if fs.has path then
    match fs.read path with
    | .ok text => parse env text
    | .error fault => .error (.unreadable path fault)
  else .ok {}

/-- The settings of the user. -/
def load (env : Environment) (fs : Files) : Except Fault Config :=
  loadFrom env fs (path env)

/-- The documentation folder. -/
def docsFolder (c : Config) : String :=
  c.docsDir.getD "docs"

/-- The reference file: the one of the command line, of the environment, of the
settings, or the one in the documentation folder. -/
def referencePath (c : Config) (env : Environment) (override : Option String) : String :=
  match override, env.referenceData.map Text.trim with
  | some path, _ => path
  | none, some path => if path.isEmpty then fromFile else Files.expandHome env.home path
  | none, none => fromFile
where
  /-- What the settings say. -/
  fromFile : String :=
    c.referenceData.getD (Files.joined c.docsFolder "reference_data.json")

/-- The file that is saved to. -/
def outputPath (c : Config) : String :=
  c.defaultOutput.getD "glance.yml"

/-- The lines of the settings that are given. -/
def lines (c : Config) : List String :=
  [("reference_data", c.referenceData), ("docs_dir", c.docsDir),
    ("default_output", c.defaultOutput)].filterMap fun (key, v) =>
      v.map fun s => key ++ " = " ++ Toml.quoted s

/-- The settings file to start from, with every setting in a comment. -/
def template : String :=
  "# glancectl configuration\n" ++
  "\n" ++
  "# Reference data produced by `glancectl scrape`\n" ++
  "# reference_data = \"~/glance/docs/reference_data.json\"\n" ++
  "\n" ++
  "# Directory containing configuration.md and preconfigured-pages.md\n" ++
  "# docs_dir = \"~/glance/docs\"\n" ++
  "\n" ++
  "# Where the editor saves by default\n" ++
  "# default_output = \"~/glance/glance.yml\"\n"

namespace Fault

/-- The wording of a fault. -/
def message : Fault → String
  | unreadable path _ => "Failed to read config file: " ++ Text.quoted path
  | invalid => "Failed to parse config file (invalid TOML)"

end Fault

end Config

end Dashboard
