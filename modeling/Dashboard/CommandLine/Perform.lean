import Dashboard.CommandLine.Command
import Dashboard.Docs
import Dashboard.Document.LoadEvents
import Dashboard.Json.Printer
import Dashboard.Reference.Events
import Dashboard.Session.Run

/-!
# What the commands do

A command acts on the shell and may fail.  The settings are read first by every
command that needs a file which is not on the command line.
-/

namespace Dashboard.CommandLine

/-- Something that is done on the shell and may fail. -/
abbrev Task := ExceptT Trouble (StateM Shell)

namespace Task

/-- Write a line to the output. -/
def say (text : String) : Task Unit :=
  modify fun s => s.say text

/-- Write a line to the output for errors. -/
def complain (text : String) : Task Unit :=
  modify fun s => s.complain text

/-- Tell the log. -/
def tell (events : List Log.Event) : Task Unit :=
  modify fun s => s.noteAll events

/-- The value of a result; its error, as a failure within a context. -/
def ofFile {α : Type} (context : String) (r : Except Files.Fault α) : Task α :=
  match r with
  | .ok a => return a
  | .error fault => throw (.within context (.file fault))

/-- The value of a result; its error, as a failure within a context. -/
def ofResult {α : Type} (context : String) (r : Except Error α) : Task α :=
  match r with
  | .ok a => return a
  | .error e => throw (.within context (.refused e))

/-- The settings of the user. -/
def settings : Task Config := do
  let s ← get
  match Config.load s.env s.files with
  | .ok c => return c
  | .error fault => throw (.settings fault)

/-- Where the events of the commands come from. -/
def source : String :=
  "glancectl::commands"

/-- Reference data is about to be read. -/
def loading (path : String) : Log.Event :=
  { severity := .debug, source, message := "loading reference data", fields := [("path", path)] }

/-- The reference data; a warning is written when there is none. -/
def reference (c : Config) (override : Option String) : Task Reference := do
  let s ← get
  let path := c.referencePath s.env override
  let r := Reference.load s.files path
  tell (loading path :: Reference.loadEvents s.files path)
  if r.isEmpty then
    complain ("⚠️  No reference data at " ++ path ++ "; run `glancectl scrape` to build it")
  return r

/-! ## Formatting -/

/-- A file was formatted. -/
def formatted (file out : String) (pages : Nat) : Log.Event :=
  { severity := .info, source := "glancectl::commands::fmt"
    message := "formatted " ++ file ++ " -> " ++ out ++ " (" ++ toString pages ++ " pages)" }

/-- Bring a file into its normal form, or say whether it is in it. -/
def format (file : String) (goal : FormatGoal) : Task Unit := do
  let text ← ofFile ("Failed to read " ++ file) ((← get).files.read file)
  tell (Document.parseEvents text)
  let d ← ofResult ("Failed to load " ++ file) (Document.parse text)
  match goal with
  | .print => modify fun s => s.write d.renderFile
  | .write out =>
    let files ← ofFile ("Failed to write " ++ out) ((← get).files.write out d.renderFile)
    modify fun s => { s with files }
    tell [formatted file out d.pages.length]
  | .check =>
    if d.renderFile == text then say ("✅ " ++ file ++ " is formatted")
    else throw (.message (file ++ " is not formatted"))

/-! ## Reference data -/

/-- A text filled up with blanks to a width. -/
def padded (width : Nat) (text : String) : String :=
  text ++ String.ofList (List.replicate (width - text.length) ' ')

/-- The entry of a type in the list of widgets. -/
def typeLine (r : Reference) (type : String) : String :=
  match r.doc? type with
  | some d => padded 20 type ++ " " ++ d.displayName
  | none => type

/-- The entry of a template in the list. -/
def templateLine (t : Template) : String :=
  match t.requires with
  | some version => t.name ++ " (requires Glance " ++ version ++ ")"
  | none => t.name

/-- The documentation of a widget as lines. -/
def docLines (d : WidgetDoc) : List String :=
  [d.displayName ++ " (" ++ d.type ++ ")\n", d.markdown] ++
  match d.example? with
  | some v => ["\nExample:\n", Render.blockText 0 (.seq [v])]
  | none => []

/-- Print a value as JSON. -/
def sayJson (v : Value) : Task Unit :=
  say (Json.prettyText v)

/-- List the types of widgets, or show the documentation of one. -/
def widgets (type? : Option String) (how : Format) (override : Option String) : Task Unit := do
  let r ← reference (← settings) override
  match type?.map Text.trim with
  | none =>
    match how with
    | .json => sayJson (.seq (r.types.map .str))
    | .text => r.types.forM fun type => say (typeLine r type)
  | some type =>
    match r.doc? type with
    | none => throw (.message ("Unknown widget type: " ++ type))
    | some d =>
      match how with
      | .json => sayJson d.toValue
      | .text => (docLines d).forM say

/-- List the templates, or print one. -/
def templates (name? : Option String) (how : Format) (override : Option String) :
    Task Unit := do
  let r ← reference (← settings) override
  match name?.map Text.trim with
  | none =>
    match how with
    | .json => sayJson (.seq (r.templates.map Template.toValue))
    | .text => r.templates.forM fun t => say (templateLine t)
  | some name =>
    match r.template? name with
    | none => throw (.message ("Unknown template: " ++ name))
    | some t =>
      match how with
      | .json => sayJson t.toValue
      | .text => say t.yaml

/-! ## The documentation -/

/-- Show the quick reference. -/
def docs (folder? : Option String) : Task Unit := do
  let c ← settings
  let folder := folder?.getD c.docsFolder
  let files := (← get).files
  tell (Docs.quickReferenceEvents files folder)
  let q := Docs.quickReference files folder
  if q.isEmpty then
    complain ("⚠️  No Glance docs found in " ++ folder ++ "; pass --docs or set docs_dir")
  else say (Text.trimEnd q.text)

/-- Build the reference data from the documentation. -/
def scrape (folder? out? : Option String) : Task Unit := do
  let c ← settings
  let folder := folder?.getD c.docsFolder
  let out := out?.getD (Files.joined folder Docs.outputFile)
  let s ← get
  tell (Docs.scrapeEvents s.files folder)
  let r := Docs.scrapeFolder s.files folder
  let files ← ofResult ("Failed to write reference data to " ++ out)
    (Docs.writeReference s.files out r)
  modify fun s => { s with files }
  tell [Docs.written out]
  say ("Wrote " ++ out ++ " with " ++ toString r.docs.length ++ " widgets and " ++
    toString r.templates.length ++ " templates.")

/-! ## Settings -/

/-- What is printed when the settings file was made. -/
def createdLines (quotedPath : String) : List String :=
  ["✅ Created config at: " ++ quotedPath,
    "\nNext steps:",
    "  1. Edit the config: $EDITOR " ++ quotedPath,
    "  2. Point docs_dir at a Glance checkout's docs/ directory",
    "  3. Run: glancectl scrape"]

/-- Make a settings file to start from; one that is there stays unless forced. -/
def initSettings (force : Bool) : Task Unit := do
  let s ← get
  let path := Config.path s.env
  let quotedPath := Text.quoted path
  if s.files.has path && !force then
    throw (.message ("Config already exists at " ++ quotedPath ++
      "\n\nUse --force to overwrite"))
  let folder := Config.folder s.env
  let files ← ofFile ("Failed to create " ++ folder) (s.files.makeFolder folder)
  modify fun s => { s with files }
  let files ← ofFile ("Failed to write config file: " ++ quotedPath)
    (files.write path Config.template)
  modify fun s => { s with files }
  (createdLines quotedPath).forM say

/-- Show the settings, and what follows from them. -/
def showSettings (override : Option String) : Task Unit := do
  let c ← settings
  let lines := c.lines
  if !lines.isEmpty then
    lines.forM say
    say ""
  say "# effective values"
  say ("# reference data: " ++ c.referencePath (← get).env override)
  say ("# docs dir:       " ++ c.docsFolder)
  say ("# save path:      " ++ c.outputPath)

/-- Show where the settings file lies. -/
def settingsPath : Task Unit := do
  say (Config.path (← get).env)

/-! ## Editing -/

/-- Load a file if it exists, and run the session. -/
def openSession (file? : Option String) (d : Desk) : Except Trouble Unit × Desk :=
  match file?.filter d.shell.files.has with
  | none => Session.run d
  | some file =>
    match (Session.openFile file).run d with
    | (.ok (), d) => Session.run d
    | (.error t, d) => (.error t, d)

/-- Edit a document in a session on the terminal. -/
def edit (file? : Option String) (override : Option String) : Task Unit := do
  if !(← get).interactive then
    throw (.message
      "`glancectl edit` needs an interactive terminal; use `glancectl fmt` in scripts")
  let c ← settings
  let r ← reference c override
  let session := Session.start (Editor.ofReference r) (file?.getD c.outputPath)
  ExceptT.mk fun shell =>
    let (result, d) := openSession file? { session, shell }
    (result, d.shell)

/-- Do what a command asks for. -/
def perform (override : Option String) : Command → Task Unit
  | .edit file => edit file override
  | .format file goal => format file goal
  | .widgets type how => widgets type how override
  | .templates name how => templates name how override
  | .docs folder => docs folder
  | .scrape folder out => scrape folder out
  | .initSettings force => initSettings force
  | .showSettings => showSettings override
  | .settingsPath => settingsPath

end Task

end Dashboard.CommandLine
