import Dashboard.CommandLine.Run
import Dashboard.Shell.Typed

/-!
# The program

Loads the files that a command may look at, runs the command on them, writes
what it printed and the files it changed.  A session is run anew with each
further answer: it comes to the same questions again, and then to the next one.
-/

namespace Dashboard.Program

open CommandLine

/-- The path of a place. -/
def pathOf : Files.Place → String
  | "/" :: rest => "/" ++ String.intercalate "/" rest
  | place => String.intercalate "/" place

/-- What the file system has at a path. -/
def nodeAt? (path : String) : IO (Option Files.Node) := do
  try
    let bytes ← IO.FS.readBinFile path
    return some ((String.fromUTF8? bytes).elim .binary .text)
  catch
    | .inappropriateType .. => return some .folder
    | _ => return none

/-- Load what is on the way of some parts. -/
def loadParts (fs : Files) (place : Files.Place) : List String → IO Files
  | [] => return fs
  | part :: rest => do
    let next := Files.enter place part
    if Files.isBase next then loadParts fs next rest
    else
      match ← nodeAt? (pathOf next) with
      | some node => loadParts (fs.setNode next node) next rest
      | none => return fs

/-- Load what is on the way of a path and at its end. -/
def loadPath (fs : Files) (path : String) : IO Files :=
  loadParts fs (if Files.isAbsolute path then ["/"] else []) (Files.parts path)

/-- Load the settings and the files that the arguments may lead to. -/
def loadFiles (env : Environment) (args : List String) : IO Files := do
  let fs ← loadPath {} (Config.path env)
  match Request.read args with
  | .ok (.run globals command) =>
    let c := (Config.load env fs).toOption.getD {}
    (filesOf env c globals command).foldlM loadPath fs
  | _ => return fs

/-- Write what differs from the files before. -/
def store (old new : Files) : IO Unit :=
  new.nodes.forM fun (place, node) => do
    if old.node? place ≠ some node then
      match node with
      | .folder => IO.FS.createDirAll (pathOf place)
      | .text content => IO.FS.writeFile (pathOf place) content
      | .binary => return

/-- Write to both outputs. -/
def printBoth (out err : String) : IO Unit := do
  (← IO.getStdout).putStr out
  (← IO.getStdout).flush
  (← IO.getStderr).putStr err

/-- Ask a question on the terminal. -/
def ask (q : Question) : IO Answer := do
  printBoth q.asText ""
  let line ← (← IO.getStdin).getLine
  if line.isEmpty then return .interrupt
  return q.typed (String.ofList (line.toList.filter fun c => c ≠ '\n' ∧ c ≠ '\r'))

/-- Run the program with the answers so far, and ask on until it ends. -/
partial def converse (s : Surroundings) (args loaded : List String) : IO Nat := do
  let r := run s args
  store s.files r.shell.files
  match r.shell.exchanges.reverse[s.answers.length]? with
  | none =>
    printBoth r.shell.outText r.shell.errText
    return r.exit
  | some e =>
    printBoth e.out e.err
    let a ← ask e.question
    let paths := a.text?.toList.filter fun path => !loaded.contains path
    let files ← paths.foldlM loadPath s.files
    converse { s with files, answers := s.answers ++ [a] } args (paths ++ loaded)

end Dashboard.Program

open Dashboard Dashboard.Program in
/-- The program. -/
def main (args : List String) : IO UInt32 := do
  let env : Environment :=
    { home := (← IO.getEnv "HOME").getD ""
      referenceData := ← IO.getEnv "GLANCECTL_REFERENCE_DATA" }
  let files ← loadFiles env args
  let interactive ← (← IO.getStdin).isTty
  let s : CommandLine.Surroundings :=
    { env, log := ← IO.getEnv "GLANCECTL_LOG", interactive, files }
  return (← converse s args []).toUInt32
