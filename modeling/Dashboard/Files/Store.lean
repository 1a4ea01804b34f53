import Dashboard.Files.Fault
import Dashboard.Files.PathText

/-!
# Files

What the program can see of the file system: folders, files that are texts,
and files that are not.  Reading, writing and making folders give the files
afterwards or a fault.  A path is followed part by part: on the way everything
must exist and be a folder, and a slash at the end asks for a folder.
-/

namespace Dashboard

namespace Files

/-- A place in the file system: the names on the way from the working folder, or
from the root for a place that starts with a slash. -/
abbrev Place := List String

/-- What is at a place. -/
inductive Node where
  | folder
  | text (content : String)
  | binary
deriving DecidableEq, Repr

end Files

/-- The places that hold something. -/
structure Files where
  nodes : List (Files.Place × Files.Node) := []
deriving DecidableEq, Repr

namespace Files

/-- The working folder, the folders above it and the root, which always exist. -/
def isBase (place : Place) : Bool :=
  place == ["/"] || place.all (· == "..")

/-- What is at a place, if anything. -/
def node? (fs : Files) (place : Place) : Option Node :=
  if isBase place then some .folder else fs.nodes.lookup place

/-- Put something at a place of a list of places. -/
def putNode : List (Place × Node) → Place → Node → List (Place × Node)
  | [], place, node => [(place, node)]
  | e :: es, place, node =>
    if e.1 = place then (place, node) :: es else e :: putNode es place node

/-- Put something at a place. -/
def setNode (fs : Files) (place : Place) (node : Node) : Files :=
  ⟨putNode fs.nodes place node⟩

/-- The folder above a place. -/
def above (place : Place) : Place :=
  if place == ["/"] then place
  else if place.all (· == "..") then place ++ [".."]
  else place.dropLast

/-- The place that a part leads to. -/
def enter (place : Place) (part : String) : Place :=
  if isIdle part then place else if part == ".." then above place else place ++ [part]

/-- How many bytes the name of a file may have. -/
def maxName : Nat :=
  255

/-- A place where a part may be looked up: a folder. -/
def needFolder (fs : Files) (place : Place) : Except Fault Unit :=
  match fs.node? place with
  | some .folder => .ok ()
  | some _ => .error .notDirectory
  | none => .error .notFound

/-- Follow parts from a folder on; what the last one leads to need not exist. -/
def follow (fs : Files) (place : Place) : List String → Except Fault Place
  | [] => .ok place
  | part :: rest => do
    fs.needFolder place
    if maxName < part.utf8ByteSize then .error .nameTooLong
    fs.follow (enter place part) rest

/-- Where a path starts, and its parts. -/
def start (path : String) : Except Fault (Place × List String) :=
  if path.toList.contains '\x00' then .error .nameHoldsNul
  else if path.isEmpty then .error .notFound
  else .ok (if isAbsolute path then ["/"] else [], parts path)

/-- What a path leads to. -/
def find (fs : Files) (path : String) : Except Fault Node := do
  let (base, ps) ← start path
  match fs.node? (← fs.follow base ps) with
  | some node => .ok node
  | none => .error .notFound

/-- Something is at a path. -/
def has (fs : Files) (path : String) : Bool :=
  (fs.find path).toBool

/-- The text of a file. -/
def read (fs : Files) (path : String) : Except Fault String := do
  match ← fs.find path with
  | .text content => .ok content
  | .folder => .error .isDirectory
  | .binary => .error .notText

/-- Parts without the empty ones at the end. -/
def unslashed (ps : List String) : List String :=
  (ps.reverse.dropWhile (· == "")).reverse

/-- Write a text to a file.  The folder must exist, and a path with a slash or
dots at its end never names a file. -/
def write (fs : Files) (path content : String) : Except Fault Files := do
  let (base, ps) ← start path
  let place ← fs.follow base (unslashed ps)
  if ps.getLast?.any fun p => isIdle p || p == ".." then .error .isDirectory
  else
    match fs.node? place with
    | some .folder => .error .isDirectory
    | _ => .ok (fs.setNode place (.text content))

/-- Make the folders on a way of places, those that exist apart. -/
def makeAll (fs : Files) (place : Place) : List String → Except Fault Files
  | [] => .ok fs
  | part :: rest =>
    let next := enter place part
    match fs.node? next with
    | some .folder => fs.makeAll next rest
    | some _ => .error (if rest.isEmpty then .exists else .notDirectory)
    | none => (fs.setNode next .folder).makeAll next rest

/-- Make a folder and those above it. -/
def makeFolder (fs : Files) (path : String) : Except Fault Files := do
  if path.isEmpty then .ok fs
  else
    let (base, ps) ← start path
    fs.makeAll base ps

theorem lookup_putNode (es : List (Place × Node)) (place : Place) (node : Node) :
    (putNode es place node).lookup place = some node := by
  induction es with
  | nil => simp [putNode]
  | cons e es ih =>
    by_cases h : e.1 = place
    · simp [putNode, h]
    · have hne : (place == e.1) = false := by simpa using fun h' => h h'.symm
      simp only [putNode, h, if_false]
      rw [show e = (e.1, e.2) from rfl, List.lookup_cons, hne]
      exact ih

/-- What was put at a place is there. -/
theorem node?_setNode {place : Place} (h : isBase place = false) (fs : Files) (node : Node) :
    (fs.setNode place node).node? place = some node := by
  simp [node?, h, setNode, lookup_putNode]

end Files

end Dashboard
