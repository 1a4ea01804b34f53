/-!
# Path texts

A path of the file system is written with slashes between its parts.  Joining
puts a relative path behind a base, and a leading part `~` stands for the home
folder.
-/

namespace Dashboard.Files

/-- The characters of the parts of a path; two slashes enclose an empty part. -/
def splitParts : List Char → List (List Char)
  | [] => [[]]
  | c :: cs =>
    if c == '/' then [] :: splitParts cs
    else
      match splitParts cs with
      | [] => [[c]]
      | p :: ps => (c :: p) :: ps

/-- The parts of a path. -/
def parts (path : String) : List String :=
  (splitParts path.toList).map String.ofList

/-- Parts that lead nowhere else. -/
def isIdle (part : String) : Bool :=
  part == "" || part == "."

/-- A path starts at the root of the file system. -/
def isAbsolute (path : String) : Bool :=
  path.toList.head? == some '/'

/-- A path seen from a base. -/
def joined (base path : String) : String :=
  if isAbsolute path then path
  else if base.isEmpty || base.toList.getLast? == some '/' then base ++ path
  else base ++ "/" ++ path

/-- Parts without the idle ones at both ends. -/
def trimParts (ps : List String) : List String :=
  ((ps.dropWhile isIdle).reverse.dropWhile isIdle).reverse

/-- A path with a leading part `~` replaced by the home folder. -/
def expandHome (home path : String) : String :=
  match parts path with
  | "~" :: rest => joined home (String.intercalate "/" (trimParts rest))
  | _ => path

end Dashboard.Files
