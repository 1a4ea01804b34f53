import Dashboard.Yaml.Node
import Dashboard.Yaml.Typing

/-!
# The data of a document

Nodes become data: plain scalars get the type their text spells, aliases are
followed, and tags either check a scalar or, when they are local, stay around
the data.  Containers may be nested 128 deep, also through aliases; a document
may follow a hundred aliases for every node and end of a container; and no
mapping has two equal keys.
-/

namespace Dashboard.Yaml

/-- The data of a document. -/
inductive Datum where
  | scalar (s : Scalar)
  | seq (items : List Datum)
  | map (entries : List (Datum × Datum))
  | tagged (tag : String) (content : Datum)
deriving Inhabited

namespace Datum

/-- Equality of scalars as keys: NaN equals itself, and both zeros are equal. -/
def sameScalar : Scalar → Scalar → Bool
  | .float x, .float y => (x.isNaN && y.isNaN) || x.same y
  | s, t => decide (s = t)

mutual

/-- Equality of keys; the order of the entries of a mapping does not count. -/
def same : Datum → Datum → Bool
  | .scalar s, .scalar t => sameScalar s t
  | .seq a, .seq b => sameItems a b
  | .map a, .map b => a.length == b.length && sameEntries a b
  | .tagged s x, .tagged t y => s == t && same x y
  | _, _ => false

/-- Item by item. -/
def sameItems : List Datum → List Datum → Bool
  | [], [] => true
  | x :: xs, y :: ys => same x y && sameItems xs ys
  | _, _ => false

/-- Every entry has an equal one among the others. -/
def sameEntries : List (Datum × Datum) → List (Datum × Datum) → Bool
  | [], _ => true
  | (k, v) :: m, n => (n.any fun e => same k e.1 && same v e.2) && sameEntries m n

end

/-- A key that the entries have already. -/
def hasKey (entries : List (Datum × Datum)) (key : Datum) : Bool :=
  entries.any fun e => same key e.1

end Datum

namespace Node

mutual

/-- Nodes and ends of containers. -/
def eventCount : Node → Nat
  | .alias _ => 1
  | .scalar .. => 1
  | .seq _ items => 2 + eventCountItems items
  | .map _ entries => 2 + eventCountEntries entries

/-- Of the items together. -/
def eventCountItems : List Node → Nat
  | [] => 0
  | n :: ns => eventCount n + eventCountItems ns

/-- Of the entries together. -/
def eventCountEntries : List (Node × Node) → Nat
  | [] => 0
  | (k, v) :: m => eventCount k + eventCount v + eventCountEntries m

end

/-- The node itself, if it has an anchor. -/
def ownAnchor (p : Properties) (n : Node) : List (Nat × Node) :=
  match p.anchor with
  | some a => [(a, n)]
  | none => []

mutual

/-- The anchored nodes with their numbers, in the order of the text. -/
def anchored : Node → List (Nat × Node)
  | .alias _ => []
  | .scalar p text plain => ownAnchor p (.scalar p text plain)
  | .seq p items => ownAnchor p (.seq p items) ++ anchoredItems items
  | .map p entries => ownAnchor p (.map p entries) ++ anchoredEntries entries

/-- Of the items together. -/
def anchoredItems : List Node → List (Nat × Node)
  | [] => []
  | n :: ns => anchored n ++ anchoredItems ns

/-- Of the entries together. -/
def anchoredEntries : List (Node × Node) → List (Nat × Node)
  | [] => []
  | (k, v) :: m => anchored k ++ (anchored v ++ anchoredEntries m)

end

/-- What an alias stands for, and how often aliases may still be followed. -/
structure Context where
  /-- Anchored nodes, the last one of a number first. -/
  targets : List (Nat × Node)

/-- Reading with a number of aliases that may still be followed. -/
abbrev Reading (α : Type) := StateT Nat Option α

/-- The node behind an alias, or the node itself; inside a tag only the node
itself still is. -/
def resolve (ctx : Context) (inTag : Bool) : Node → Reading (Bool × Node)
  | .alias a => fun budget =>
    match budget, ctx.targets.lookup a with
    | left + 1, some n => some ((false, n), left)
    | _, _ => none
  | n => pure (inTag, n)

/-- The tag of a node. -/
def tag? : Node → Option String
  | .alias _ => none
  | .scalar p .. | .seq p _ | .map p _ => p.tag

/-- A local tag: the part behind its mark, which stays when it stands alone. -/
def localTag? (tag : String) : Option String :=
  match tag.toList with
  | ['!'] => some "!"
  | '!' :: rest => some (String.ofList rest)
  | _ => none

/-- The tags that check a scalar begin with this text. -/
def coreTag (name : String) : String :=
  "tag:yaml.org,2002:" ++ name

/-- The data of a scalar, checked against its tag. -/
def scalar? (inTag : Bool) (tag : Option String) (text : String) (plain : Bool) :
    Option Scalar :=
  let cs := text.toList
  match if inTag then none else tag with
  | some t =>
    if t = coreTag "bool" then (Scalar.readBool? cs).map .bool
    else if t = coreTag "int" then
      match Scalar.ofInteger? cs with
      | some (some n) => some (.int n)
      | _ => none
    else if t = coreTag "float" then (Scalar.readDouble? cs).map .float
    else if t = coreTag "null" then if Scalar.isNullWord cs then some .null else none
    else some (.str text)
  | none => if plain then Scalar.ofPlain? cs else some (.str text)

/-- The entries after one more, whose key must be new. -/
def addEntry (key value : Node → Reading Datum) (done : List (Datum × Datum))
    (e : Node × Node) : Reading (List (Datum × Datum)) := do
  let k ← key e.1
  if Datum.hasKey done k then failure
  let v ← value e.2
  return done ++ [(k, v)]

/-- Data with a local tag around it, if there is one. -/
def withTag (tag : Option String) (content : Datum) : Datum :=
  match tag with
  | some t => .tagged t content
  | none => content

/-- The data of a node without its local tag.  `child` reads the nodes inside a
container; without it no container may be opened. -/
def content (child : Option (Bool → Node → Reading Datum)) (inTag : Bool) :
    Node → Reading Datum
  | .alias _ => failure
  | .scalar p text plain =>
    match scalar? inTag p.tag text plain with
    | some s => pure (.scalar s)
    | none => failure
  | .seq _ items =>
    match child with
    | some read => .seq <$> items.mapM (read false)
    | none => failure
  | .map _ entries =>
    match child with
    | some read => .map <$> entries.foldlM (addEntry (read inTag) (read false)) []
    | none => failure

/-- The data of a node or of what it is an alias of.  A node inside a local tag
does not get another one, and the keys of a mapping inside a tag do not
either. -/
def datumWith (ctx : Context) (child : Option (Bool → Node → Reading Datum)) (inTag : Bool)
    (n : Node) : Reading Datum := do
  let (inTag, n) ← resolve ctx inTag n
  let ownTag := if inTag then none else n.tag?.bind localTag?
  withTag ownTag <$> content child (inTag || ownTag.isSome) n

/-- The data of a node, with a number of containers that may be nested. -/
def datum (ctx : Context) : Nat → Bool → Node → Reading Datum
  | 0 => datumWith ctx none
  | depth + 1 => datumWith ctx (some (datum ctx depth))

/-- How many containers may be nested. -/
def maxDepth : Nat :=
  128

/-- The data of a document. -/
def datum? (n : Node) : Option Datum :=
  (datum ⟨n.anchored.reverse⟩ maxDepth false n (100 * n.eventCount)).map Prod.fst

end Node

end Dashboard.Yaml
