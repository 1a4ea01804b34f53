import Dashboard.Path.Basic
import Dashboard.Value.Basic

/-!
# Reading and changing a tree at a path

`resolve` follows a path, and the three changes act on the node it addresses:
a new node is inserted without overwriting, an existing one is replaced or
removed.  A step that leads nowhere is reported with the path up to it, and a
step into a scalar with the path of the scalar.
-/

namespace Dashboard

namespace Value

/-- One step into a container. -/
def child? : Value → Step → Option Value
  | .map entries, .key name => Entries.get? entries name
  | .seq items, .index i => items[i]?
  | _, _ => none

/-- The error of a step that leads nowhere, after the steps `before`. -/
def stepError (v : Value) (before : Path) (step : Step) : Error :=
  if v.isContainer then .pathNotFound (Path.text (before ++ [step]))
  else .notAContainer (Path.text before)

/-- Follow a path from a node that lies after the steps `before`. -/
def resolveFrom (before : Path) (v : Value) : Path → Except Error Value
  | [] => .ok v
  | step :: p =>
    match v.child? step with
    | some w => resolveFrom (before ++ [step]) w p
    | none => .error (v.stepError before step)

/-- The node at a path. -/
def resolve (root : Value) (p : Path) : Except Error Value :=
  resolveFrom [] root p

/-- Put a changed child back in place of the one it was. -/
def withChild (v : Value) (step : Step) (w : Value) : Value :=
  match v, step with
  | .map entries, .key name => .map (Entries.put entries name w)
  | .seq items, .index i => .seq (items.set i w)
  | v, _ => v

/-- Change the node at a path by an operation that may be refused. -/
def alterFrom {α : Type} (op : Value → Except Error (α × Value)) (before : Path) (v : Value) :
    Path → Except Error (α × Value)
  | [] => op v
  | step :: p =>
    match v.child? step with
    | some w =>
      match alterFrom op (before ++ [step]) w p with
      | .ok (a, w) => .ok (a, v.withChild step w)
      | .error e => .error e
    | none => .error (v.stepError before step)

/-- Change the node at a path from the root. -/
def alter {α : Type} (root : Value) (p : Path) (op : Value → Except Error (α × Value)) :
    Except Error (α × Value) :=
  alterFrom op [] root p

/-- Insert a child.  A key must be new, and an index at most the length. -/
def insertChild (parent : Path) (step : Step) (w : Value) : Value → Except Error (Unit × Value)
  | .map entries =>
    match step with
    | .key name =>
      if Entries.has entries name then .error (.duplicateKey name (Path.text parent))
      else .ok ((), .map (Entries.put entries name w))
    | .index _ => .error (.pathNotFound (Path.text (parent ++ [step])))
  | .seq items =>
    match step with
    | .index i =>
      if items.length < i then .error (.pathNotFound (Path.text (parent ++ [step])))
      else .ok ((), .seq (items.insertIdx i w))
    | .key _ => .error (.pathNotFound (Path.text (parent ++ [step])))
  | _ => .error (.notAContainer (Path.text parent))

/-- Remove a child. -/
def removeChild (parent : Path) (step : Step) (v : Value) : Except Error (Value × Value) :=
  match v.child? step with
  | none => .error (v.stepError parent step)
  | some w =>
    match v, step with
    | .map entries, .key name => .ok (w, .map (Entries.erase entries name))
    | .seq items, .index i => .ok (w, .seq (items.eraseIdx i))
    | v, _ => .error (v.stepError parent step)

/-- The parent and the last step of a path; the root has neither. -/
def splitLast : Path → Except Error (Path × Step)
  | [] => .error (.pathNotFound (Path.text []))
  | step :: p => .ok ((step :: p).dropLast, (step :: p).getLast (by simp))

/-- Insert a new node at a path. -/
def insertAt (root : Value) (p : Path) (w : Value) : Except Error Value := do
  let (parent, step) ← splitLast p
  return (← root.alter parent (insertChild parent step w)).2

/-- Replace the node at a path: the old one, and the changed tree. -/
def replaceAt (root : Value) (p : Path) (w : Value) : Except Error (Value × Value) := do
  let _ ← splitLast p
  root.alter p fun old => .ok (old, w)

/-- Remove the node at a path: the node, and the changed tree. -/
def removeAt (root : Value) (p : Path) : Except Error (Value × Value) := do
  let (parent, step) ← splitLast p
  root.alter parent (removeChild parent step)

end Value

end Dashboard
