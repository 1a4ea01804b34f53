import Dashboard.Path.Tree

/-!
# Widgets

A widget has a type, an optional title and options.  Type and title are fields
of their own, so no option may take their names.  Options are read and changed
at paths; an operation that is refused leaves the widget as it was, because
its result is a new widget.
-/

namespace Dashboard

/-- A widget of a column. -/
structure Widget where
  type : String
  title : Option String := none
  options : Mapping := []
deriving DecidableEq, Inhabited

namespace Widget

/-- The names that a widget carries as fields. -/
def reservedKeys : List String :=
  ["type", "title"]

/-- A widget with this type, blanks around it apart, no title and no options. -/
def ofType (type : String) : Except Error Widget :=
  let type := Text.trim type
  if type.isEmpty then .error .missingWidgetType else .ok { type := type }

/-- A title as it is kept: without blanks around it, and a blank one not at
all. -/
def keptTitle (title : Option String) : Option String :=
  (title.map Text.trim).filter fun t => !t.isEmpty

/-- Set or remove the title. -/
def setTitle (w : Widget) (title : Option String) : Widget :=
  { w with title := keptTitle title }

/-- The title, or the type of a widget without one. -/
def label (w : Widget) : String :=
  w.title.getD w.type

/-- A path that addresses an option of a reserved name itself is refused. -/
def checkReserved : Path → Except Error Unit
  | [.key name] =>
    if reservedKeys.contains name then .error (.reservedOptionKey name) else .ok ()
  | _ => .ok ()

/-- The option tree: the options as one mapping. -/
def tree (w : Widget) : Value :=
  .map w.options

/-- The widget with a changed option tree; only a mapping is one. -/
def withTree (w : Widget) : Value → Widget
  | .map options => { w with options }
  | _ => w

/-- A path text seen from a node, as seen from the root that has the node under
the name `head`. -/
def rebasedPath (head rest : String) : String :=
  if rest = "<root>" then head
  else if rest.toList.head? = some '[' then head ++ rest
  else head ++ "." ++ rest

/-- An error of a path seen from a node, as seen from the root. -/
def rebased (head : String) : Error → Error
  | .pathNotFound rest => .pathNotFound (rebasedPath head rest)
  | .notAContainer rest => .notAContainer (rebasedPath head rest)
  | e => e

/-- The option at a path. -/
def getOption (w : Widget) : Path → Except Error Value
  | .key name :: p =>
    match Entries.get? w.options name with
    | none => .error (.pathNotFound (Path.text [.key name]))
    | some v => (v.resolve p).mapError (rebased (Path.text [.key name]))
  | p => .error (.pathNotFound (Path.text p))

/-- Insert a new option, or a new node inside one. -/
def insertOption (w : Widget) (p : Path) (v : Value) : Except Error Widget := do
  checkReserved p
  return w.withTree (← w.tree.insertAt p v)

/-- Replace an existing option or a node inside one: the old node and the
widget. -/
def setOption (w : Widget) (p : Path) (v : Value) : Except Error (Value × Widget) := do
  checkReserved p
  let (old, tree) ← w.tree.replaceAt p v
  return (old, w.withTree tree)

/-- Remove an option or a node inside one: the node and the widget. -/
def deleteOption (w : Widget) (p : Path) : Except Error (Value × Widget) := do
  let (old, tree) ← w.tree.removeAt p
  return (old, w.withTree tree)

/-- Add an option under a key. -/
def withOption (w : Widget) (key : String) (v : Value) : Except Error Widget :=
  w.insertOption [.key key] v

/-- The mapping that stands for a widget in a file: type, title, options. -/
def toValue (w : Widget) : Value :=
  let fields : Mapping := [("type", .str w.type)]
  let fields := match w.title with
    | some title => Entries.put fields "title" (.str title)
    | none => fields
  .map (Mapping.putAll fields w.options)

/-- The widget that a mapping stands for: none without a type that is a text
and not blank.  A title that is a scalar becomes its text. -/
def ofMapping? (m : Mapping) : Option Widget :=
  match Entries.get? m "type" with
  | some (.str type) =>
    match ofType type with
    | .ok w =>
      let rest := Entries.erase m "type"
      let title := match Entries.get? rest "title" with
        | none | some .null => none
        | some v => v.scalarText?
      some { w.setTitle title with options := Entries.erase rest "title" }
    | .error _ => none
  | _ => none

/-- Equality as data. -/
def same (v w : Widget) : Bool :=
  v.type == w.type && v.title == w.title && v.tree.same w.tree

end Widget

end Dashboard
