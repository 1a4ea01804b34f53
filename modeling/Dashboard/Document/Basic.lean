import Dashboard.Render.Value
import Dashboard.Widget.Basic

/-!
# The document

A dashboard configuration is a list of pages, each a list of columns, each a
list of widgets.  What a file holds besides is kept as settings and properties
without a meaning of its own.  `toValue` lays everything out as one value in
the order of the file, and `render` is its text.
-/

namespace Dashboard

/-- The two sizes of a column. -/
inductive ColumnSize where
  | small
  | full
deriving DecidableEq, Repr, Inhabited

namespace ColumnSize

/-- The word for a size. -/
def word : ColumnSize → String
  | .small => "small"
  | .full => "full"

/-- The sizes in the order they are offered. -/
def all : List ColumnSize :=
  [.small, .full]

/-- The size that a text names, blanks around it apart. -/
def read (text : String) : Except Error ColumnSize :=
  let text := Text.trim text
  if text = "small" then .ok .small
  else if text = "full" then .ok .full
  else .error (.invalidColumnSize text)

end ColumnSize

/-- A column of a page. -/
structure Column where
  size : ColumnSize := .small
  widgets : List Widget := []
  /-- The other keys of the column, as they were loaded. -/
  properties : Mapping := []
deriving DecidableEq, Inhabited

/-- A page of the dashboard. -/
structure Page where
  name : String
  columns : List Column := []
  /-- The other keys of the page, as they were loaded. -/
  properties : Mapping := []
deriving DecidableEq, Inhabited

/-- A dashboard configuration. -/
structure Document where
  pages : List Page := []
  /-- The other keys of the file, as they were loaded. -/
  settings : Mapping := []
deriving DecidableEq, Inhabited

namespace Column

/-- The mapping that stands for a column: size, properties, widgets. -/
def toValue (c : Column) : Value :=
  let m := Mapping.putAll [("size", .str c.size.word)] c.properties
  .map (Entries.put m "widgets" (.seq (c.widgets.map Widget.toValue)))

/-- Equality as data. -/
def same (c d : Column) : Bool :=
  c.size == d.size && c.widgets.length == d.widgets.length &&
  (c.widgets.zip d.widgets).all (fun p => p.1.same p.2) &&
  (Value.map c.properties).same (.map d.properties)

end Column

namespace Page

/-- The mapping that stands for a page: name, properties, columns. -/
def toValue (p : Page) : Value :=
  let m := Mapping.putAll [("name", .str p.name)] p.properties
  .map (Entries.put m "columns" (.seq (p.columns.map Column.toValue)))

/-- Equality as data. -/
def same (p q : Page) : Bool :=
  p.name == q.name && p.columns.length == q.columns.length &&
  (p.columns.zip q.columns).all (fun c => c.1.same c.2) &&
  (Value.map p.properties).same (.map q.properties)

end Page

namespace Document

/-- Without pages. -/
def isEmpty (d : Document) : Bool :=
  d.pages.isEmpty

/-- The widgets of all columns of all pages. -/
def widgetCount (d : Document) : Nat :=
  ((d.pages.flatMap Page.columns).map fun c => c.widgets.length).foldr (· + ·) 0

/-- The document as one value in the order of the file: settings, then pages. -/
def toValue (d : Document) : Value :=
  .map (Entries.put d.settings "pages" (.seq (d.pages.map Page.toValue)))

/-- Equality as data. -/
def same (d e : Document) : Bool :=
  d.pages.length == e.pages.length &&
  (d.pages.zip e.pages).all (fun p => p.1.same p.2) &&
  (Value.map d.settings).same (.map e.settings)

/-- The text of the document without a line feed at its end. -/
def render (d : Document) : String :=
  Render.blockText 0 d.toValue

/-- The text of the file: the rendered document and one line feed. -/
def renderFile (d : Document) : String :=
  d.render ++ "\n"

end Document

end Dashboard
