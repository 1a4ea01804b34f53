import Dashboard.Document.Basic

/-!
# Changing a document

Pages, columns and widgets are addressed by their places.  Every operation
gives a new document or says which level was out of range, the outermost one
first; a blank name is refused before any place is looked at.
-/

namespace Dashboard

/-- The element at a place of a level. -/
def elementAt {α : Type} (level : Level) (xs : List α) (i : Nat) : Except Error α :=
  match xs[i]? with
  | some x => .ok x
  | none => .error (.indexOutOfRange level i xs.length)

/-- Change the element at a place of a level. -/
def changeAt {α β : Type} (level : Level) (xs : List α) (i : Nat)
    (change : α → Except Error (β × α)) : Except Error (β × List α) := do
  let (b, x) ← change (← elementAt level xs i)
  return (b, xs.set i x)

/-- Take out the element at a place of a level. -/
def removeAt {α : Type} (level : Level) (xs : List α) (i : Nat) : Except Error (α × List α) := do
  return (← elementAt level xs i, xs.eraseIdx i)

/-- A name without the blanks around it; a blank one is refused. -/
def keptName (name : String) : Except Error String :=
  let name := Text.trim name
  if name.isEmpty then .error .emptyName else .ok name

namespace Document

/-- The page at a place. -/
def page (d : Document) (p : Nat) : Except Error Page :=
  elementAt .page d.pages p

/-- The column at a place. -/
def column (d : Document) (p c : Nat) : Except Error Column := do
  elementAt .column (← d.page p).columns c

/-- The widget at a place. -/
def widget (d : Document) (p c w : Nat) : Except Error Widget := do
  elementAt .widget (← d.column p c).widgets w

/-- Change one page. -/
def changePage {β : Type} (d : Document) (p : Nat) (change : Page → Except Error (β × Page)) :
    Except Error (β × Document) := do
  let (b, pages) ← changeAt .page d.pages p change
  return (b, { d with pages })

/-- Change the columns of one page. -/
def changeColumns {β : Type} (d : Document) (p : Nat)
    (change : List Column → Except Error (β × List Column)) : Except Error (β × Document) :=
  d.changePage p fun page => do
    let (b, columns) ← change page.columns
    return (b, { page with columns })

/-- Change one column. -/
def changeColumn {β : Type} (d : Document) (p c : Nat)
    (change : Column → Except Error (β × Column)) : Except Error (β × Document) :=
  d.changeColumns p fun columns => changeAt .column columns c change

/-- Change the widgets of one column. -/
def changeWidgets {β : Type} (d : Document) (p c : Nat)
    (change : List Widget → Except Error (β × List Widget)) : Except Error (β × Document) :=
  d.changeColumn p c fun column => do
    let (b, widgets) ← change column.widgets
    return (b, { column with widgets })

/-- Change one widget. -/
def changeWidget {β : Type} (d : Document) (p c w : Nat)
    (change : Widget → Except Error (β × Widget)) : Except Error (β × Document) :=
  d.changeWidgets p c fun widgets => changeAt .widget widgets w change

/-- Append a page: its place. -/
def addPage (d : Document) (name : String) : Except Error (Nat × Document) := do
  let name ← keptName name
  return (d.pages.length, { d with pages := d.pages ++ [{ name := name }] })

/-- Give a page another name: the old one. -/
def renamePage (d : Document) (p : Nat) (name : String) : Except Error (String × Document) := do
  let name ← keptName name
  d.changePage p fun page => .ok (page.name, { page with name })

/-- Remove a page with everything in it: that page. -/
def deletePage (d : Document) (p : Nat) : Except Error (Page × Document) := do
  let (page, pages) ← removeAt .page d.pages p
  return (page, { d with pages })

/-- Append a column to a page: its place. -/
def addColumn (d : Document) (p : Nat) (size : ColumnSize) : Except Error (Nat × Document) :=
  d.changeColumns p fun columns => .ok (columns.length, columns ++ [{ size := size }])

/-- Start a column over with another size: the column that was there, whose
widgets and properties are dropped. -/
def editColumn (d : Document) (p c : Nat) (size : ColumnSize) :
    Except Error (Column × Document) :=
  d.changeColumn p c fun column => .ok (column, { size := size })

/-- Remove a column with its widgets: that column. -/
def deleteColumn (d : Document) (p c : Nat) : Except Error (Column × Document) :=
  d.changeColumns p fun columns => removeAt .column columns c

/-- Append a widget to a column: its place. -/
def addWidget (d : Document) (p c : Nat) (w : Widget) : Except Error (Nat × Document) :=
  d.changeWidgets p c fun widgets => .ok (widgets.length, widgets ++ [w])

/-- Put another widget in the place of one: the old one. -/
def replaceWidget (d : Document) (p c i : Nat) (w : Widget) :
    Except Error (Widget × Document) :=
  d.changeWidget p c i fun old => .ok (old, w)

/-- Remove a widget: that widget. -/
def deleteWidget (d : Document) (p c w : Nat) : Except Error (Widget × Document) :=
  d.changeWidgets p c fun widgets => removeAt .widget widgets w

/-- Append the pages of another document: how many. -/
def appendPages (d : Document) (more : Document) : Nat × Document :=
  (more.pages.length, { d with pages := d.pages ++ more.pages })

end Document

end Dashboard
