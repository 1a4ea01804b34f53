import Dashboard.Document.Edit
import Dashboard.Log.Event

/-!
# What changing a document tells the log
-/

namespace Dashboard.EditEvents

/-- Where the events of changes come from. -/
def source : String :=
  "glancectl_core::document"

/-- An event with fields. -/
def event (message : String) (fields : List (String × String)) : Log.Event :=
  { severity := .debug, source, message, fields }

/-- A page was appended. -/
def pageAdded (name : String) : Log.Event :=
  event "adding page" [("page", name)]

/-- A page got another name. -/
def pageRenamed (before after : String) : Log.Event :=
  event "renaming page" [("from", before), ("to", after)]

/-- A page was removed. -/
def pageDeleted (page : Page) : Log.Event :=
  event "deleted page" [("page", page.name), Log.number "columns" page.columns.length]

/-- A column was appended. -/
def columnAdded (page : Nat) (size : ColumnSize) : Log.Event :=
  event "added column" [Log.number "page" page, ("size", size.word)]

/-- A column was started over. -/
def columnRecreated (page column : Nat) (size : ColumnSize) (before : Column) : Log.Event :=
  event "recreating column"
    [Log.number "page" page, Log.number "column" column, ("size", size.word),
      Log.number "dropped_widgets" before.widgets.length]

/-- A widget was appended. -/
def widgetAdded (page column : Nat) (w : Widget) : Log.Event :=
  event "added widget"
    [Log.number "page" page, Log.number "column" column, ("widget_type", w.type)]

end Dashboard.EditEvents
