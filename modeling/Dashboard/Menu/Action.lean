import Dashboard.Editor.Basic
import Dashboard.Menu.Selection

/-!
# The menu

The actions of the menu in their order.  An action is offered when the
selection and the reference data have what it needs.
-/

namespace Dashboard

/-- The actions of the menu. -/
inductive Action where
  | preview
  | addPage
  | selectPage
  | renamePage
  | deletePage
  | addColumn
  | selectColumn
  | editColumn
  | deleteColumn
  | addWidget
  | selectWidget
  | editWidget
  | deleteWidget
  | editOption
  | insertTemplate
  | widgetDocs
  | save
  | saveAs
  | load
  | quit
deriving DecidableEq, Repr

/-- What can be done to an option of a widget. -/
inductive OptionAction where
  | read
  | replace
  | insert
  | delete
deriving DecidableEq, Repr

namespace Action

/-- The entry of the menu. -/
def label : Action → String
  | preview => "Show YAML preview"
  | addPage => "Add page"
  | selectPage => "Select page"
  | renamePage => "Rename page"
  | deletePage => "Delete page"
  | addColumn => "Add column"
  | selectColumn => "Select column"
  | editColumn => "Change column size"
  | deleteColumn => "Delete column"
  | addWidget => "Add widget"
  | selectWidget => "Select widget"
  | editWidget => "Edit widget"
  | deleteWidget => "Delete widget"
  | editOption => "Edit widget option by path"
  | insertTemplate => "Insert preconfigured page"
  | widgetDocs => "Show widget docs"
  | save => "Save"
  | saveAs => "Save as…"
  | load => "Load file…"
  | quit => "Quit"

/-- The name of an action in the log. -/
def name : Action → String
  | preview => "Preview"
  | addPage => "AddPage"
  | selectPage => "SelectPage"
  | renamePage => "RenamePage"
  | deletePage => "DeletePage"
  | addColumn => "AddColumn"
  | selectColumn => "SelectColumn"
  | editColumn => "EditColumn"
  | deleteColumn => "DeleteColumn"
  | addWidget => "AddWidget"
  | selectWidget => "SelectWidget"
  | editWidget => "EditWidget"
  | deleteWidget => "DeleteWidget"
  | editOption => "EditOption"
  | insertTemplate => "InsertTemplate"
  | widgetDocs => "WidgetDocs"
  | save => "Save"
  | saveAs => "SaveAs"
  | load => "Load"
  | quit => "Quit"

/-- The actions on a selected page. -/
def onPage (page : Page) : List Action :=
  [renamePage, deletePage, addColumn] ++ (if page.columns.isEmpty then [] else [selectColumn])

/-- The actions on a selected column. -/
def onColumn (column : Column) : List Action :=
  [editColumn, deleteColumn, addWidget] ++
    (if column.widgets.isEmpty then [] else [selectWidget])

/-- The actions that are offered, in the order of the menu. -/
def available (ed : Editor) (s : Selection) : List Action :=
  [preview, addPage] ++
  (if ed.document.pages.isEmpty then [] else [selectPage]) ++
  (match s.page? ed.document with
    | some page => onPage page
    | none => []) ++
  (match s.column? ed.document with
    | some column => onColumn column
    | none => []) ++
  (if (s.widget? ed.document).isSome then [editWidget, deleteWidget, editOption] else []) ++
  (if ed.reference.templates.isEmpty then [] else [insertTemplate]) ++
  (if ed.reference.docs.isEmpty then [] else [widgetDocs]) ++
  [save, saveAs, load, quit]

end Action

namespace OptionAction

/-- All of them, in the order they are offered. -/
def all : List OptionAction :=
  [read, replace, insert, delete]

/-- The entry of the menu. -/
def label : OptionAction → String
  | read => "Show value"
  | replace => "Replace existing value"
  | insert => "Insert key or list item"
  | delete => "Delete value"

end OptionAction

end Dashboard
