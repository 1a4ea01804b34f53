import Dashboard.Session.Basic

/-!
# The actions of the menu

Each action asks for what it needs and changes the session.  Giving up a
question ends the action without a change.
-/

namespace Dashboard.Session

open Activity

/-! ## Questions -/

/-- The answer to a question, or none if it was given up. -/
def optional {α : Type} : Reply α → Activity (Option α)
  | .submitted a => return some a
  | .canceled | .interrupted => return none
  | .failed reason => fail (.within "Prompt failed" (.terminal reason))

/-- Ask to pick one of several labels, starting from the current one. -/
def pick (message : String) (labels : List String) (current : Option Nat) :
    Activity (Option Nat) := do
  let cursor := (current.filter fun i => i < labels.length).getD 0
  optional (← askSelect message labels cursor)

/-- Ask a question that is answered with no unless the user says yes. -/
def confirm (question : String) : Activity Bool := do
  return (← optional (← askConfirm question)).getD false

/-- Ask for a file; a blank answer gives up. -/
def askPath (message initial : String) : Activity (Option String) := do
  let answer ← optional (← askText message initial none)
  return (answer.map Text.trim).filter fun path => !path.isEmpty

/-- Ask for a value. -/
def askValue : Activity (Option Value) := do
  let help := "YAML: 10, true, null, \"text\", [a, b], \x7bkey: value\x7d"
  let answer ← optional (← askText "Value:" "" (some help))
  return answer.map Value.ofFormText

/-- The selected place of a level. -/
def require (level : Level) : Activity Nat := do
  match (← session).selection.place? level with
  | some i => return i
  | none => fail (.message (Selection.missing level))

/-- The selected page and column. -/
def requireColumn : Activity (Nat × Nat) := do
  return (← require .page, ← require .column)

/-- The selected page, column and widget. -/
def requireWidget : Activity (Nat × Nat × Nat) := do
  return (← require .page, ← require .column, ← require .widget)

/-- Select something else. -/
def select (f : Selection → Selection) : Activity Unit :=
  change fun s => { s with selection := f s.selection }

/-! ## Pages -/

/-- Add a page and select it. -/
def addPage : Activity Unit := do
  match ← dialog (fun ed s => ed.addPage Shell.pageName s)
      (fun ed s => ed.patience_addPage Shell.pageName s) with
  | .applied p => select fun _ => .pageOnly p
  | .cancelled => return

/-- Select a page. -/
def selectPage : Activity Unit := do
  let s ← session
  match ← pick "Page:" (s.editor.document.pages.map Page.name) s.selection.page with
  | some p => select fun _ => .pageOnly p
  | none => return

/-- Give the page another name. -/
def renamePage : Activity Unit := do
  let p ← require .page
  let _ ← dialog (fun ed s => ed.renamePage p Shell.pageName s)
    fun ed s => ed.patience_renamePage p Shell.pageName s

/-- The question before a page is deleted. -/
def deleteQuestion (page : Page) : String :=
  "Delete page '" ++ page.name ++ "' with " ++ toString page.columns.length ++ " column(s)?"

/-- Delete the page. -/
def deletePage : Activity Unit := do
  let p ← require .page
  let page ← ofResult ((← session).editor.document.page p)
  if ← confirm (deleteQuestion page) then
    let _ ← act fun ed => ed.deletePage p

/-! ## Columns -/

/-- Select a column and no widget. -/
def selectColumnAt (c : Nat) : Activity Unit :=
  select fun s => { s with column := some c, widget := none }

/-- Add a column and select it. -/
def addColumn : Activity Unit := do
  let p ← require .page
  match ← dialog (fun ed s => ed.addColumn p Shell.columnSize s)
      fun ed s => ed.patience_addColumn p Shell.columnSize s with
  | .applied c => selectColumnAt c
  | .cancelled => return

/-- The entry of a column in a list. -/
def columnLabel (c : Column) (i : Nat) : String :=
  toString (i + 1) ++ " (" ++ c.size.word ++ ", " ++ toString c.widgets.length ++ " widget(s))"

/-- Select a column. -/
def selectColumn : Activity Unit := do
  let p ← require .page
  let s ← session
  let page ← ofResult (s.editor.document.page p)
  let labels := page.columns.zipIdx.map fun (c, i) => columnLabel c i
  match ← pick "Column:" labels s.selection.column with
  | some c => selectColumnAt c
  | none => return

/-- The question before a column starts over. -/
def resetQuestion (widgets : Nat) : String :=
  "Changing the size resets the column and drops its " ++ toString widgets ++
    " widget(s). Continue?"

/-- Start the column over with another size. -/
def editColumn : Activity Unit := do
  let (p, c) ← requireColumn
  let column ← ofResult ((← session).editor.document.column p c)
  let widgets := column.widgets.length
  let sure ← if widgets = 0 then pure true else confirm (resetQuestion widgets)
  if sure then
    match ← dialog (fun ed s => ed.editColumn p c Shell.columnSize s)
        fun ed s => ed.patience_editColumn p c Shell.columnSize s with
    | .applied _ => select fun s => { s with widget := none }
    | .cancelled => return

/-- Delete the column. -/
def deleteColumn : Activity Unit := do
  let (p, c) ← requireColumn
  if ← confirm "Delete this column and its widgets?" then
    let _ ← act fun ed => ed.deleteColumn p c

/-! ## Widgets -/

/-- Add a widget and select it. -/
def addWidget : Activity Unit := do
  let (p, c) ← requireColumn
  let some type ← optional (← askType "") | return
  let s ← session
  let initial := s.editor.formFor (Text.trim type)
  let prompt := Shell.widgetForm s.editor.reference.types
  match ← dialog (fun ed s => ed.addWidget p c initial prompt s)
      fun ed s => ed.patience_addWidget p c initial prompt s with
  | .applied w => select fun s => { s with widget := some w }
  | .cancelled => return

/-- The entry of a widget in a list. -/
def widgetLabel (w : Widget) : String :=
  match w.title with
  | some title => title ++ " (" ++ w.type ++ ")"
  | none => w.type

/-- Select a widget. -/
def selectWidget : Activity Unit := do
  let (p, c) ← requireColumn
  let s ← session
  let column ← ofResult (s.editor.document.column p c)
  match ← pick "Widget:" (column.widgets.map widgetLabel) s.selection.widget with
  | some w => select fun s => { s with widget := some w }
  | none => return

/-- Edit the widget. -/
def editWidget : Activity Unit := do
  let (p, c, w) ← requireWidget
  let prompt := Shell.widgetForm (← session).editor.reference.types
  let _ ← dialog (fun ed s => ed.editWidget p c w prompt s)
    fun ed s => ed.patience_editWidget p c w prompt s

/-- Delete the widget. -/
def deleteWidget : Activity Unit := do
  let (p, c, w) ← requireWidget
  if ← confirm "Delete this widget?" then
    let _ ← act fun ed => ed.deleteWidget p c w

/-! ## Options -/

/-- Show a value: a container in lines of its own. -/
def showValue (v : Value) : Activity Unit :=
  say (if v.isContainer then Render.blockText 0 v else Render.inlineText v)

/-- Do something to an option at a path. -/
def changeOption (p c w : Nat) (path : Path) : OptionAction → Activity Unit
  | .read => do
    let widget ← ofResult ((← session).editor.document.widget p c w)
    showValue (← ofResult (widget.getOption path))
  | .replace => do
    let some v ← askValue | return
    let old ← act fun ed => ed.setOption p c w path v
    say ("Replaced " ++ Render.inlineText old)
  | .insert => do
    let some v ← askValue | return
    act fun ed => ed.insertOption p c w path v
  | .delete => do
    let old ← act fun ed => ed.deleteOption p c w path
    say ("Removed " ++ Render.inlineText old)

/-- Ask for an option of the widget by its path, and what to do with it. -/
def editOption : Activity Unit := do
  let (p, c, w) ← requireWidget
  let labels := OptionAction.all.map OptionAction.label
  let some i ← optional (← askSelect "Option action:" labels 0) | return
  let help := "e.g. feeds[0].url; a new list item goes at index = length"
  let some text ← optional (← askText "Option path:" "" (some help)) | return
  let path ← ofResult (Path.read text)
  match OptionAction.all[i]? with
  | some action => changeOption p c w path action
  | none => return

/-! ## Reference data -/

/-- Insert the pages of a template and select the first of them. -/
def insertTemplate : Activity Unit := do
  let s ← session
  let labels := s.editor.reference.templates.map Template.name
  if labels.isEmpty then
    fail (.message "No templates in the reference data")
  let some i ← pick "Template:" labels none | return
  let name := labels.getD i ""
  let added ← act fun ed => ed.insertTemplate name
  say ("Inserted " ++ toString added ++ " page(s) from '" ++ name ++ "'")
  if 0 < added then
    select fun _ => .pageOnly s.editor.document.pages.length

/-- Show the documentation of a type, by default that of the selected widget. -/
def showDocs : Activity Unit := do
  let s ← session
  let selected := (s.selection.widget? s.editor.document).map Widget.type
  let some type ← optional (← askType (selected.getD "")) | return
  match s.editor.reference.doc? type with
  | some doc => say ("\n" ++ doc.displayName ++ " (" ++ doc.type ++ ")\n\n" ++ doc.markdown)
  | none => fail (.message ("No docs for widget type '" ++ Text.trim type ++ "'"))

/-! ## Files -/

/-- Save to the file of the session. -/
def save : Activity Unit := do
  let s ← session
  match s.editor.save (← files) s.target with
  | .error e => fail (.within ("Failed to save " ++ s.target) (.refused e))
  | .ok fs =>
    setFiles fs
    tell [s.editor.fileEvent "saved configuration" s.target]
    change markSaved
    say ("💾 Saved " ++ s.target)

/-- Ask for another file and save to it. -/
def saveAs : Activity Unit := do
  let some path ← askPath "Save to:" (← session).target | return
  change fun s => { s with target := path }
  save

/-- Load a file. -/
def loadFile (path : String) : Activity Unit := do
  let fs ← files
  let a := (← session).editor.load fs path
  tell a.events
  match a.result with
  | .ok (_, editor) => change fun s => { s with editor }
  | .error e => fail (.within ("Failed to load " ++ path) (.refused e))

/-- Start with the document in a file. -/
def openFile (path : String) : Activity Unit := do
  loadFile path
  change markSaved
  say ("📂 Loaded " ++ path)

/-- Ask for a file and load it, which drops all changes. -/
def load : Activity Unit := do
  let s ← session
  if s.hasChanges then
    if !(← confirm "Discard unsaved changes?") then
      return
  let some path ← askPath "Load from:" s.target | return
  openFile path
  change fun s => { s with selection := {}, target := path }

/-- Do an action of the menu. -/
def perform : Action → Activity Unit
  | .preview => do say (← session).editor.preview
  | .addPage => addPage
  | .selectPage => selectPage
  | .renamePage => renamePage
  | .deletePage => deletePage
  | .addColumn => addColumn
  | .selectColumn => selectColumn
  | .editColumn => editColumn
  | .deleteColumn => deleteColumn
  | .addWidget => addWidget
  | .selectWidget => selectWidget
  | .editWidget => editWidget
  | .deleteWidget => deleteWidget
  | .editOption => editOption
  | .insertTemplate => insertTemplate
  | .widgetDocs => showDocs
  | .save => save
  | .saveAs => saveAs
  | .load => load
  | .quit => return

end Dashboard.Session
