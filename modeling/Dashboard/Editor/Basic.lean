import Dashboard.Document.EditEvents
import Dashboard.Document.LoadEvents
import Dashboard.Files.Store
import Dashboard.Reference.Basic
import Dashboard.Widget.Form

/-!
# The editor

An editor holds a document, the reference data and the preview, which is the
text of the document as it was rendered last.  An operation either gives the
next editor, with the preview rendered anew, or an error and no editor: the
one before stays.  Each operation also gives what it tells the log.
-/

namespace Dashboard

/-- A document that is being edited. -/
structure Editor where
  document : Document
  reference : Reference
  /-- The text of the document after the last change. -/
  preview : String
deriving DecidableEq

/-- The result of an operation of the editor and what the log is told. -/
structure Act (α : Type) where
  result : Except Error (α × Editor)
  events : List Log.Event := []

/-- A change of a document that was accepted. -/
structure Change (α : Type) where
  value : α
  document : Document
  events : List Log.Event := []

namespace Editor

/-- An editor with an empty document. -/
def ofReference (reference : Reference) : Editor :=
  { document := {}, reference, preview := ({} : Document).render }

/-- The editor with another document, and its preview. -/
def withDocument (ed : Editor) (d : Document) : Editor :=
  { ed with document := d, preview := d.render }

/-! ## Events -/

/-- Where the events of the editor come from. -/
def source : String :=
  "glancectl_core::editor"

/-- The preview was rendered. -/
def refreshed (ed : Editor) : Log.Event :=
  { severity := .debug, source, message := "preview refreshed"
    fields := [Log.number "bytes" ed.preview.utf8ByteSize] }

/-- A file and the number of pages, after saving or loading. -/
def fileEvent (ed : Editor) (message path : String) : Log.Event :=
  { severity := .info, source, message
    fields := [("path", path), Log.number "pages" ed.document.pages.length] }

/-- A widget has a type that the reference data does not know. -/
def unknownType (r : Reference) (w : Widget) : List Log.Event :=
  if !r.types.isEmpty && !r.knows w.type then
    [{ severity := .warn, source, message := "widget type is not in the reference data"
       fields := [Log.quotedText "widget_type" w.type] }]
  else []

/-! ## Operations that ask nothing -/

/-- Take over a change of the document. -/
def adopt {α : Type} (ed : Editor) : Except Error (Change α) → Act α
  | .ok c =>
    let ed := ed.withDocument c.document
    ⟨.ok (c.value, ed), c.events ++ [ed.refreshed]⟩
  | .error e => ⟨.error e, []⟩

/-- A change that the log is told nothing special about. -/
def quiet {α : Type} (r : α × Document) : Change α :=
  { value := r.1, document := r.2 }

/-- Remove a page: that page. -/
def deletePage (ed : Editor) (p : Nat) : Act Page :=
  ed.adopt ((ed.document.deletePage p).map fun r =>
    { value := r.1, document := r.2, events := [EditEvents.pageDeleted r.1] })

/-- Remove a column: that column. -/
def deleteColumn (ed : Editor) (p c : Nat) : Act Column :=
  ed.adopt ((ed.document.deleteColumn p c).map quiet)

/-- Remove a widget: that widget. -/
def deleteWidget (ed : Editor) (p c w : Nat) : Act Widget :=
  ed.adopt ((ed.document.deleteWidget p c w).map quiet)

/-- Insert an option of a widget, or a node inside one. -/
def insertOption (ed : Editor) (p c w : Nat) (path : Path) (v : Value) : Act Unit :=
  ed.adopt ((ed.document.changeWidget p c w fun widget =>
    (widget.insertOption path v).map fun widget => ((), widget)).map quiet)

/-- Replace an option of a widget, or a node inside one: the old node. -/
def setOption (ed : Editor) (p c w : Nat) (path : Path) (v : Value) : Act Value :=
  ed.adopt ((ed.document.changeWidget p c w fun widget => widget.setOption path v).map quiet)

/-- Remove an option of a widget, or a node inside one: that node. -/
def deleteOption (ed : Editor) (p c w : Nat) (path : Path) : Act Value :=
  ed.adopt ((ed.document.changeWidget p c w fun widget => widget.deleteOption path).map quiet)

/-! ## Templates and files -/

/-- The pages of a ready-made page text; a text without pages is an error that
names the template. -/
def templateDocument (name yaml : String) : Except Error Document :=
  match Document.parse yaml with
  | .error .notAMapping | .error .missingPages => .error (.templateWithoutPages name)
  | r => r

/-- Append the pages of a template: how many. -/
def insertTemplate (ed : Editor) (name : String) : Act Nat :=
  match ed.reference.template? name with
  | none => ⟨.error (.templateNotFound name), []⟩
  | some t =>
    let heard := Document.parseEvents t.yaml
    match templateDocument name t.yaml with
    | .error e => ⟨.error e, heard⟩
    | .ok more =>
      let (added, d) := ed.document.appendPages more
      let ed := ed.withDocument d
      let inserted : Log.Event :=
        { severity := .info, source, message := "inserted template"
          fields := [Log.quotedText "template" name, Log.number "pages" added] }
      ⟨.ok (added, ed), heard ++ [inserted, ed.refreshed]⟩

/-- Replace the document by what a text stands for. -/
def loadText (ed : Editor) (text : String) : Act Unit :=
  let heard := Document.parseEvents text
  match Document.parse text with
  | .error e => ⟨.error e, heard⟩
  | .ok d =>
    let ed := ed.withDocument d
    ⟨.ok ((), ed), heard ++ [ed.refreshed]⟩

/-- Replace the document by what a file stands for. -/
def load (ed : Editor) (fs : Files) (path : String) : Act Unit :=
  match fs.read path with
  | .error fault => ⟨.error (.file path fault), []⟩
  | .ok text =>
    match ed.loadText text with
    | ⟨.ok (_, ed), heard⟩ => ⟨.ok ((), ed), heard ++ [ed.fileEvent "loaded configuration" path]⟩
    | act => act

/-- Write the document to a file: the files afterwards. -/
def save (ed : Editor) (fs : Files) (path : String) : Except Error Files :=
  if ed.document.isEmpty then .error .emptyDocument
  else (fs.write path ed.document.renderFile).mapError (Error.file path)

/-- The form that a new widget of a type starts with. -/
def formFor (ed : Editor) (type : String) : WidgetForm :=
  match ed.reference.example? type with
  | some v => WidgetForm.ofExample type v
  | none => { type := type }

end Editor

end Dashboard
