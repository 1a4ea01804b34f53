import Dashboard.Editor.Operation
import Dashboard.InPlace.Basic

/-!
# The editor in place

Every operation of the editor as a change in place.  A change of the document
is followed by rendering the preview only where it was carried out; a dialog
tries each answer on the document itself, as the answers before have left it.
-/

namespace Dashboard.InPlace

open Editor (Dialog Operation)

variable {σ δ α β : Type}

/-- Render the preview. -/
def refresh (ed : Editor) : Editor :=
  { ed with preview := ed.document.render }

/-- Change the document, and render it unless the change was refused. -/
def mutate (op : InPlace Document α) : InPlace Editor α := fun ed =>
  match op ed.document with
  | (.ok a, d) => (.ok a, refresh { ed with document := d })
  | (.error e, d) => (.error e, { ed with document := d })

/-! ## Dialogs -/

/-- Ask until an answer can be carried out in place. -/
def askUntilValid (p : Prompt σ α) (accept : α → InPlace δ β) (shown : α)
    (reason : Option Error) (d : δ) (s : σ) : Except Error (Outcome β) × δ :=
  match _ : p.ask shown reason s with
  | (.cancelled, _) => (.ok .cancelled, d)
  | (.submitted a, s') =>
    match accept a d with
    | (.ok b, d') => (.ok (.applied b), d')
    | (.error e, d') =>
      if e.isUserInput then
        askUntilValid p accept a (some e) d' (p.note (Prompt.refused e) s')
      else (.error e, d')
termination_by p.patience s
decreasing_by exact Nat.lt_of_le_of_lt (p.patience_note _ _) (p.patience_submitted ‹_›)

/-- Read an answer, and do what it asks for. -/
def accept : Dialog α β → α → InPlace Document β
  | .addPage, name => reading (keptName name) fun name => onPages (push { name := name })
  | .renamePage p, name =>
    reading (keptName name) fun name => onPage p (assign fun page => { page with name })
  | .addColumn p, text =>
    reading (ColumnSize.read text) fun size => onColumns p (push { size := size })
  | .editColumn p c, text =>
    reading (ColumnSize.read text) fun size => onColumn p c (assign fun _ => { size := size })
  | .addWidget p c _, form => reading form.toWidget fun w => onWidgets p c (push w)
  | .editWidget p c i, form => reading form.toWidget fun w => onWidget p c i (assign fun _ => w)

/-- Run a dialog on the document. -/
def dialog (k : Dialog α β) (p : Prompt σ α) (s : σ) : InPlace Editor (Outcome β) := fun ed =>
  match k.initial ed.document with
  | .error e => (.error e, ed)
  | .ok shown =>
    match askUntilValid p (accept k) shown none ed.document s with
    | (.ok (.applied b), d) => (.ok (.applied b), refresh { ed with document := d })
    | (r, d) => (r, { ed with document := d })

/-! ## Templates and files -/

/-- Append the pages of a template: how many. -/
def insertTemplate (name : String) : InPlace Editor Nat := fun ed =>
  match ed.reference.template? name with
  | none => (.error (.templateNotFound name), ed)
  | some t =>
    match Editor.templateDocument name t.yaml with
    | .error e => (.error e, ed)
    | .ok more =>
      let pages := ed.document.pages ++ more.pages
      (.ok more.pages.length, refresh { ed with document := { ed.document with pages } })

/-- Replace the document by what a text stands for. -/
def loadText (text : String) : InPlace Editor Unit :=
  reading (Document.parse text) (fun d ed => (.ok (), refresh { ed with document := d }))

/-- Replace the document by what a file stands for. -/
def load (fs : Files) (path : String) : InPlace Editor Unit :=
  reading ((fs.read path).mapError (Error.file path)) loadText

/-! ## All operations -/

/-- An operation that asks nothing and leaves the files alone. -/
def onEditor (op : InPlace Editor α) : InPlace (Editor × Files) (Outcome α) := fun (ed, fs) =>
  ((op ed).1.map .applied, (op ed).2, fs)

/-- An operation on an editor and the files. -/
def operation : Operation β → InPlace (Editor × Files) (Outcome β)
  | .ask k p s => fun (ed, fs) => ((dialog k p s ed).1, (dialog k p s ed).2, fs)
  | .deletePage p => onEditor (mutate (onPages (takeOut .page p)))
  | .deleteColumn p c => onEditor (mutate (onColumns p (takeOut .column c)))
  | .deleteWidget p c w => onEditor (mutate (onWidgets p c (takeOut .widget w)))
  | .insertOption p c w path v => onEditor (mutate (onWidget p c w (insertOption path v)))
  | .setOption p c w path v => onEditor (mutate (onWidget p c w (setOption path v)))
  | .deleteOption p c w path => onEditor (mutate (onWidget p c w (deleteOption path)))
  | .insertTemplate name => onEditor (insertTemplate name)
  | .loadText text => onEditor (loadText text)
  | .load path => fun (ed, fs) => onEditor (load fs path) (ed, fs)
  | .save path => fun (ed, fs) =>
    match ed.save fs path with
    | .ok fs => (.ok (.applied ()), ed, fs)
    | .error e => (.error e, ed, fs)

end Dashboard.InPlace
