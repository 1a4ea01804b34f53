import Dashboard.Editor.Dialog

/-!
# The operations of the editor as data

Six operations of the editor are dialogs.  Each is about a place of the
document, asks from a value on, and tries every answer: it reads the answer as
a size or a widget and does one change of the document.  The other operations
ask nothing.  As data, all of them can be spoken about at once.
-/

namespace Dashboard

/-- What an operation is about: the whole document, or a page, a column or a
widget by its places. -/
inductive Document.Place where
  | whole
  | page (p : Nat)
  | column (p c : Nat)
  | widget (p c w : Nat)
deriving DecidableEq, Repr

namespace Document

/-- An index is out of range for a list of a length. -/
def outOfList? (level : Level) (i length : Nat) : Option Error :=
  if i < length then none else some (.indexOutOfRange level i length)

/-- The page at a place, if there is one. -/
def page? (d : Document) (p : Nat) : Option Page :=
  d.pages[p]?

/-- The column at a place, if there is one. -/
def column? (d : Document) (p c : Nat) : Option Column :=
  (d.page? p).bind fun page => page.columns[c]?

/-- The error of a page that is out of range. -/
def pageOutOfRange? (d : Document) (p : Nat) : Option Error :=
  outOfList? .page p d.pages.length

/-- The error of a column that is out of range, or of its page. -/
def columnOutOfRange? (d : Document) (p c : Nat) : Option Error :=
  d.pageOutOfRange? p <|>
    (d.page? p).bind fun page => outOfList? .column c page.columns.length

/-- The error of a widget that is out of range, or of its column or page. -/
def widgetOutOfRange? (d : Document) (p c w : Nat) : Option Error :=
  d.columnOutOfRange? p c <|>
    (d.column? p c).bind fun column => outOfList? .widget w column.widgets.length

/-- The error of the outermost level at which a place is out of range. -/
def outOfRange? (d : Document) : Place → Option Error
  | .whole => none
  | .page p => d.pageOutOfRange? p
  | .column p c => d.columnOutOfRange? p c
  | .widget p c w => d.widgetOutOfRange? p c w

end Document

namespace Editor

/-- The dialogs, by the type of their answers and the type of their values. -/
inductive Dialog : Type → Type → Type where
  | addPage : Dialog String Nat
  | renamePage (p : Nat) : Dialog String Unit
  | addColumn (p : Nat) : Dialog String Nat
  | editColumn (p c : Nat) : Dialog String Unit
  | addWidget (p c : Nat) (initial : WidgetForm) : Dialog WidgetForm Nat
  | editWidget (p c w : Nat) : Dialog WidgetForm Unit

namespace Dialog

variable {σ α β : Type}

/-- The place that has to exist before anything is asked. -/
def place : Dialog α β → Document.Place
  | addPage => .whole
  | renamePage p => .page p
  | addColumn p => .page p
  | editColumn p c => .column p c
  | addWidget p c _ => .column p c
  | editWidget p c w => .widget p c w

/-- What the first prompt shows. -/
def initial (d : Document) : Dialog α β → Except Error α
  | addPage => .ok ""
  | renamePage p => (d.page p).map Page.name
  | addColumn p => (d.page p).map fun _ => ColumnSize.small.word
  | editColumn p c => (d.column p c).map fun column => column.size.word
  | addWidget p c shown => (d.column p c).map fun _ => shown
  | editWidget p c w => (d.widget p c w).map WidgetForm.ofWidget

/-- The change of the document that an answer asks for, without a dialog. -/
def direct (d : Document) : Dialog α β → α → Except Error (β × Document)
  | addPage, name => d.addPage name
  | renamePage p, name => (d.renamePage p name).map fun r => ((), r.2)
  | addColumn p, text => do d.addColumn p (← ColumnSize.read text)
  | editColumn p c, text => do
    let r ← d.editColumn p c (← ColumnSize.read text)
    return ((), r.2)
  | addWidget p c _, form => do d.addWidget p c (← form.toWidget)
  | editWidget p c w, form => do
    let r ← d.replaceWidget p c w (← form.toWidget)
    return ((), r.2)

/-- What the dialog tries with an answer. -/
def accept (ed : Editor) : Dialog α β → α → Except Error (Change β)
  | addPage => ed.acceptPage
  | renamePage p => ed.acceptName p
  | addColumn p => ed.acceptColumn p
  | editColumn p c => ed.acceptSize p c
  | addWidget p c _ => ed.acceptWidget p c
  | editWidget p c w => ed.acceptReplacement p c w

/-- Run the dialog with prompts. -/
def run (ed : Editor) : Dialog α β → Prompt σ α → σ → Except Error (Outcome (β × Editor)) × σ
  | addPage => ed.addPage
  | renamePage p => ed.renamePage p
  | addColumn p => ed.addColumn p
  | editColumn p c => ed.editColumn p c
  | addWidget p c initial => ed.addWidget p c initial
  | editWidget p c w => ed.editWidget p c w

end Dialog

/-- The operations, by the type of their values.  A dialog comes with its prompts
and the state that they start from. -/
inductive Operation : Type → Type 1 where
  | ask {α β σ : Type} (k : Dialog α β) (prompt : Prompt σ α) (s : σ) : Operation β
  | deletePage (p : Nat) : Operation Page
  | deleteColumn (p c : Nat) : Operation Column
  | deleteWidget (p c w : Nat) : Operation Widget
  | insertOption (p c w : Nat) (path : Path) (v : Value) : Operation Unit
  | setOption (p c w : Nat) (path : Path) (v : Value) : Operation Value
  | deleteOption (p c w : Nat) (path : Path) : Operation Value
  | insertTemplate (name : String) : Operation Nat
  | loadText (text : String) : Operation Unit
  | load (path : String) : Operation Unit
  | save (path : String) : Operation Unit

namespace Operation

variable {α β : Type}

/-- An operation that asks nothing is applied unless it is refused. -/
def ofAct (fs : Files) (a : Act α) : Except Error (Outcome α × Editor × Files) :=
  a.result.map fun (v, ed) => (.applied v, ed, fs)

/-- What an operation makes of an editor and the files, if it is not refused. -/
def carryOut : Operation β → Editor × Files → Except Error (Outcome β × Editor × Files)
  | ask k prompt s, (ed, fs) =>
    (k.run ed prompt s).1.map fun
      | .applied (v, ed) => (.applied v, ed, fs)
      | .cancelled => (.cancelled, ed, fs)
  | deletePage p, (ed, fs) => ofAct fs (ed.deletePage p)
  | deleteColumn p c, (ed, fs) => ofAct fs (ed.deleteColumn p c)
  | deleteWidget p c w, (ed, fs) => ofAct fs (ed.deleteWidget p c w)
  | insertOption p c w path v, (ed, fs) => ofAct fs (ed.insertOption p c w path v)
  | setOption p c w path v, (ed, fs) => ofAct fs (ed.setOption p c w path v)
  | deleteOption p c w path, (ed, fs) => ofAct fs (ed.deleteOption p c w path)
  | insertTemplate name, (ed, fs) => ofAct fs (ed.insertTemplate name)
  | loadText text, (ed, fs) => ofAct fs (ed.loadText text)
  | load path, (ed, fs) => ofAct fs (ed.load fs path)
  | save path, (ed, fs) => (ed.save fs path).map fun fs => (.applied (), ed, fs)

end Operation

end Editor

end Dashboard
