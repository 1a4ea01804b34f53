import Dashboard.Document.Edit

/-!
# Changes in place

A document in memory is one place that every operation writes to.  An
operation that is refused gives no second document: what is left is what it
had written by then.  So each step says which state it leaves behind, whatever
comes of it.

Work on a part of a state takes the part out and puts back what is left of it.
The options of a widget are worked on as one value, and meanwhile the widget
has none.
-/

namespace Dashboard

/-- A step that writes in place: what it gives, and the state that it leaves,
also when it is refused. -/
abbrev InPlace (σ α : Type) := σ → Except Error α × σ

namespace InPlace

variable {σ τ α β : Type}

/-- Decide first, and write only when nothing can be refused any more. -/
def settle (f : σ → Except Error (α × σ)) : InPlace σ α := fun s =>
  match f s with
  | .ok (a, s') => (.ok a, s')
  | .error e => (.error e, s)

/-- Write. -/
def write (f : σ → α × σ) : InPlace σ α := fun s =>
  (.ok (f s).1, (f s).2)

/-- Go on with what was read, which writes nothing. -/
def reading (x : Except Error α) (next : α → InPlace σ β) : InPlace σ β := fun s =>
  match x with
  | .ok a => next a s
  | .error e => (.error e, s)

/-- Work on a part of a state, which is put back as the work leaves it. -/
def within (get : σ → Except Error τ) (put : σ → τ → σ) (op : InPlace τ α) : InPlace σ α := fun s =>
  match get s with
  | .ok t => ((op t).1, put s (op t).2)
  | .error e => (.error e, s)

/-! ## Trees -/

/-- The child at a step that is taken after others. -/
def childAt (before : Path) (step : Step) (v : Value) : Except Error Value :=
  match v.child? step with
  | some w => .ok w
  | none => .error (v.stepError before step)

/-- Work on the node at a path that is taken after some steps. -/
def atPath (op : InPlace Value α) (before : Path) : Path → InPlace Value α
  | [] => op
  | step :: p =>
    within (childAt before step) (fun v w => v.withChild step w) (atPath op (before ++ [step]) p)

/-- Insert a new node at a path. -/
def insertAt (p : Path) (v : Value) : InPlace Value Unit :=
  reading (Value.splitLast p) fun (parent, step) =>
    atPath (settle (Value.insertChild parent step v)) [] parent

/-- Replace the node at a path: the old one. -/
def replaceAt (p : Path) (v : Value) : InPlace Value Value :=
  reading (Value.splitLast p) fun _ => atPath (write fun old => (old, v)) [] p

/-- Remove the node at a path: that node. -/
def removeAt (p : Path) : InPlace Value Value :=
  reading (Value.splitLast p) fun (parent, step) =>
    atPath (settle (Value.removeChild parent step)) [] parent

/-! ## Widgets -/

/-- Work on the options as one value.  They are taken out of the widget, and
only a mapping comes back into it. -/
def onOptions (op : InPlace Value α) : InPlace Widget α := fun w =>
  let emptied := { w with options := [] }
  ((op w.tree).1, emptied.withTree (op w.tree).2)

/-- Insert a new option, or a new node inside one. -/
def insertOption (p : Path) (v : Value) : InPlace Widget Unit :=
  reading (Widget.checkReserved p) fun _ => onOptions (insertAt p v)

/-- Replace an option or a node inside one: the old node. -/
def setOption (p : Path) (v : Value) : InPlace Widget Value :=
  reading (Widget.checkReserved p) fun _ => onOptions (replaceAt p v)

/-- Remove an option or a node inside one: that node. -/
def deleteOption (p : Path) : InPlace Widget Value :=
  onOptions (removeAt p)

/-! ## Documents -/

/-- Work on the element at a place of a level. -/
def atElement (level : Level) (i : Nat) (op : InPlace α β) : InPlace (List α) β :=
  within (fun xs => elementAt level xs i) (fun xs x => xs.set i x) op

/-- Take out the element at a place of a level. -/
def takeOut (level : Level) (i : Nat) : InPlace (List α) α := fun xs =>
  match elementAt level xs i with
  | .ok x => (.ok x, xs.eraseIdx i)
  | .error e => (.error e, xs)

/-- Append an element: its place. -/
def push (x : α) : InPlace (List α) Nat :=
  write fun xs => (xs.length, xs ++ [x])

/-- Put something else in the place of what is there. -/
def assign (f : σ → σ) : InPlace σ Unit :=
  write fun s => ((), f s)

/-- Work on the pages. -/
def onPages (op : InPlace (List Page) α) : InPlace Document α :=
  within (fun d => .ok d.pages) (fun d pages => { d with pages }) op

/-- Work on one page. -/
def onPage (p : Nat) (op : InPlace Page α) : InPlace Document α :=
  onPages (atElement .page p op)

/-- Work on the columns of a page. -/
def onColumns (p : Nat) (op : InPlace (List Column) α) : InPlace Document α :=
  onPage p (within (fun page => .ok page.columns) (fun page columns => { page with columns }) op)

/-- Work on one column. -/
def onColumn (p c : Nat) (op : InPlace Column α) : InPlace Document α :=
  onColumns p (atElement .column c op)

/-- Work on the widgets of a column. -/
def onWidgets (p c : Nat) (op : InPlace (List Widget) α) : InPlace Document α :=
  onColumn p c
    (within (fun column => .ok column.widgets) (fun column widgets => { column with widgets }) op)

/-- Work on one widget. -/
def onWidget (p c w : Nat) (op : InPlace Widget α) : InPlace Document α :=
  onWidgets p c (atElement .widget w op)

end InPlace

end Dashboard
