import Dashboard.Editor.Basic

/-!
# Dialogs

A dialog asks until the answer can be accepted or the user gives up.  A prompt
shows a value to start from, and the reason why the answer before was refused;
what the user submits is tried, and a fault of the user's leads to the next
prompt, which shows the refused answer.  Nothing here knows how a prompt is
shown: it acts on a state of its own, from which every submitted answer takes
something, so that every dialog ends.
-/

namespace Dashboard

/-- What a prompt gives. -/
inductive Response (α : Type) where
  | submitted (answer : α)
  | cancelled
deriving DecidableEq, Repr

/-- What became of a dialog. -/
inductive Outcome (α : Type) where
  | applied (value : α)
  | cancelled
deriving DecidableEq, Repr

/-- A way to ask for something. -/
structure Prompt (σ α : Type) where
  /-- Ask, showing a value and the reason why the answer before was refused. -/
  ask : α → Option Error → σ → Response α × σ
  /-- Tell the log. -/
  note : Log.Event → σ → σ
  /-- How many answers can still come at most. -/
  patience : σ → Nat
  /-- No prompt gives answers back. -/
  patience_ask : ∀ shown reason s, patience (ask shown reason s).2 ≤ patience s
  /-- A submitted answer is used up. -/
  patience_submitted : ∀ {shown reason s a s'},
    ask shown reason s = (.submitted a, s') → patience s' < patience s
  patience_note : ∀ e s, patience (note e s) ≤ patience s

namespace Prompt

variable {σ α β : Type}

/-- Tell the log several things in order. -/
def noteAll (p : Prompt σ α) (events : List Log.Event) (s : σ) : σ :=
  events.foldl (fun s e => p.note e s) s

/-- An answer was refused. -/
def refused (e : Error) : Log.Event :=
  { severity := .debug, source := Editor.source, message := "rejected input, asking again"
    fields := [("error", e.message)] }

/-- Ask until an answer is accepted, the user gives up, or an answer fails for
a reason that is no fault of the user's. -/
def askUntilValid (p : Prompt σ α) (accept : α → Except Error β) (shown : α)
    (reason : Option Error) (s : σ) : Except Error (Outcome β) × σ :=
  match _ : p.ask shown reason s with
  | (.cancelled, s') => (.ok .cancelled, s')
  | (.submitted a, s') =>
    match accept a with
    | .ok b => (.ok (.applied b), s')
    | .error e =>
      if e.isUserInput then p.askUntilValid accept a (some e) (p.note (refused e) s')
      else (.error e, s')
termination_by p.patience s
decreasing_by exact Nat.lt_of_le_of_lt (p.patience_note _ _) (p.patience_submitted ‹_›)

/-- Telling the log gives no answers back. -/
theorem patience_noteAll (p : Prompt σ α) (events : List Log.Event) (s : σ) :
    p.patience (p.noteAll events s) ≤ p.patience s := by
  induction events generalizing s with
  | nil => exact Nat.le_refl _
  | cons e events ih => exact Nat.le_trans (ih _) (p.patience_note e s)

/-- A dialog gives no answers back. -/
theorem patience_askUntilValid (p : Prompt σ α) (accept : α → Except Error β) (shown : α)
    (reason : Option Error) (s : σ) :
    p.patience (p.askUntilValid accept shown reason s).2 ≤ p.patience s := by
  fun_induction askUntilValid p accept shown reason s with
  | case1 shown reason s s' h =>
    simpa [h] using p.patience_ask shown reason s
  | case2 shown reason s a s' h b hb =>
    simpa [h] using p.patience_ask shown reason s
  | case3 shown reason s a s' h e he hu ih =>
    exact Nat.le_trans ih
      (Nat.le_of_lt (Nat.lt_of_le_of_lt (p.patience_note _ _) (p.patience_submitted h)))
  | case4 shown reason s a s' h e he hu =>
    simpa [h] using p.patience_ask shown reason s

end Prompt

namespace Editor

variable {σ α β : Type}

/-- Run a dialog whose accepted answer changes the document. -/
def dialog (ed : Editor) (p : Prompt σ α) (accept : α → Except Error (Change β)) (initial : α)
    (s : σ) : Except Error (Outcome (β × Editor)) × σ :=
  match p.askUntilValid accept initial none s with
  | (.ok (.applied c), s) =>
    let ed := ed.withDocument c.document
    (.ok (.applied (c.value, ed)), p.noteAll (c.events ++ [ed.refreshed]) s)
  | (.ok .cancelled, s) => (.ok .cancelled, s)
  | (.error e, s) => (.error e, s)

/-- A dialog of the editor gives no answers back. -/
theorem patience_dialog (ed : Editor) (p : Prompt σ α) (accept : α → Except Error (Change β))
    (initial : α) (s : σ) : p.patience (ed.dialog p accept initial s).2 ≤ p.patience s := by
  have h := p.patience_askUntilValid accept initial none s
  unfold dialog
  split
  · next hs =>
    rw [hs] at h
    exact Nat.le_trans (p.patience_noteAll _ _) h
  · next hs =>
    rw [hs] at h
    exact h
  · next hs =>
    rw [hs] at h
    exact h

/-! ## What the dialogs accept -/

/-- Append a page of that name. -/
def acceptPage (ed : Editor) (name : String) : Except Error (Change Nat) :=
  (ed.document.addPage name).map fun r =>
    { value := r.1, document := r.2, events := [EditEvents.pageAdded (Text.trim name)] }

/-- Give a page that name. -/
def acceptName (ed : Editor) (p : Nat) (name : String) : Except Error (Change Unit) :=
  (ed.document.renamePage p name).map fun r =>
    { value := (), document := r.2, events := [EditEvents.pageRenamed r.1 (Text.trim name)] }

/-- Append a column of the size that a text names. -/
def acceptColumn (ed : Editor) (p : Nat) (text : String) : Except Error (Change Nat) := do
  let size ← ColumnSize.read text
  let (place, document) ← ed.document.addColumn p size
  return { value := place, document, events := [EditEvents.columnAdded p size] }

/-- Start a column over with the size that a text names. -/
def acceptSize (ed : Editor) (p c : Nat) (text : String) : Except Error (Change Unit) := do
  let size ← ColumnSize.read text
  let (before, document) ← ed.document.editColumn p c size
  return { value := (), document, events := [EditEvents.columnRecreated p c size before] }

/-- Append the widget that a form describes. -/
def acceptWidget (ed : Editor) (p c : Nat) (f : WidgetForm) : Except Error (Change Nat) := do
  let w ← f.toWidget
  let (place, document) ← ed.document.addWidget p c w
  return { value := place, document
           events := unknownType ed.reference w ++ [EditEvents.widgetAdded p c w] }

/-- Put the widget that a form describes in the place of one. -/
def acceptReplacement (ed : Editor) (p c i : Nat) (f : WidgetForm) :
    Except Error (Change Unit) := do
  let w ← f.toWidget
  let (_, document) ← ed.document.replaceWidget p c i w
  return { value := (), document, events := unknownType ed.reference w }

/-! ## The six dialogs -/

/-- Ask for the name of a new page: its place. -/
def addPage (ed : Editor) (p : Prompt σ String) (s : σ) :
    Except Error (Outcome (Nat × Editor)) × σ :=
  ed.dialog p ed.acceptPage "" s

/-- Ask for another name of a page. -/
def renamePage (ed : Editor) (page : Nat) (p : Prompt σ String) (s : σ) :
    Except Error (Outcome (Unit × Editor)) × σ :=
  match ed.document.page page with
  | .error e => (.error e, s)
  | .ok old => ed.dialog p (ed.acceptName page) old.name s

/-- Ask for the size of a new column: its place. -/
def addColumn (ed : Editor) (page : Nat) (p : Prompt σ String) (s : σ) :
    Except Error (Outcome (Nat × Editor)) × σ :=
  match ed.document.page page with
  | .error e => (.error e, s)
  | .ok _ => ed.dialog p (ed.acceptColumn page) ColumnSize.small.word s

/-- Ask for another size of a column, which starts over. -/
def editColumn (ed : Editor) (page column : Nat) (p : Prompt σ String) (s : σ) :
    Except Error (Outcome (Unit × Editor)) × σ :=
  match ed.document.column page column with
  | .error e => (.error e, s)
  | .ok old => ed.dialog p (ed.acceptSize page column) old.size.word s

/-- Ask for the fields of a new widget: its place. -/
def addWidget (ed : Editor) (page column : Nat) (initial : WidgetForm) (p : Prompt σ WidgetForm)
    (s : σ) : Except Error (Outcome (Nat × Editor)) × σ :=
  match ed.document.column page column with
  | .error e => (.error e, s)
  | .ok _ => ed.dialog p (ed.acceptWidget page column) initial s

/-- Ask for the fields of a widget anew. -/
def editWidget (ed : Editor) (page column widget : Nat) (p : Prompt σ WidgetForm) (s : σ) :
    Except Error (Outcome (Unit × Editor)) × σ :=
  match ed.document.widget page column widget with
  | .error e => (.error e, s)
  | .ok old =>
    ed.dialog p (ed.acceptReplacement page column widget) (WidgetForm.ofWidget old) s

/-! ## No dialog gives answers back -/

theorem patience_addPage (ed : Editor) (p : Prompt σ String) (s : σ) :
    p.patience (ed.addPage p s).2 ≤ p.patience s :=
  ed.patience_dialog p _ _ s

theorem patience_renamePage (ed : Editor) (page : Nat) (p : Prompt σ String) (s : σ) :
    p.patience (ed.renamePage page p s).2 ≤ p.patience s := by
  unfold renamePage
  split
  · exact Nat.le_refl _
  · exact ed.patience_dialog p _ _ s

theorem patience_addColumn (ed : Editor) (page : Nat) (p : Prompt σ String) (s : σ) :
    p.patience (ed.addColumn page p s).2 ≤ p.patience s := by
  unfold addColumn
  split
  · exact Nat.le_refl _
  · exact ed.patience_dialog p _ _ s

theorem patience_editColumn (ed : Editor) (page column : Nat) (p : Prompt σ String) (s : σ) :
    p.patience (ed.editColumn page column p s).2 ≤ p.patience s := by
  unfold editColumn
  split
  · exact Nat.le_refl _
  · exact ed.patience_dialog p _ _ s

theorem patience_addWidget (ed : Editor) (page column : Nat) (initial : WidgetForm)
    (p : Prompt σ WidgetForm) (s : σ) :
    p.patience (ed.addWidget page column initial p s).2 ≤ p.patience s := by
  unfold addWidget
  split
  · exact Nat.le_refl _
  · exact ed.patience_dialog p _ _ s

theorem patience_editWidget (ed : Editor) (page column widget : Nat) (p : Prompt σ WidgetForm)
    (s : σ) : p.patience (ed.editWidget page column widget p s).2 ≤ p.patience s := by
  unfold editWidget
  split
  · exact Nat.le_refl _
  · exact ed.patience_dialog p _ _ s

end Editor

end Dashboard
