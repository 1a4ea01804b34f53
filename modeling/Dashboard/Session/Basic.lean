import Dashboard.Menu.Action
import Dashboard.Shell.Forms
import Dashboard.Shell.Trouble

/-!
# The state of an editing session

A session has an editor, a selection, the file it saves to, and the text that
was saved or loaded last.  An activity acts on a session and its shell and may
fail; what it did before it failed stays done.  No activity gives answers back,
which is part of its type, so that the menu comes to an end.
-/

namespace Dashboard

/-- An editing session. -/
structure Session where
  editor : Editor
  selection : Selection := {}
  /-- The file that is saved to. -/
  target : String
  /-- The preview when the document was saved or loaded last. -/
  saved : String

namespace Session

/-- A session that has not changed anything yet. -/
def start (editor : Editor) (target : String) : Session :=
  { editor, target, saved := editor.preview }

/-- The document is not what was saved or loaded last. -/
def hasChanges (s : Session) : Bool :=
  s.saved != s.editor.preview

/-- The document as it is now counts as saved. -/
def markSaved (s : Session) : Session :=
  { s with saved := s.editor.preview }

/-- Move the selection to what exists. -/
def clamp (s : Session) : Session :=
  { s with selection := s.selection.clamp s.editor.document }

end Session

/-- A session and its shell. -/
structure Desk where
  session : Session
  shell : Shell

/-- How many answers are left. -/
def Desk.patience (d : Desk) : Nat :=
  d.shell.answers.length

/-- Something that is done at a desk. -/
structure Activity (α : Type) where
  run : Desk → Except Trouble α × Desk
  patient : ∀ d, (run d).2.patience ≤ d.patience

namespace Activity

variable {α β : Type}

/-- Do nothing. -/
def done (a : α) : Activity α where
  run d := (.ok a, d)
  patient _ := Nat.le_refl _

/-- Go on unless the first activity failed. -/
def next (x : Activity α) (f : α → Activity β) : Activity β where
  run d :=
    match x.run d with
    | (.ok a, d) => (f a).run d
    | (.error t, d) => (.error t, d)
  patient d := by
    have h := x.patient d
    split
    · next a d' hx =>
      rw [hx] at h
      exact Nat.le_trans ((f a).patient d') h
    · next t d' hx =>
      rw [hx] at h
      exact h

instance : Monad Activity where
  pure := done
  bind := next

/-- Fail. -/
def fail (t : Trouble) : Activity α where
  run d := (.error t, d)
  patient _ := Nat.le_refl _

/-- The value of a result, or its error as a failure. -/
def ofResult (r : Except Error α) : Activity α :=
  match r with
  | .ok a => done a
  | .error e => fail (.refused e)

/-- Look at the session. -/
def session : Activity Session where
  run d := (.ok d.session, d)
  patient _ := Nat.le_refl _

/-- Change the session. -/
def change (f : Session → Session) : Activity Unit where
  run d := (.ok (), { d with session := f d.session })
  patient _ := Nat.le_refl _

/-- Look at the files. -/
def files : Activity Files where
  run d := (.ok d.shell.files, d)
  patient _ := Nat.le_refl _

/-- Change the files. -/
def setFiles (fs : Files) : Activity Unit where
  run d := (.ok (), { d with shell := { d.shell with files := fs } })
  patient _ := Nat.le_refl _

/-- Write a line to the output. -/
def say (text : String) : Activity Unit where
  run d := (.ok (), { d with shell := d.shell.say text })
  patient _ := Nat.le_refl _

/-- Tell the log. -/
def tell (events : List Log.Event) : Activity Unit where
  run d := (.ok (), { d with shell := d.shell.noteAll events })
  patient d := by simp [Desk.patience, Shell.answers_noteAll]

/-- Ask something. -/
def ask (question : Shell → Reply α × Shell)
    (h : ∀ s, (question s).2.answers.length ≤ s.answers.length) : Activity (Reply α) where
  run d :=
    let (r, shell) := question d.shell
    (.ok r, { d with shell })
  patient d := h d.shell

/-- Ask to select one of several options: its place. -/
def askSelect (message : String) (options : List String) (cursor : Nat) :
    Activity (Reply Nat) :=
  ask (fun s => s.askSelect message options cursor none) fun _ => Shell.length_answers_ask_le ..

/-- Ask for a text. -/
def askText (message initial : String) (help : Option String) : Activity (Reply String) :=
  ask (fun s => s.askText message initial help none) fun _ => Shell.length_answers_ask_le ..

/-- Ask for a confirmation. -/
def askConfirm (message : String) : Activity (Reply Bool) :=
  ask (fun s => s.askConfirm message) fun _ => Shell.length_answers_ask_le ..

/-- Ask for the type of a widget, completing from the known types. -/
def askType (initial : String) : Activity (Reply String) := do
  let s ← session
  ask (fun shell => shell.askType s.editor.reference.types initial)
    fun _ => Shell.length_answers_ask_le ..

/-- Do an operation of the editor that asks nothing. -/
def act (operation : Editor → Act α) : Activity α := do
  let s ← session
  let a := operation s.editor
  tell a.events
  let (v, editor) ← ofResult a.result
  change fun s => { s with editor }
  return v

/-- Do a dialog of the editor. -/
def dialog (operation : Editor → Shell → Except Error (Outcome (α × Editor)) × Shell)
    (h : ∀ ed s, (operation ed s).2.answers.length ≤ s.answers.length) :
    Activity (Outcome α) where
  run d :=
    match operation d.session.editor d.shell with
    | (.ok (.applied (v, editor)), shell) =>
      (.ok (.applied v), { session := { d.session with editor }, shell })
    | (.ok .cancelled, shell) => (.ok .cancelled, { d with shell })
    | (.error e, shell) => (.error (.refused e), { d with shell })
  patient d := by
    have := h d.session.editor d.shell
    split <;> next hs => rw [hs] at this; exact this

end Activity

end Dashboard
