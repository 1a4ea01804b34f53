import Dashboard.Session.Perform

/-!
# The session

The menu is shown until the user quits, or until a question cannot be asked.
An action that fails is reported and the session goes on.  Quitting with
changes that are not saved asks first.
-/

namespace Dashboard.Session

open Activity

/-- An action was chosen. -/
def chosen (a : Action) : Log.Event :=
  { severity := .debug, source := "glancectl::commands::edit", message := "menu action"
    fields := [("action", a.name)] }

/-- Whether the session may end.  Without changes it may; otherwise the user says,
and an interruption is a yes. -/
def mayQuit (d : Desk) : Except Trouble Bool × Desk :=
  if d.session.hasChanges then
    match d.shell.askConfirm "Discard unsaved changes and quit?" with
    | (.submitted b, shell) => (.ok b, { d with shell })
    | (.canceled, shell) => (.ok false, { d with shell })
    | (.interrupted, shell) => (.ok true, { d with shell })
    | (.failed reason, shell) =>
      (.error (.within "Confirm prompt failed" (.terminal reason)), { d with shell })
  else (.ok true, d)

/-- A session that goes on after the question has used up an answer. -/
theorem patience_mayQuit {d d' : Desk} (h : mayQuit d = (.ok false, d')) :
    d'.patience < d.patience := by
  unfold mayQuit at h
  split at h
  · split at h
    · next b shell hs =>
      simp only [Prod.mk.injEq] at h
      exact h.2 ▸ Shell.length_answers_ask_lt hs (by simp)
    · next shell hs =>
      simp only [Prod.mk.injEq] at h
      exact h.2 ▸ Shell.length_answers_ask_lt hs (by simp)
    · simp at h
    · simp at h
  · simp at h

/-- Do a chosen action, report its failure, and move the selection to what exists. -/
def doAction (a : Action) (d : Desk) : Desk :=
  let d := { d with shell := d.shell.note (chosen a) }
  match (perform a).run d with
  | (.ok _, d) => { d with session := d.session.clamp }
  | (.error t, d) => { session := d.session.clamp, shell := d.shell.complain ("❌ " ++ t.line) }

/-- An action gives no answers back. -/
theorem patience_doAction (a : Action) (d : Desk) : (doAction a d).patience ≤ d.patience := by
  have h := (perform a).patient { d with shell := d.shell.note (chosen a) }
  simp only [Desk.patience, Shell.answers_note] at h
  unfold doAction
  simp only
  split <;> next hs => rw [hs] at h; exact h

/-- Show the selection and ask for an action. -/
def askAction (d : Desk) : Reply Nat × Shell :=
  let s := d.session
  (d.shell.say ("\n" ++ s.selection.breadcrumb s.editor.document)).askSelect "Action:"
    ((Action.available s.editor s.selection).map Action.label) 0 none

/-- Asking for an action gives no answers back. -/
theorem patience_askAction_le {d : Desk} {r : Reply Nat} {shell : Shell}
    (h : askAction d = (r, shell)) : shell.patience ≤ d.patience := by
  rw [show shell = (askAction d).2 by rw [h]]
  exact Shell.length_answers_ask_le ..

/-- An action that was asked for has used up an answer. -/
theorem patience_askAction_lt {d : Desk} {r : Reply Nat} {shell : Shell}
    (h : askAction d = (r, shell)) (hr : r ≠ .interrupted) : shell.patience < d.patience := by
  simp only [askAction, Shell.askSelect] at h
  exact Shell.length_answers_ask_lt (s := d.shell.say _) h hr

/-- Show the menu until the session ends. -/
def menu (d : Desk) : Except Trouble Unit × Desk :=
  match _ : askAction d with
  | (.canceled, shell) => menu { d with shell }
  | (.failed reason, shell) =>
    (.error (.within "Menu prompt failed" (.terminal reason)), { d with shell })
  | (.interrupted, shell) =>
    match _ : mayQuit { d with shell } with
    | (.ok false, d') => menu d'
    | (.ok true, d') => (.ok (), d')
    | (.error t, d') => (.error t, d')
  | (.submitted i, shell) =>
    match (Action.available d.session.editor d.session.selection).getD i .quit with
    | .quit =>
      match _ : mayQuit { d with shell } with
      | (.ok false, d') => menu d'
      | (.ok true, d') => (.ok (), d')
      | (.error t, d') => (.error t, d')
    | a => menu (doAction a { d with shell })
termination_by d.patience
decreasing_by
  · exact patience_askAction_lt ‹askAction d = _› (by simp)
  · exact Nat.lt_of_lt_of_le (patience_mayQuit ‹mayQuit _ = _›)
      (patience_askAction_le ‹askAction d = _›)
  · exact Nat.lt_trans (patience_mayQuit ‹mayQuit _ = _›)
      (patience_askAction_lt ‹askAction d = _› (by simp))
  · exact Nat.lt_of_le_of_lt (patience_doAction ..)
      (patience_askAction_lt ‹askAction d = _› (by simp))

/-- Run a session from its first line on. -/
def run (d : Desk) : Except Trouble Unit × Desk :=
  menu { d with
    shell := d.shell.say ("🧩 Glance config editor, saving to " ++ d.session.target) }

end Dashboard.Session
