import Dashboard.Session.Run

/-!
# Turns of the menu

A session is a row of turns.  In each the menu is shown once, and the user gives
it up, does an action, or wants to quit.
-/

namespace Dashboard.Session

open Activity

/-- What came of showing the menu once. -/
inductive Turn where
  /-- Nothing was done, and the menu is shown again. -/
  | again (d : Desk)
  /-- An action was done at the desk `before`. -/
  | did (a : Action) (before after : Desk)
  /-- The session ended. -/
  | ended (result : Except Trouble Unit) (d : Desk)

/-- The turn of a user who wants to quit. -/
def quitTurn (d : Desk) : Turn :=
  match mayQuit d with
  | (.ok false, d) => .again d
  | (.ok true, d) => .ended (.ok ()) d
  | (.error t, d) => .ended (.error t) d

/-- The desk at which a chosen action is done. -/
def atAction (a : Action) (d : Desk) : Desk :=
  { d with shell := d.shell.note (chosen a) }

/-- Show the menu once. -/
def turn (d : Desk) : Turn :=
  match askAction d with
  | (.canceled, shell) => .again { d with shell }
  | (.failed reason, shell) =>
    .ended (.error (.within "Menu prompt failed" (.terminal reason))) { d with shell }
  | (.interrupted, shell) => quitTurn { d with shell }
  | (.submitted i, shell) =>
    let a := (Action.available d.session.editor d.session.selection).getD i .quit
    if a = .quit then quitTurn { d with shell }
    else .did a (atAction a { d with shell }) (doAction a { d with shell })

/-- The menu goes on turn by turn. -/
theorem menu_eq (d : Desk) :
    menu d =
      match turn d with
      | .again d' => menu d'
      | .did _ _ after => menu after
      | .ended result d' => (result, d') := by
  rw [menu, turn]
  split
  · next shell hask => rw [hask]
  · next reason shell hask => rw [hask]
  · next shell hask =>
    rw [hask]
    simp only [quitTurn]
    split <;> next hmay => rw [hmay]
  · next i shell hask =>
    rw [hask]
    simp only
    split
    · next hchosen =>
      rw [hchosen, if_pos rfl]
      simp only [quitTurn]
      split <;> next hmay => rw [hmay]
    · next a hchosen => rw [if_neg hchosen]

/-- A user who does not want to quit after all has used up an answer. -/
theorem patience_quitTurn {d d' : Desk} (h : quitTurn d = .again d') :
    d'.patience < d.patience := by
  rw [quitTurn] at h
  split at h
  · next hmay =>
    cases h
    exact patience_mayQuit hmay
  · cases h
  · cases h

/-- Showing the menu again takes an answer. -/
theorem patience_of_again {d d' : Desk} (h : turn d = .again d') : d'.patience < d.patience := by
  rw [turn] at h
  split at h
  · next hask =>
    cases h
    exact patience_askAction_lt hask (by simp)
  · cases h
  · next hask => exact Nat.lt_of_lt_of_le (patience_quitTurn h) (patience_askAction_le hask)
  · next hask =>
    simp only at h
    split at h
    · exact Nat.lt_of_lt_of_le (patience_quitTurn h) (patience_askAction_le hask)
    · cases h

/-- Who wants to quit does no action. -/
theorem quitTurn_ne_did {d before after : Desk} {a : Action} :
    quitTurn d ≠ .did a before after := by
  intro h
  rw [quitTurn] at h
  split at h <;> cases h

/-- An action that is done takes an answer. -/
theorem patience_of_did {d before after : Desk} {a : Action} (h : turn d = .did a before after) :
    after.patience < d.patience := by
  rw [turn] at h
  split at h
  · cases h
  · cases h
  · exact absurd h quitTurn_ne_did
  · next hask =>
    simp only at h
    split at h
    · exact absurd h quitTurn_ne_did
    · cases h
      exact Nat.lt_of_le_of_lt (patience_doAction ..) (patience_askAction_lt hask (by simp))

end Dashboard.Session
