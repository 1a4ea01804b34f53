import Dashboard.Editor.Dialog

/-!
# Scripted prompts

A script answers the prompts of a dialog from a list and keeps what each prompt
showed.  When the list runs out, or holds no answer at a place, the dialog is
given up.
-/

namespace Dashboard

/-- Answers that are still to come, and the prompts that were shown, latest
first. -/
structure Script (α : Type) where
  answers : List (Option α)
  shown : List (α × Option Error) := []
  notes : List Log.Event := []

namespace Script

variable {α : Type}

/-- Give the next answer. -/
def ask (value : α) (reason : Option Error) (s : Script α) : Response α × Script α :=
  let shown := (value, reason) :: s.shown
  match s.answers with
  | some a :: rest => (.submitted a, { s with answers := rest, shown })
  | none :: rest => (.cancelled, { s with answers := rest, shown })
  | [] => (.cancelled, { s with shown })

/-- Prompts that a script answers. -/
def prompt : Prompt (Script α) α where
  ask := ask
  note e s := { s with notes := e :: s.notes }
  patience s := s.answers.length
  patience_ask shown reason s := by
    obtain ⟨answers, sh, notes⟩ := s
    match answers with
    | some _ :: rest => simp [ask]
    | none :: rest => simp [ask]
    | [] => simp [ask]
  patience_submitted := by
    intro shown reason s a s' h
    obtain ⟨answers, sh, notes⟩ := s
    match answers with
    | some _ :: rest =>
      simp only [ask, Prod.mk.injEq] at h
      simp [← h.2]
    | none :: rest => simp [ask] at h
    | [] => simp [ask] at h
  patience_note _ _ := Nat.le_refl _

end Script

end Dashboard
