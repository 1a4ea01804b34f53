import Dashboard.Editor.Script

/-!
# Asking until an answer is accepted

A dialog tries the answers in their order up to the first one that is accepted
or to the cancellation, and every answer is tried once.  This module says so
for dialogs that are answered by a script: what comes of the dialog is read off
the list of answers, and so is the list of the prompts that were shown.
-/

namespace Dashboard

variable {α β γ σ : Type}

/-! ## One step, and less of the value -/

/-- The outcome with another value. -/
def Outcome.map (f : β → γ) : Outcome β → Outcome γ
  | .applied b => .applied (f b)
  | .cancelled => .cancelled

/-- A step of a dialog: ask, and try what was submitted. -/
theorem Prompt.askUntilValid_eq
    (p : Prompt σ α)
    (accept : α → Except Error β)
    (shown : α)
    (reason : Option Error)
    (s : σ) :
    p.askUntilValid accept shown reason s =
      match p.ask shown reason s with
      | (.cancelled, s') => (.ok .cancelled, s')
      | (.submitted a, s') =>
        match accept a with
        | .ok b => (.ok (.applied b), s')
        | .error e =>
          if e.isUserInput then p.askUntilValid accept a (some e) (p.note (refused e) s')
          else (.error e, s') := by
  rw [askUntilValid]
  generalize p.ask shown reason s = r
  split
  · rfl
  · rfl

/-- Trying the same answers for less asks the same questions. -/
theorem Prompt.askUntilValid_map
    (p : Prompt σ α)
    (accept : α → Except Error β)
    (f : β → γ)
    (shown : α)
    (reason : Option Error)
    (s : σ) :
    p.askUntilValid (fun a => (accept a).map f) shown reason s =
      ((p.askUntilValid accept shown reason s).1.map (Outcome.map f),
        (p.askUntilValid accept shown reason s).2) := by
  fun_induction askUntilValid p accept shown reason s with
  | case1 shown reason s s' hask =>
      rw [askUntilValid_eq, hask]
      rfl
  | case2 shown reason s a s' hask b hb =>
      rw [askUntilValid_eq, hask]
      simp only [hb]
      rfl
  | case3 shown reason s a s' hask e he hu ih =>
      rw [askUntilValid_eq, hask]
      simp only [he, Except.map, if_pos hu]
      exact ih
  | case4 shown reason s a s' hask e he hu =>
      rw [askUntilValid_eq, hask]
      simp only [he, Except.map, if_neg hu]

/-! ## Scripts -/

namespace Script

/-- The answers before the first cancellation. -/
def submitted : List (Option α) → List α
  | some a :: answers => a :: submitted answers
  | none :: _ => []
  | [] => []

/-- What comes of the first answer that is accepted. -/
def accepted? (accept : α → Except Error β) (tried : List α) : Option β :=
  tried.findSome? fun a => (accept a).toOption

/-- What comes of a dialog: the first accepted answer, or nothing. -/
def outcome (accept : α → Except Error β) (tried : List α) : Outcome β :=
  match accepted? accept tried with
  | some b => .applied b
  | none => .cancelled

/-- The answers before the first accepted one, each with the reason why it was
refused. -/
def refusals (accept : α → Except Error β) : List α → List (α × Option Error)
  | [] => []
  | a :: tried =>
    match accept a with
    | .ok _ => []
    | .error e => (a, some e) :: refusals accept tried

section Steps

variable {shown a : α}
variable {reason : Option Error}
variable {s s' : Script α}

/-- A submitted answer is the next one of the script. -/
theorem of_ask_submitted
    (h : prompt.ask shown reason s = (.submitted a, s')) :
    submitted s.answers = a :: submitted s'.answers ∧
      s'.shown = (shown, reason) :: s.shown := by
  obtain ⟨answers, before, notes⟩ := s
  match answers with
  | some b :: rest =>
      cases h
      exact ⟨rfl, rfl⟩
  | none :: rest =>
      cases h
  | [] =>
      cases h

/-- A dialog is cancelled where the script has no answer. -/
theorem of_ask_cancelled
    (h : prompt.ask shown reason s = (.cancelled, s')) :
    submitted s.answers = [] ∧ s'.shown = (shown, reason) :: s.shown := by
  obtain ⟨answers, before, notes⟩ := s
  match answers with
  | some b :: rest =>
      cases h
  | none :: rest =>
      cases h
      exact ⟨rfl, rfl⟩
  | [] =>
      cases h
      exact ⟨rfl, rfl⟩

theorem shown_noteAll
    (events : List Log.Event)
    (s : Script α) :
    (prompt.noteAll events s).shown = s.shown := by
  induction events generalizing s with
  | nil =>
      rfl
  | cons e events ih =>
      exact ih _

end Steps

section Dialogs

variable {accept : α → Except Error β}

theorem outcome_cons_ok
    {a : α}
    {b : β}
    (h : accept a = .ok b)
    (tried : List α) :
    outcome accept (a :: tried) = .applied b ∧ refusals accept (a :: tried) = [] := by
  constructor
  · rw [outcome, accepted?, List.findSome?_cons, h]
    rfl
  · rw [refusals, h]

theorem outcome_cons_error
    {a : α}
    {e : Error}
    (h : accept a = .error e)
    (tried : List α) :
    outcome accept (a :: tried) = outcome accept tried ∧
      refusals accept (a :: tried) = (a, some e) :: refusals accept tried := by
  constructor
  · rw [outcome, accepted?, List.findSome?_cons, h]
    rfl
  · rw [refusals, h]

/-- A dialog that only refuses faults of the user's gives what its first
accepted answer gives, and shows each refused answer again with its reason. -/
theorem askUntilValid_prompt
    (hinput : ∀ a e, accept a = .error e → e.isUserInput = true)
    (shown : α)
    (reason : Option Error)
    (s : Script α) :
    (prompt.askUntilValid accept shown reason s).1 =
        .ok (outcome accept (submitted s.answers)) ∧
      (prompt.askUntilValid accept shown reason s).2.shown =
        (refusals accept (submitted s.answers)).reverse ++ (shown, reason) :: s.shown := by
  fun_induction Prompt.askUntilValid prompt accept shown reason s with
  | case1 shown reason s s' hask =>
      obtain ⟨hanswers, hshown⟩ := of_ask_cancelled hask
      rw [hanswers, hshown]
      exact ⟨rfl, rfl⟩
  | case2 shown reason s a s' hask b hb =>
      obtain ⟨hanswers, hshown⟩ := of_ask_submitted hask
      obtain ⟨houtcome, hrefusals⟩ := outcome_cons_ok hb (submitted s'.answers)
      rw [hanswers, houtcome, hrefusals, hshown]
      exact ⟨rfl, rfl⟩
  | case3 shown reason s a s' hask e he hu ih =>
      obtain ⟨hanswers, hshown⟩ := of_ask_submitted hask
      obtain ⟨houtcome, hrefusals⟩ := outcome_cons_error he (submitted s'.answers)
      have hnote : (prompt.note (Prompt.refused e) s').answers = s'.answers := rfl
      have hkept : (prompt.note (Prompt.refused e) s').shown = s'.shown := rfl
      rw [hnote, hkept, hshown] at ih
      rw [hanswers, houtcome, hrefusals, ih.1, ih.2]
      exact ⟨rfl, by simp⟩
  | case4 shown reason s a s' hask e he hu =>
      exact absurd (hinput a e he) hu

end Dialogs

end Script

end Dashboard
