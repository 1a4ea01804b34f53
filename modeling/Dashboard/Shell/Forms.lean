import Dashboard.Editor.Dialog
import Dashboard.Shell.Basic

/-!
# Dialogs on the terminal

The prompts of the editor as questions on the terminal.  The reason why an
answer was refused is written above the question that is asked again.  Giving
up any of the questions of the widget form gives up the form.
-/

namespace Dashboard

namespace Shell

/-- Write why an answer was refused. -/
def showReason (s : Shell) : Option Error → Shell
  | some e => s.complain ("❌ " ++ e.message)
  | none => s

theorem answers_showReason (s : Shell) (e : Option Error) :
    (s.showReason e).answers = s.answers := by
  cases e <;> rfl

/-- A question could not be asked. -/
def promptFailed (reason : String) : Log.Event :=
  { severity := .warn, source := "glancectl::prompter"
    message := "prompt failed, treating as cancel"
    fields := [("error", "IO error: " ++ reason)] }

/-- A reply as the response of a dialog. -/
def respond {α : Type} (r : Reply α × Shell) : Response α × Shell :=
  match r with
  | (.submitted a, s) => (.submitted a, s)
  | (.failed reason, s) => (.cancelled, s.note (promptFailed reason))
  | (_, s) => (.cancelled, s)

theorem answers_respond {α : Type} (r : Reply α × Shell) :
    (respond r).2.answers = r.2.answers := by
  obtain ⟨r, s⟩ := r
  cases r <;> simp [respond, answers_note]

theorem respond_submitted {α : Type} {r : Reply α × Shell} {a : α} {s : Shell}
    (h : respond r = (.submitted a, s)) : r = (.submitted a, s) := by
  obtain ⟨r, t⟩ := r
  cases r <;> simp_all [respond]

/-- Go on with the value of a reply. -/
def andThen {α β : Type} (r : Reply α × Shell) (next : α → Shell → Reply β × Shell) :
    Reply β × Shell :=
  match r with
  | (.submitted a, s) => next a s
  | (.canceled, s) => (.canceled, s)
  | (.interrupted, s) => (.interrupted, s)
  | (.failed reason, s) => (.failed reason, s)

theorem andThen_submitted {α β : Type} {r : Reply α × Shell}
    {next : α → Shell → Reply β × Shell} {b : β} {s' : Shell}
    (h : andThen r next = (.submitted b, s')) :
    ∃ a s, r = (.submitted a, s) ∧ next a s = (.submitted b, s') := by
  obtain ⟨r, s⟩ := r
  cases r with
  | submitted a => exact ⟨a, s, rfl, h⟩
  | canceled => simp [andThen] at h
  | interrupted => simp [andThen] at h
  | failed reason => simp [andThen] at h

/-! ## The name of a page and the size of a column -/

/-- Ask for the name of a page. -/
def askPageName (initial : String) (reason : Option Error) (s : Shell) :
    Response String × Shell :=
  respond ((s.showReason reason).askText "Page name:" initial
    (some "Shown as the page's tab in Glance") none)

/-- The names of the sizes of columns. -/
def sizeWords : List String :=
  ColumnSize.all.map ColumnSize.word

/-- Ask for the size of a column: its word. -/
def askColumnSize (initial : String) (reason : Option Error) (s : Shell) :
    Response String × Shell :=
  let cursor := (sizeWords.findIdx? (· == Text.trim initial)).getD 0
  respond <| andThen ((s.showReason reason).askSelect "Column size:" sizeWords cursor
      (some "A page holds up to three columns, one or two of them full"))
    fun i s => (.submitted (sizeWords.getD i ""), s)

/-! ## The fields of a widget -/

/-- The types that begin with what was typed, whatever the case of ASCII letters. -/
def completions (types : List String) (typed : String) : List String :=
  let typed := (Text.trim typed).toList.map Char.toLower
  types.filter fun t => typed.isPrefixOf (t.toList.map Char.toLower)

/-- Ask for the type of a widget. -/
def askType (s : Shell) (types : List String) (initial : String) : Reply String × Shell :=
  s.askText "Widget type:" initial (some "Tab to complete; unknown types are allowed")
    (some types)

/-- Ask for each option line; a line that is cleared is dropped. -/
def askKeptLines (s : Shell) : List String → Reply (List String) × Shell
  | [] => (.submitted [], s)
  | line :: lines =>
    andThen (s.askText "Option:" line (some "key=value; clear the line to drop it") none)
      fun kept s =>
        andThen (askKeptLines s lines) fun rest s =>
          (.submitted (if Text.isBlankText kept then rest else kept :: rest), s)

/-- Ask for further option lines until a blank one. -/
def askNewLines (s : Shell) : Reply (List String) × Shell :=
  match _ : s.askText "New option:" ""
      (some "key=value, values are YAML (10, true, [a, b]); empty to finish") none with
  | (.submitted line, s') =>
    if Text.isBlankText line then (.submitted [], s')
    else andThen (askNewLines s') fun rest s => (.submitted (line :: rest), s)
  | (.canceled, s') => (.canceled, s')
  | (.interrupted, s') => (.interrupted, s')
  | (.failed reason, s') => (.failed reason, s')
termination_by s.answers.length
decreasing_by exact length_answers_ask_lt ‹_› (by simp)

/-- Ask for the option lines of a form. -/
def askOptions (s : Shell) (existing : String) : Reply String × Shell :=
  andThen (s.askKeptLines ((Text.lines existing).filter fun l => !Text.isBlankText l))
    fun kept s =>
      andThen s.askNewLines fun new s => (.submitted (String.intercalate "\n" (kept ++ new)), s)

/-- Ask for the fields of a form one after the other. -/
def askForm (types : List String) (f : WidgetForm) (s : Shell) : Reply WidgetForm × Shell :=
  andThen (s.askType types f.type) fun type s =>
    andThen (s.askText "Title:" f.title (some "Optional; leave blank for none") none)
      fun title s =>
        andThen (s.askOptions f.options) fun options s =>
          (.submitted { type, title, options }, s)

/-- Ask for the fields of a widget. -/
def askWidget (types : List String) (initial : WidgetForm) (reason : Option Error) (s : Shell) :
    Response WidgetForm × Shell :=
  respond ((s.showReason reason).askForm types initial)

/-! ## No question gives answers back -/

theorem answers_andThen_le {α β : Type} {n : Nat} {r : Reply α × Shell}
    {next : α → Shell → Reply β × Shell} (hr : r.2.answers.length ≤ n)
    (hn : ∀ a s, (next a s).2.answers.length ≤ s.answers.length) :
    (andThen r next).2.answers.length ≤ n := by
  obtain ⟨r, s⟩ := r
  cases r with
  | submitted a => exact Nat.le_trans (hn a s) hr
  | canceled => exact hr
  | interrupted => exact hr
  | failed reason => exact hr

theorem answers_askKeptLines_le (s : Shell) (lines : List String) :
    (s.askKeptLines lines).2.answers.length ≤ s.answers.length := by
  induction lines generalizing s with
  | nil => exact Nat.le_refl _
  | cons line lines ih =>
    exact answers_andThen_le (length_answers_ask_le ..) fun kept s =>
      answers_andThen_le (ih s) fun _ _ => Nat.le_refl _

theorem answers_askNewLines_le (s : Shell) :
    s.askNewLines.2.answers.length ≤ s.answers.length := by
  fun_induction askNewLines s with
  | case1 s line s' h hb => exact Nat.le_of_lt (length_answers_ask_lt h (by simp))
  | case2 s line s' h hb ih =>
    exact answers_andThen_le
      (Nat.le_trans ih (Nat.le_of_lt (length_answers_ask_lt h (by simp)))) fun _ _ => Nat.le_refl _
  | case3 s s' h => exact Nat.le_of_lt (length_answers_ask_lt h (by simp))
  | case4 s s' h =>
    have := length_answers_ask_le s (.text "New option:" ""
      (some "key=value, values are YAML (10, true, [a, b]); empty to finish") none)
      (Answer.read Answer.text? (some "")) some
    unfold askText at h
    rw [h] at this
    exact this
  | case5 s reason s' h => exact Nat.le_of_lt (length_answers_ask_lt h (by simp))

theorem answers_askOptions_le (s : Shell) (existing : String) :
    (s.askOptions existing).2.answers.length ≤ s.answers.length :=
  answers_andThen_le (answers_askKeptLines_le ..) fun _ s =>
    answers_andThen_le (answers_askNewLines_le s) fun _ _ => Nat.le_refl _

/-- The form uses up an answer when it is submitted, and never gives one back. -/
theorem answers_askForm (types : List String) (f : WidgetForm) (s : Shell) :
    (askForm types f s).2.answers.length ≤ s.answers.length ∧
    ∀ g s', askForm types f s = (.submitted g, s') → s'.answers.length < s.answers.length := by
  have hrest : ∀ type (s : Shell),
      (andThen (s.askText "Title:" f.title (some "Optional; leave blank for none") none)
        fun title s =>
          andThen (s.askOptions f.options) fun options s =>
            (Reply.submitted ({ type, title, options } : WidgetForm), s)).2.answers.length ≤
        s.answers.length := fun type s =>
    answers_andThen_le (length_answers_ask_le ..) fun title s =>
      answers_andThen_le (answers_askOptions_le s f.options) fun _ _ => Nat.le_refl _
  refine ⟨answers_andThen_le (length_answers_ask_le ..) hrest, fun g s' h => ?_⟩
  obtain ⟨type, t, ht, h⟩ := andThen_submitted h
  have h1 := hrest type t
  rw [h] at h1
  exact Nat.lt_of_le_of_lt h1 (length_answers_ask_lt ht (by simp))

/-! ## The prompts of the editor -/

/-- How many answers are left. -/
def patience (s : Shell) : Nat :=
  s.answers.length

/-- Page names asked on the terminal. -/
def pageName : Prompt Shell String where
  ask := askPageName
  note := note
  patience := patience
  patience_ask shown reason s := by
    simp only [patience, askPageName, answers_respond]
    exact Nat.le_trans (length_answers_ask_le ..) (Nat.le_of_eq (by rw [answers_showReason]))
  patience_submitted := by
    intro shown reason s a s' h
    have := length_answers_ask_lt (respond_submitted h) (by simp)
    rwa [answers_showReason] at this
  patience_note e s := Nat.le_of_eq (by rw [patience, patience, answers_note])

/-- Column sizes asked on the terminal. -/
def columnSize : Prompt Shell String where
  ask := askColumnSize
  note := note
  patience := patience
  patience_ask shown reason s := by
    simp only [patience, askColumnSize, answers_respond]
    exact answers_andThen_le
      (Nat.le_trans (length_answers_ask_le ..) (Nat.le_of_eq (by rw [answers_showReason])))
      fun _ _ => Nat.le_refl _
  patience_submitted := by
    intro shown reason s a s' h
    obtain ⟨i, t, ht, h⟩ := andThen_submitted (respond_submitted h)
    simp only [Prod.mk.injEq] at h
    have := length_answers_ask_lt ht (by simp)
    rw [answers_showReason] at this
    exact h.2 ▸ this
  patience_note e s := Nat.le_of_eq (by rw [patience, patience, answers_note])

/-- Widget forms asked on the terminal. -/
def widgetForm (types : List String) : Prompt Shell WidgetForm where
  ask := askWidget types
  note := note
  patience := patience
  patience_ask shown reason s := by
    simp only [patience, askWidget, answers_respond]
    exact Nat.le_trans (answers_askForm ..).1 (Nat.le_of_eq (by rw [answers_showReason]))
  patience_submitted := by
    intro shown reason s a s' h
    have := (answers_askForm types shown (s.showReason reason)).2 a s' (respond_submitted h)
    rwa [answers_showReason] at this
  patience_note e s := Nat.le_of_eq (by rw [patience, patience, answers_note])

end Shell

end Dashboard
