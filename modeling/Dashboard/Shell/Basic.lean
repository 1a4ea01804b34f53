import Dashboard.Config
import Dashboard.Log.Filter
import Dashboard.Shell.Question
import Dashboard.Shell.Trouble

/-!
# The shell

What a command acts on: the files, what is written to the two outputs, and the
questions on the terminal with their answers.  The answers are there from the
start; every question takes one, and when none is left the user has
interrupted.
-/

namespace Dashboard

/-- What was written up to a question, the question, and what became of it. -/
structure Exchange where
  out : String
  err : String
  question : Question
  outcome : String
  /-- The text that was submitted. -/
  entered : Option String
deriving DecidableEq, Repr

/-- The surroundings of a command.  Outputs and exchanges are kept latest first. -/
structure Shell where
  env : Environment
  filter : Log.Filter
  /-- Log lines name the source of the event. -/
  showSource : Bool := false
  /-- There is a terminal to ask questions on. -/
  interactive : Bool := false
  files : Files
  out : List String := []
  err : List String := []
  answers : List Answer := []
  exchanges : List Exchange := []

namespace Shell

/-- Write to the output. -/
def write (s : Shell) (text : String) : Shell :=
  { s with out := text :: s.out }

/-- Write a line to the output. -/
def say (s : Shell) (text : String) : Shell :=
  s.write (text ++ "\n")

/-- Write a line to the output for errors. -/
def complain (s : Shell) (text : String) : Shell :=
  { s with err := (text ++ "\n") :: s.err }

/-- Write the report of a failure. -/
def fail (s : Shell) (t : Trouble) : Shell :=
  { s with err := t.report :: s.err }

/-- Tell the log. -/
def note (e : Log.Event) (s : Shell) : Shell :=
  if s.filter.passes e then s.complain (e.line s.showSource) else s

/-- Tell the log several things in order. -/
def noteAll (events : List Log.Event) (s : Shell) : Shell :=
  events.foldl (fun s e => s.note e) s

/-- What was written to the output since the last question. -/
def outText (s : Shell) : String :=
  String.join s.out.reverse

/-- What was written to the output for errors since the last question. -/
def errText (s : Shell) : String :=
  String.join s.err.reverse

/-- Keep a question and what became of it. -/
def record (s : Shell) (q : Question) (outcome : String) (entered : Option String) : Shell :=
  { s with
    out := [], err := []
    exchanges :=
      { out := s.outText, err := s.errText, question := q, outcome, entered } :: s.exchanges }

/-- Ask a question whose answers `read` understands. -/
def ask {α : Type} (s : Shell) (q : Question) (read : Answer → Reply α)
    (entered : α → Option String) : Reply α × Shell :=
  match s.answers with
  | [] => (.interrupted, s.record q "interrupted" none)
  | a :: rest =>
    let reply := read a
    let text := match reply with
      | .submitted v => entered v
      | _ => none
    (reply, { s with answers := rest }.record q reply.outcome text)

/-- Ask to select one of several options: its place. -/
def askSelect (s : Shell) (message : String) (options : List String) (cursor : Nat)
    (help : Option String) : Reply Nat × Shell :=
  let initial? := if cursor < options.length then some cursor else none
  s.ask (.select message options cursor help) (Answer.read (Answer.option? options) initial?)
    fun _ => none

/-- Ask for a text. -/
def askText (s : Shell) (message initial : String) (help : Option String)
    (completions : Option (List String)) : Reply String × Shell :=
  s.ask (.text message initial help completions) (Answer.read Answer.text? (some initial)) some

/-- Ask for a confirmation; the default is no. -/
def askConfirm (s : Shell) (message : String) : Reply Bool × Shell :=
  s.ask (.confirm message false) (Answer.read Answer.truth? (some false)) fun _ => none

/-! ## Answers only become fewer -/

theorem answers_note (e : Log.Event) (s : Shell) : (s.note e).answers = s.answers := by
  unfold note
  split <;> rfl

theorem answers_noteAll (events : List Log.Event) (s : Shell) :
    (s.noteAll events).answers = s.answers := by
  induction events generalizing s with
  | nil => rfl
  | cons e events ih => exact (ih _).trans (answers_note e s)

/-- A question gives no answers back. -/
theorem length_answers_ask_le {α : Type} (s : Shell) (q : Question) (read : Answer → Reply α)
    (entered : α → Option String) :
    (s.ask q read entered).2.answers.length ≤ s.answers.length := by
  unfold ask
  split
  · next h => simp [record]
  · next h => simp [record, h]

/-- A question that is not interrupted uses up an answer. -/
theorem length_answers_ask_lt {α : Type} {s s' : Shell} {q : Question}
    {read : Answer → Reply α} {entered : α → Option String} {r : Reply α}
    (h : s.ask q read entered = (r, s')) (hr : r ≠ .interrupted) :
    s'.answers.length < s.answers.length := by
  unfold ask at h
  split at h
  · simp only [Prod.mk.injEq] at h
    exact absurd h.1.symm hr
  · next a rest ha =>
    simp only [Prod.mk.injEq] at h
    simp [← h.2, record, ha]

end Shell

end Dashboard
