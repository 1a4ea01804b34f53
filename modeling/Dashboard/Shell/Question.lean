/-!
# Questions and answers

The terminal asks three kinds of questions: to select from a list, to enter a
text, to confirm.  An answer that a question cannot take counts as giving up.
-/

namespace Dashboard

/-- A question on the terminal. -/
inductive Question where
  | select (message : String) (options : List String) (cursor : Nat) (help : Option String)
  /-- `completions` are the texts that are offered to complete what is typed. -/
  | text (message initial : String) (help : Option String) (completions : Option (List String))
  | confirm (message : String) (default : Bool)
deriving DecidableEq, Repr

/-- What the user does at a question. -/
inductive Answer where
  | text (s : String)
  | choice (i : Nat)
  | truth (b : Bool)
  /-- Take what the question starts with. -/
  | enter
  | escape
  | interrupt
  /-- The terminal cannot go on. -/
  | broken (reason : String)
deriving DecidableEq, Repr

/-- What a question gives. -/
inductive Reply (α : Type) where
  | submitted (a : α)
  | canceled
  | interrupted
  | failed (reason : String)
deriving DecidableEq, Repr

namespace Reply

/-- One word for what became of a question. -/
def outcome {α : Type} : Reply α → String
  | submitted _ => "submitted"
  | canceled => "canceled"
  | interrupted => "interrupted"
  | failed _ => "failed"

end Reply

namespace Answer

/-- Read an answer to a question whose own values `value?` picks, and whose
value to start from is `initial?`. -/
def read {α : Type} (value? : Answer → Option α) (initial? : Option α) (a : Answer) : Reply α :=
  match a with
  | interrupt => .interrupted
  | broken reason => .failed reason
  | escape => .canceled
  | enter => (initial?.map .submitted).getD .canceled
  | a => ((value? a).map .submitted).getD .canceled

/-- The place of the option that an answer takes. -/
def option? (options : List String) : Answer → Option Nat
  | .text label => options.findIdx? (· == label)
  | .choice i => if i < options.length then some i else none
  | _ => none

/-- The text that an answer is. -/
def text? : Answer → Option String
  | .text s => some s
  | _ => none

/-- The truth value that an answer is. -/
def truth? : Answer → Option Bool
  | .truth b => some b
  | _ => none

end Answer

end Dashboard
