/-!
# Arguments

The arguments of a level of the command line are flags, options with a value,
and operands.  A level either takes an operand or leads to commands below it.
Arguments are taken from left to right and the first mistake decides.  After
`--` every argument is an operand.
-/

namespace Dashboard.CommandLine

/-- What a value may be. -/
inductive ValueKind where
  /-- Any text that is not empty. -/
  | path
  | text
  /-- One of several words. -/
  | word (words : List String)
deriving DecidableEq, Repr

/-- A text is a value of a kind. -/
def ValueKind.admits : ValueKind → String → Bool
  | path, s => !s.isEmpty
  | text, _ => true
  | word words, s => words.contains s

/-- A flag: its name and its letter, if it has one. -/
structure Flag where
  name : String
  letter : Option Char := none
deriving DecidableEq, Repr

/-- What a level of the command line understands. -/
structure Level where
  flags : List Flag := []
  options : List (String × ValueKind) := []
  operand : Option ValueKind := none
  /-- Words lead to commands. -/
  hasCommands : Bool := false
  /-- The version may be asked for. -/
  hasVersion : Bool := false
deriving DecidableEq, Repr

/-- What is wrong with the arguments. -/
inductive Mistake where
  | unknownArgument (text : String)
  | unknownCommand (word : String)
  | missingCommand
  | missingOperand (name : String)
  | missingValue (option : String)
  | needlessValue (flag : String)
  | invalidValue (value : String)
  | repeated (name : String)
  | conflict (flag option : String)
deriving DecidableEq, Repr

/-- The wording of a mistake. -/
def Mistake.message : Mistake → String
  | unknownArgument text => "unexpected argument '" ++ text ++ "'"
  | unknownCommand word => "unrecognized command '" ++ word ++ "'"
  | missingCommand => "a command is required"
  | missingOperand name => "the argument <" ++ name ++ "> is required"
  | missingValue option => "a value is required for '--" ++ option ++ "'"
  | needlessValue flag => "'--" ++ flag ++ "' takes no value"
  | invalidValue value => "invalid value '" ++ value ++ "'"
  | repeated name => "'--" ++ name ++ "' may be given only once"
  | conflict flag option => "'--" ++ flag ++ "' cannot be used with '--" ++ option ++ "'"

/-- The arguments of a level. -/
structure Given where
  flags : List String := []
  options : List (String × String) := []
  operand : Option String := none
deriving DecidableEq, Repr

namespace Given

/-- A flag was given. -/
def has (g : Given) (flag : String) : Bool :=
  g.flags.contains flag

/-- The value of an option, if it was given. -/
def option? (g : Given) (name : String) : Option String :=
  g.options.lookup name

/-- Take a flag, which may be given once. -/
def addFlag (g : Given) (name : String) : Except Mistake Given :=
  if g.has name then .error (.repeated name) else .ok { g with flags := name :: g.flags }

/-- Take an option, which may be given once. -/
def addOption (g : Given) (name : String) (kind : ValueKind) (value : String) :
    Except Mistake Given :=
  if (g.option? name).isSome then .error (.repeated name)
  else if !kind.admits value then .error (.invalidValue value)
  else .ok { g with options := (name, value) :: g.options }

/-- Take an operand, of which there is at most one. -/
def addOperand (g : Given) (kind? : Option ValueKind) (value : String) : Except Mistake Given :=
  match kind?, g.operand with
  | some kind, none =>
    if kind.admits value then .ok { g with operand := some value }
    else .error (.invalidValue value)
  | _, _ => .error (.unknownArgument value)

end Given

/-- The form of an argument. -/
inductive Argument where
  /-- Two hyphens alone. -/
  | separator
  | long (name : String) (value : Option String)
  /-- Letters behind one hyphen. -/
  | letters (cs : List Char)
  | word (text : String)
deriving DecidableEq, Repr

namespace Argument

/-- The form of an argument; a single hyphen is a word. -/
def ofText (text : String) : Argument :=
  match text.toList with
  | '-' :: '-' :: [] => separator
  | '-' :: '-' :: cs =>
    match cs.span (· != '=') with
    | (name, []) => long (String.ofList name) none
    | (name, _ :: value) => long (String.ofList name) (some (String.ofList value))
  | '-' :: c :: cs => letters (c :: cs)
  | _ => word text

/-- The text of a word. -/
def word? : Argument → Option String
  | word text => some text
  | _ => none

end Argument

/-- What the arguments of a level come to. -/
inductive Taken where
  | version
  | all (g : Given)
  /-- A command, and the arguments after it. -/
  | command (g : Given) (word : String) (rest : List String)
deriving DecidableEq, Repr

namespace Level

/-- Take the letters behind a hyphen; none is left when the version was asked for. -/
def takeLetters (lv : Level) (g : Given) : List Char → Except Mistake (Option Given)
  | [] => .ok (some g)
  | c :: cs =>
    if lv.hasVersion && c == 'V' then .ok none
    else
      match lv.flags.find? fun f => f.letter == some c with
      | some f =>
        match g.addFlag f.name with
        | .ok g => lv.takeLetters g cs
        | .error m => .error m
      | none => .error (.unknownArgument (String.ofList ['-', c]))

/-- Take an argument with two hyphens: what it comes to, and the arguments that
are left. -/
def takeLong (lv : Level) (g : Given) (name : String) (value : Option String)
    (rest : List String) : Except Mistake (Option Given × List String) :=
  if (lv.flags.any fun f => f.name == name) || (lv.hasVersion && name == "version") then
    if value.isSome then .error (.needlessValue name)
    else if name == "version" then .ok (none, rest)
    else (g.addFlag name).map fun g => (some g, rest)
  else
    match lv.options.lookup name with
    | none => .error (.unknownArgument ("--" ++ name))
    | some kind =>
      match value, rest with
      | some v, rest => (g.addOption name kind v).map fun g => (some g, rest)
      | none, [] => .error (.missingValue name)
      | none, v :: rest =>
        match (Argument.ofText v).word? with
        | some v => (g.addOption name kind v).map fun g => (some g, rest)
        | none => .error (.missingValue name)

/-- Taking an argument leaves no more arguments than there were. -/
theorem length_takeLong_le {lv : Level} {g : Given} {name : String} {value : Option String}
    {rest left : List String} {g? : Option Given}
    (h : lv.takeLong g name value rest = .ok (g?, left)) : left.length ≤ rest.length := by
  unfold takeLong at h
  split at h
  · split at h
    · simp at h
    · split at h
      · simp only [Except.ok.injEq, Prod.mk.injEq] at h
        exact Nat.le_of_eq (by rw [h.2])
      · cases hg : g.addFlag name <;> simp_all [Except.map]
  · split at h
    · simp at h
    · next kind _ =>
      split at h
      · next v =>
        cases hg : g.addOption name kind v <;> simp_all [Except.map]
      · simp at h
      · split at h
        · next v _ =>
          cases hg : g.addOption name kind v with
          | error m => simp [hg, Except.map] at h
          | ok g =>
            simp only [hg, Except.map, Except.ok.injEq, Prod.mk.injEq] at h
            simp [← h.2]
        · simp at h

/-- Take the arguments of a level. -/
def take (lv : Level) (g : Given) (args : List String) : Except Mistake Taken :=
  match args with
  | [] => .ok (.all g)
  | arg :: rest =>
    match Argument.ofText arg with
    | .separator => (rest.foldlM (fun (g : Given) v => g.addOperand lv.operand v) g).map .all
    | .long name value =>
      match _ : lv.takeLong g name value rest with
      | .ok (some g, rest) => lv.take g rest
      | .ok (none, _) => .ok .version
      | .error m => .error m
    | .letters cs =>
      match lv.takeLetters g cs with
      | .ok (some g) => lv.take g rest
      | .ok none => .ok .version
      | .error m => .error m
    | .word text =>
      if lv.hasCommands then .ok (.command g text rest)
      else
        match g.addOperand lv.operand text with
        | .ok g => lv.take g rest
        | .error m => .error m
termination_by args.length
decreasing_by
  · exact Nat.lt_succ_of_le (length_takeLong_le ‹_›)
  · simp
  · simp

end Level

end Dashboard.CommandLine
