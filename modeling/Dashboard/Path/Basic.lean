import Dashboard.Error
import Dashboard.Text.Blank

/-!
# Paths into an option tree

A path is a list of steps from the root: a key into a mapping, an index into a
list.  Its text is `feeds[0].url`.  Reading takes exactly what can be a path
text with non-empty keys; an index has 64 bits.
-/

namespace Dashboard

/-- One step into a container. -/
inductive Step where
  | key (name : String)
  | index (i : Nat)
deriving DecidableEq, Repr

/-- Steps from the root of an option tree. -/
abbrev Path := List Step

namespace Step

/-- The text of a step by itself. -/
def text : Step → List Char
  | key name => name.toList
  | index i => '[' :: Nat.toDigits 10 i ++ [']']

end Step

namespace Path

/-- The text of the steps after a text; keys are set off by a point unless
nothing stands before them. -/
def textAfter (before : List Char) : Path → List Char
  | [] => before
  | .key name :: p =>
    textAfter (before ++ (if before.isEmpty then [] else ['.']) ++ name.toList) p
  | .index i :: p => textAfter (before ++ (Step.index i).text) p

/-- The text of a path; the empty path is the root. -/
def text : Path → String
  | [] => "<root>"
  | p => String.ofList (textAfter [] p)

/-- The largest index that is read. -/
def maxIndex : Nat :=
  0xFFFFFFFFFFFFFFFF

/-- The index between brackets, on top of `n`, and what follows them. -/
def readIndex? : Option Nat → List Char → Option (Nat × List Char)
  | _, [] => none
  | n?, c :: cs =>
    if c == ']' then
      match n? with
      | some n => if n ≤ maxIndex then some (n, cs) else none
      | none => none
    else if c.isDigit then readIndex? (some (n?.getD 0 * 10 + (c.toNat - 48))) cs
    else none

/-- The index takes its brackets from the text. -/
theorem length_lt_of_readIndex? {n? : Option Nat} {cs rest : List Char} {i : Nat}
    (h : readIndex? n? cs = some (i, rest)) : rest.length < cs.length := by
  induction cs generalizing n? with
  | nil => simp [readIndex?] at h
  | cons c cs ih =>
    simp only [readIndex?] at h
    split at h
    · split at h
      · split at h
        · simp only [Option.some.injEq, Prod.mk.injEq] at h
          obtain ⟨-, rfl⟩ := h
          simp
        · simp at h
      · simp at h
    · split at h
      · have := ih h
        simp only [List.length_cons]
        omega
      · simp at h

/-- The step of a collected key, if there is one. -/
def keyStep (key : List Char) : Path :=
  if key.isEmpty then [] else [.key (String.ofList key)]

/-- Read the rest of a path: `key` has been collected of the key in progress,
`due` says that a key must come, and `started` that a step was read. -/
def readFrom? (key : List Char) (due started : Bool) (cs : List Char) : Option Path :=
  match cs with
  | [] => if key.isEmpty && due then none else some (keyStep key)
  | c :: cs =>
    if c == '.' then
      if key.isEmpty && due then none
      else do return keyStep key ++ (← readFrom? [] true (started || !key.isEmpty) cs)
    else if c == '[' then
      if key.isEmpty && !started then none
      else
        match _ : readIndex? none cs with
        | some (i, rest) => do
          return keyStep key ++ .index i :: (← readFrom? [] false true rest)
        | none => none
    else if c == ']' then none
    else readFrom? (key ++ [c]) false started cs
termination_by cs.length
decreasing_by
  · simp
  · have := length_lt_of_readIndex? ‹_›
    simp only [List.length_cons]
    omega
  · simp

/-- The path that a text spells, blanks around it apart. -/
def read (text : String) : Except Error Path :=
  match readFrom? [] true false (Text.trimChars text.toList) with
  | some p => .ok p
  | none => .error (.pathNotFound (Text.trim text))

end Path

end Dashboard
