/-!
# Why a JSON text is refused

A reader stops at the first fault.  It reports the cause and what was left of
the text there; line and column are computed from that rest.  Columns count
bytes, and a fault seen at the next character points one byte further.
-/

namespace Dashboard.Json

/-- The kinds of fault. -/
inductive Cause where
  | unfinishedList
  | unfinishedObject
  | unfinishedText
  | unfinishedValue
  | colonExpected
  | listCommaOrEndExpected
  | objectCommaOrEndExpected
  | identifierExpected
  | valueExpected
  | invalidEscape
  | invalidNumber
  | numberOutOfRange
  | controlCharacter
  | keyNotText
  | loneSurrogate
  | unfinishedSurrogate
  | trailingComma
  | trailingCharacters
  | tooDeep
deriving DecidableEq, Repr

/-- The wording of a cause. -/
def Cause.message : Cause → String
  | .unfinishedList => "EOF while parsing a list"
  | .unfinishedObject => "EOF while parsing an object"
  | .unfinishedText => "EOF while parsing a string"
  | .unfinishedValue => "EOF while parsing a value"
  | .colonExpected => "expected `:`"
  | .listCommaOrEndExpected => "expected `,` or `]`"
  | .objectCommaOrEndExpected => "expected `,` or `\x7d`"
  | .identifierExpected => "expected ident"
  | .valueExpected => "expected value"
  | .invalidEscape => "invalid escape"
  | .invalidNumber => "invalid number"
  | .numberOutOfRange => "number out of range"
  | .controlCharacter => "control character (\\u0000-\\u001F) found while parsing a string"
  | .keyNotText => "key must be a string"
  | .loneSurrogate => "lone leading surrogate in hex escape"
  | .unfinishedSurrogate => "unexpected end of hex escape"
  | .trailingComma => "trailing comma"
  | .trailingCharacters => "trailing characters"
  | .tooDeep => "recursion limit exceeded"

/-- A cause and the text that was left; `ahead` when the fault is the next
character, which has not been taken yet. -/
structure Failure where
  cause : Cause
  rest : List Char
  ahead : Bool
deriving DecidableEq, Repr

/-- A fault in what was just taken. -/
def failed {α : Type} (cause : Cause) (rest : List Char) : Except Failure α :=
  .error ⟨cause, rest, false⟩

/-- A fault in the next character, or in its absence. -/
def failedAhead {α : Type} (cause : Cause) (rest : List Char) : Except Failure α :=
  .error ⟨cause, rest, true⟩

/-- Line, from 1, and column in bytes of the end of a text. -/
def position (taken : List Char) : Nat × Nat :=
  let line := taken.reverse.takeWhile (· != '\n')
  (taken.count '\n' + 1, (String.ofList line).utf8ByteSize)

/-- The message of a failure in a text. -/
def Failure.message (text : List Char) (f : Failure) : String :=
  let (line, column) := position (text.take (text.length - f.rest.length))
  let column := if f.ahead && !f.rest.isEmpty then column + 1 else column
  f.cause.message ++ " at line " ++ toString line ++ " column " ++ toString column

end Dashboard.Json
