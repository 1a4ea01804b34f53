import Dashboard.Json.Number
import Dashboard.Json.Quoted

/-!
# Writing JSON

`compact` writes a value without blanks; `pretty` puts every item and entry on
a line of its own, two spaces deeper than its container.
-/

namespace Dashboard.Json

/-- The text of a scalar. -/
def scalar : Value → List Char
  | .bool true => "true".toList
  | .bool false => "false".toList
  | .int n => Value.intText n
  | .float x => floatText x
  | .str s => quote s.toList
  | _ => "null".toList

mutual

/-- A value without blanks. -/
def compact : Value → List Char
  | .seq items => '[' :: compactItems items ++ [']']
  | .map entries => '\x7b' :: compactEntries entries ++ ['\x7d']
  | v => scalar v

/-- Items with commas between them. -/
def compactItems : List Value → List Char
  | [] => []
  | [v] => compact v
  | v :: vs => compact v ++ ',' :: compactItems vs

/-- Entries with commas between them. -/
def compactEntries : List (String × Value) → List Char
  | [] => []
  | [(k, v)] => quote k.toList ++ ':' :: compact v
  | (k, v) :: m => quote k.toList ++ ':' :: compact v ++ ',' :: compactEntries m

end

/-- A line break and the blanks of a nesting depth. -/
def newline (depth : Nat) : List Char :=
  '\n' :: List.replicate (2 * depth) ' '

mutual

/-- A value on lines of its own, inside containers of a nesting depth. -/
def prettyAt (depth : Nat) : Value → List Char
  | .seq [] => ['[', ']']
  | .seq (v :: vs) =>
    '[' :: newline (depth + 1) ++ prettyAt (depth + 1) v ++
      prettyItems (depth + 1) vs ++ newline depth ++ [']']
  | .map [] => ['\x7b', '\x7d']
  | .map ((k, v) :: m) =>
    '\x7b' :: newline (depth + 1) ++ quote k.toList ++ ':' :: ' ' :: prettyAt (depth + 1) v ++
      prettyEntries (depth + 1) m ++ newline depth ++ ['\x7d']
  | v => scalar v

/-- The items after the first one. -/
def prettyItems (depth : Nat) : List Value → List Char
  | [] => []
  | v :: vs => ',' :: newline depth ++ prettyAt depth v ++ prettyItems depth vs

/-- The entries after the first one. -/
def prettyEntries (depth : Nat) : List (String × Value) → List Char
  | [] => []
  | (k, v) :: m =>
    ',' :: newline depth ++ quote k.toList ++ ':' :: ' ' :: prettyAt depth v ++
      prettyEntries depth m

end

/-- The text of a value without blanks. -/
def compactText (v : Value) : String :=
  String.ofList (compact v)

/-- The text of a value with one item or entry a line. -/
def prettyText (v : Value) : String :=
  String.ofList (prettyAt 0 v)

end Dashboard.Json
