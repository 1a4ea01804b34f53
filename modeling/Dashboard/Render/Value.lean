import Dashboard.Render.Quoting
import Dashboard.Value.Basic

/-!
# Values as text

Every value has a flow form on one line and a block form on lines of its own.
The block form is the layout of configuration files: two blanks for every
depth, keys and items in order, an empty container in brackets.  The scalars
of a block are bare or quoted by the rule of `Render.quoted`; in the flow form,
where commas and brackets have a meaning, every text is quoted.
-/

namespace Dashboard.Render

/-- The text of a scalar other than a text; containers have none. -/
def plainScalar : Value → List Char
  | .null => "null".toList
  | .bool true => "true".toList
  | .bool false => "false".toList
  | .int n => Value.intText n
  | .float x => Value.floatText x
  | _ => []

mutual

/-- A value on one line, every text in double quotes. -/
def flow : Value → List Char
  | .str s => doubleQuoted s.toList
  | .seq items => '[' :: flowItems items ++ [']']
  | .map entries => '\x7b' :: flowEntries entries ++ ['\x7d']
  | v => plainScalar v

/-- Items with commas between them. -/
def flowItems : List Value → List Char
  | [] => []
  | [v] => flow v
  | v :: vs => flow v ++ ',' :: ' ' :: flowItems vs

/-- Entries with commas between them. -/
def flowEntries : List (String × Value) → List Char
  | [] => []
  | [(k, v)] => doubleQuoted k.toList ++ ':' :: ' ' :: flow v
  | (k, v) :: m => doubleQuoted k.toList ++ ':' :: ' ' :: flow v ++ ',' :: ' ' :: flowEntries m

end

/-- The inline text of a value: a text is quoted only if it needs to be, and a
container is in flow form. -/
def inline : Value → List Char
  | .str s => quoted s.toList
  | v => flow v

/-- The blanks of a depth. -/
def indentation (depth : Nat) : List Char :=
  List.replicate (2 * depth) ' '

mutual

/-- The lines of a value at a depth. -/
def blockLines (depth : Nat) : Value → List (List Char)
  | .seq [] => [indentation depth ++ ['[', ']']]
  | .seq (v :: vs) => itemLines depth (v :: vs)
  | .map [] => [indentation depth ++ ['\x7b', '\x7d']]
  | .map (e :: m) => entryLines depth (e :: m)
  | v => [indentation depth ++ inline v]

/-- The lines of the items of a list: a container goes below its mark. -/
def itemLines (depth : Nat) : List Value → List (List Char)
  | [] => []
  | v :: vs =>
    (if v.isContainer then (indentation depth ++ ['-']) :: blockLines (depth + 1) v
      else [indentation depth ++ '-' :: ' ' :: inline v]) ++ itemLines depth vs

/-- The lines of the entries of a mapping: a container goes below its key. -/
def entryLines (depth : Nat) : List (String × Value) → List (List Char)
  | [] => []
  | (k, v) :: m =>
    (if v.isContainer then
        (indentation depth ++ quoted k.toList ++ [':']) :: blockLines (depth + 1) v
      else [indentation depth ++ quoted k.toList ++ ':' :: ' ' :: inline v]) ++
      entryLines depth m

end

/-- Lines with line feeds between them. -/
def joinLines : List (List Char) → List Char
  | [] => []
  | [l] => l
  | l :: ls => l ++ '\n' :: joinLines ls

/-- The block form of a value at a depth. -/
def block (depth : Nat) (v : Value) : List Char :=
  joinLines (blockLines depth v)

/-- The block form of a value at a depth. -/
def blockText (depth : Nat) (v : Value) : String :=
  String.ofList (block depth v)

/-- The inline text of a value. -/
def inlineText (v : Value) : String :=
  String.ofList (inline v)

/-- The flow form of a value. -/
def flowText (v : Value) : String :=
  String.ofList (flow v)

end Dashboard.Render
