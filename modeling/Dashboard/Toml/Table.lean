import Dashboard.Entries

/-!
# Tables of TOML

A table is stated by a header, or comes into being on the way to one or to a
dotted key.  Whatever was stated once may not be stated or extended from
elsewhere; an operation that would do so gives nothing.  Of the values only
texts are kept.
-/

namespace Dashboard

/-- How a table came into being. -/
inductive Toml.Origin where
  | stated
  | onTheWay
  | dotted
deriving DecidableEq, Repr

/-- What stands under a key. -/
inductive Toml where
  | text (s : String)
  /-- A number, date, truth value, list or table in one line. -/
  | other
  | table (origin : Toml.Origin) (entries : List (String × Toml))
  | tables (items : List (List (String × Toml)))
deriving Inhabited

namespace Toml

/-- The entries of a table. -/
abbrev Table := Entries Toml

/-- Put a value under a dotted key, of which `path` are the parts before the last. -/
def putDotted (key : String) (v : Toml) : List String → Table → Option Table
  | [], t => if Entries.has t key then none else some (t ++ [(key, v)])
  | k :: path, t =>
    match Entries.get? t k with
    | none => do return t ++ [(k, .table .dotted (← putDotted key v path []))]
    | some (.table origin sub) =>
      if origin = .stated || (path.isEmpty && origin ≠ .dotted) then none
      else do return Entries.put t k (.table origin (← putDotted key v path sub))
    | some (.tables items) =>
      match items.getLast? with
      | some last =>
        if path.isEmpty then none
        else do
          return Entries.put t k (.tables (items.dropLast ++ [← putDotted key v path last]))
      | none => none
    | some _ => none

/-- Change the table that a header path leads to.  Tables on the way come into
being, and of a list of tables the last one is meant. -/
def changeAt (change : Table → Option Table) : List String → Table → Option Table
  | [], t => change t
  | k :: path, t =>
    match Entries.get? t k with
    | none => do return t ++ [(k, .table .onTheWay (← changeAt change path []))]
    | some (.table origin sub) => do
      return Entries.put t k (.table origin (← changeAt change path sub))
    | some (.tables items) =>
      match items.getLast? with
      | some last => do
        return Entries.put t k (.tables (items.dropLast ++ [← changeAt change path last]))
      | none => none
    | some _ => none

/-- State a table in the one that holds it. -/
def stateTable (key : String) (t : Table) : Option Table :=
  match Entries.get? t key with
  | none => some (t ++ [(key, .table .stated [])])
  | some (.table .onTheWay sub) => some (Entries.put t key (.table .stated sub))
  | some _ => none

/-- Append a table to a list of tables. -/
def appendTable (key : String) (t : Table) : Option Table :=
  match Entries.get? t key with
  | none => some (t ++ [(key, .tables [[]])])
  | some (.tables items) => some (Entries.put t key (.tables (items ++ [[]])))
  | some _ => none

end Toml

end Dashboard
