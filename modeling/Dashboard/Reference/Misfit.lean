import Dashboard.Json.Number
import Dashboard.Text.Quoted

/-!
# Why an entry of the reference file is passed over

An entry that has not the expected shape is left out, and the log says why.
-/

namespace Dashboard

/-- What is wrong with an entry. -/
inductive Misfit where
  | missingField (name : String)
  | wrongKind (found : Value) (expected : String)
  | wrongLength (length : Nat) (expected : String)
deriving DecidableEq

namespace Misfit

/-- What was found, in the words of a message. -/
def found : Value → String
  | .null => "null"
  | .bool true => "boolean `true`"
  | .bool false => "boolean `false`"
  | .int n => "integer `" ++ String.ofList (Value.intText n) ++ "`"
  | .float x => "floating point `" ++ String.ofList (Json.floatText x) ++ "`"
  | .str s => "string " ++ Text.quoted s
  | .seq _ => "sequence"
  | .map _ => "map"

/-- The wording. -/
def message : Misfit → String
  | missingField name => "missing field `" ++ name ++ "`"
  | wrongKind v expected => "invalid type: " ++ found v ++ ", expected " ++ expected
  | wrongLength length expected =>
    "invalid length " ++ toString length ++ ", expected " ++ expected

end Misfit

end Dashboard
