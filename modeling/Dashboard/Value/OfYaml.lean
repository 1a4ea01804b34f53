import Dashboard.Json.Printer
import Dashboard.Text.Blank
import Dashboard.Yaml.Reader

/-!
# Values from YAML

Configuration files and form fields are YAML.  A value forgets tags, turns the
keys of mappings into texts, and turns integers that need an unsigned type
into numbers.
-/

namespace Dashboard.Value

/-- The value of an integer. -/
def ofInt (n : Int) : Value :=
  if n < 0x8000000000000000 then .int (Int64.ofInt n) else .float (Double.ofNat n.toNat)

/-- The value of a scalar. -/
def ofScalar : Yaml.Scalar → Value
  | .null => .null
  | .bool b => .bool b
  | .int n => ofInt n
  | .float x => .float x
  | .str s => .str s

/-- The text of a value that is a key: a container is written as JSON. -/
def keyText (v : Value) : String :=
  match v.scalarText? with
  | some s => s
  | none => Json.compactText v

mutual

/-- The value of data. -/
def ofDatum : Yaml.Datum → Value
  | .scalar s => ofScalar s
  | .seq items => .seq (ofItems items)
  | .map entries => .map (Entries.ofPairs (ofEntries entries))
  | .tagged _ content => ofDatum content

/-- Item by item. -/
def ofItems : List Yaml.Datum → List Value
  | [] => []
  | d :: ds => ofDatum d :: ofItems ds

/-- Entry by entry, with the texts of the keys. -/
def ofEntries : List (Yaml.Datum × Yaml.Datum) → List (String × Value)
  | [] => []
  | (k, v) :: m => (keyText (ofDatum k), ofDatum v) :: ofEntries m

end

/-- The value of a YAML text. -/
def ofYaml? (text : String) : Option Value :=
  (Yaml.read? text).map ofDatum

/-- The words that a form field takes for null. -/
def isNullWord (text : String) : Bool :=
  Yaml.Scalar.isNullWord text.toList

/-- The value of a text typed into a form field.  Scalars are typed as in YAML,
and a text that opens a bracket is a collection when it is one.  What YAML
would read in any other way is the text itself, without the blanks around it;
a blank text is the empty text. -/
def ofFormText (text : String) : Value :=
  let text := Text.trim text
  match text.toList with
  | [] => .str ""
  | c :: _ =>
    if c == '&' || c == '*' then .str text
    else
      match Yaml.read? text with
      | some (.scalar .null) => if isNullWord text then .null else .str text
      | some (.scalar s) => ofScalar s
      | some (.seq items) => if c == '[' || c == '\x7b' then ofDatum (.seq items) else .str text
      | some (.map entries) =>
        if c == '[' || c == '\x7b' then ofDatum (.map entries) else .str text
      | _ => .str text

end Dashboard.Value
