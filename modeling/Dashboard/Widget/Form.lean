import Dashboard.Render.Value
import Dashboard.Text.Lines
import Dashboard.Value.OfYaml
import Dashboard.Widget.Basic

/-!
# The widget form

A widget is edited as three texts: type, title, and options with one
`key=value` a line.  A key that would not come back as it is stands between
double quotes; values are written as in a configuration file, containers on
one line.  Submitting the form builds the widget again from nothing.
-/

namespace Dashboard

/-- The three texts of the widget form. -/
structure WidgetForm where
  type : String := ""
  title : String := ""
  options : String := ""
deriving DecidableEq, Inhabited

namespace WidgetForm

/-- A key that stands bare in a form line. -/
def isBareKey (key : List Char) : Bool :=
  !key.isEmpty && !key.contains '=' && key.head? != some '"' &&
  Text.trimChars key == key && !key.any Render.needsEscape

/-- The form line of an option. -/
def line (key : String) (v : Value) : List Char :=
  let key := key.toList
  (if isBareKey key then key else Render.doubleQuoted key) ++ '=' :: Render.inline v

/-- Form lines as one text. -/
def joined (lines : List (List Char)) : String :=
  String.ofList (Render.joinLines lines)

/-- The form that shows a widget. -/
def ofWidget (w : Widget) : WidgetForm where
  type := w.type
  title := w.title.getD ""
  options := joined (w.options.map fun e => line e.1 e.2)

/-- The title that an example suggests: the text of a scalar. -/
def exampleTitle (m : Mapping) : String :=
  match Entries.get? m "title" with
  | some v => v.scalarText?.getD ""
  | none => ""

/-- The form that a documented example suggests for a type. -/
def ofExample (type : String) : Value → WidgetForm
  | .map m =>
    let options := m.filter fun e => e.1 != "type" && e.1 != "title"
    { type, title := exampleTitle m, options := joined (options.map fun e => line e.1 e.2) }
  | _ => { type := type }

/-- The characters up to and with the next quote that no backslash escapes, and
those behind it. -/
def cutAtQuote (escaped : Bool) : List Char → Option (List Char × List Char)
  | [] => none
  | c :: cs =>
    if !escaped && c == '"' then some ([c], cs)
    else do
      let (quoted, rest) ← cutAtQuote (!escaped && c == '\\') cs
      return (c :: quoted, rest)

/-- The text that a double-quoted key stands for. -/
def readQuotedKey? (quoted : List Char) : Option String :=
  match Yaml.readChars? quoted with
  | some (.scalar (.str key)) => some key
  | _ => none

/-- The characters before the first equals sign and those behind it. -/
def cutAtEquals : List Char → Option (List Char × List Char)
  | [] => none
  | c :: cs =>
    if c == '=' then some ([], cs)
    else do
      let (key, rest) ← cutAtEquals cs
      return (c :: key, rest)

/-- Key and value of a form line.  A key in double quotes may hold anything; a
bare one runs to the first equals sign and is not blank. -/
def readLine? (line : List Char) : Option (String × List Char) :=
  match Text.dropBlanks line with
  | '"' :: rest => do
    let (quoted, rest) ← cutAtQuote false rest
    let key ← readQuotedKey? ('"' :: quoted)
    match Text.dropBlanks rest with
    | '=' :: value => return (key, value)
    | _ => none
  | _ => do
    let (key, value) ← cutAtEquals line
    let key := Text.trimChars key
    if key.isEmpty then none else some (String.ofList key, value)

/-- Add the option of one numbered form line; blank lines are passed over. -/
def addLine (w : Widget) (number : Nat) (line : String) : Except Error Widget :=
  if Text.isBlankText line then .ok w
  else
    match readLine? line.toList with
    | none => .error (.invalidOptionLine number (Text.trim line))
    | some (key, value) =>
      if Widget.reservedKeys.contains key then .error (.reservedOptionKey key)
      else w.insertOption [.key key] (Value.ofFormText (String.ofList value))

/-- Add the options of form lines, numbered from `number`. -/
def addLines (w : Widget) (number : Nat) : List String → Except Error Widget
  | [] => .ok w
  | line :: lines => do addLines (← addLine w number line) (number + 1) lines

/-- The widget that a submitted form describes. -/
def toWidget (f : WidgetForm) : Except Error Widget := do
  let w ← Widget.ofType f.type
  addLines (w.setTitle (some f.title)) 1 (Text.lines f.options)

end WidgetForm

end Dashboard
