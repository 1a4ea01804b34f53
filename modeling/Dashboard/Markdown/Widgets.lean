import Dashboard.Log.Event
import Dashboard.Markdown.Pattern
import Dashboard.Markdown.Section
import Dashboard.Reference.Basic
import Dashboard.Text.Dedent
import Dashboard.Value.OfYaml

/-!
# Widgets in the documentation

The chapter on widgets has a section for each widget, which declares its type
in an example.  The first section of a type counts, and the widgets are given
in the order of their types.
-/

namespace Dashboard

mutual

/-- The first mapping of that type in a tree, in the order of the text. -/
def Value.findWidget? (type : String) : Value → Option Value
  | .map entries =>
    match Entries.get? entries "type" with
    | some (.str t) =>
      if Text.trim t = type then some (.map entries) else Value.findInEntries? type entries
    | _ => Value.findInEntries? type entries
  | .seq items => Value.findInItems? type items
  | _ => none

/-- The first one in the items of a list. -/
def Value.findInItems? (type : String) : List Value → Option Value
  | [] => none
  | v :: vs =>
    match Value.findWidget? type v with
    | some w => some w
    | none => Value.findInItems? type vs

/-- The first one in the entries of a mapping. -/
def Value.findInEntries? (type : String) : List (String × Value) → Option Value
  | [] => none
  | (_, v) :: m =>
    match Value.findWidget? type v with
    | some w => some w
    | none => Value.findInEntries? type m

end

namespace Markdown

/-- The text of the first block of YAML in a section, if it is not blank. -/
def exampleText? (body : List Char) : Option (List Char) := do
  let content ← firstMatch? exampleBlock? body
  let text := Text.trimChars (Text.dedentChars content)
  if text.isEmpty then none else some text

/-- The widget of a type in the first block of YAML of a section. -/
def example? (body : String) (type : String) : Option Value := do
  let text ← exampleText? body.toList
  let data ← Yaml.readChars? text
  (Value.ofDatum data).findWidget? type

/-- The heading of the chapter on widgets. -/
def widgetsHeading : List Char :=
  "## Widgets".toList

/-- The chapter on widgets: from its heading to the next one of its level. -/
def widgetsChapter? (text : List Char) : Option (List Char) := do
  let (_, rest) ← Text.splitAt? widgetsHeading text
  let body := match Text.splitAt? "\n## ".toList rest with
    | some (body, _) => body
    | none => rest
  return widgetsHeading ++ body

/-- The text of a section as it is documented. -/
def docText (s : Section) : String :=
  String.ofList (Text.trimChars (Text.dedentChars s.body))

/-- The documentation in a section that declares a type. -/
def docOf? (s : Section) : Option WidgetDoc := do
  let body := docText s
  let type ← firstMatch? typeItem? body.toList
  return { name := s.name, type, markdown := body, example? := example? body type }

/-- The first documentation of each type, other than the `seen` ones. -/
def firstOfType : List String → List WidgetDoc → List WidgetDoc
  | _, [] => []
  | seen, d :: ds =>
    if seen.contains d.type then firstOfType seen ds
    else d :: firstOfType (d.type :: seen) ds

/-- Put documentation into its place of a sorted list. -/
def insertByType (d : WidgetDoc) : List WidgetDoc → List WidgetDoc
  | [] => [d]
  | e :: es => if e.type < d.type then e :: insertByType d es else d :: e :: es

/-- Documentation in the order of the types. -/
def sortByType (docs : List WidgetDoc) : List WidgetDoc :=
  docs.foldr insertByType []

/-- The documented widgets of a configuration document. -/
def widgets (text : String) : List WidgetDoc :=
  match widgetsChapter? text.toList with
  | none => []
  | some chapter => sortByType (firstOfType [] ((sections "###" chapter).filterMap docOf?))

/-! ## Events -/

/-- Where the events of widgets come from. -/
def widgetsSource : String :=
  "glancectl_scrape::widgets"

/-- The event of an example that cannot be read. -/
def exampleEvents (d : WidgetDoc) : List Log.Event :=
  match exampleText? d.markdown.toList with
  | none => []
  | some text =>
    match Yaml.readChars? text with
    | some _ => []
    | none =>
      [{ severity := .debug, source := widgetsSource
         message := "example block is not valid YAML"
         fields := [Log.quotedText "widget_type" d.type, ("error", "malformed")] }]

/-- The events of documentation after that of `seen` types. -/
def docEvents : List String → List WidgetDoc → List Log.Event
  | _, [] => []
  | seen, d :: ds =>
    if seen.contains d.type then
      { severity := .debug, source := widgetsSource
        message := "duplicate widget type, keeping the first"
        fields := [Log.quotedText "widget_type" d.type, Log.quotedText "section" d.name] } ::
      docEvents seen ds
    else exampleEvents d ++ docEvents (d.type :: seen) ds

/-- The events of reading a configuration document. -/
def widgetsEvents (text : String) : List Log.Event :=
  match widgetsChapter? text.toList with
  | none =>
    [{ severity := .debug, source := widgetsSource, message := "no widgets chapter found" }]
  | some chapter => docEvents [] ((sections "###" chapter).filterMap docOf?)

end Markdown

end Dashboard
