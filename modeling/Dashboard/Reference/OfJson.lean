import Dashboard.Json.Reader
import Dashboard.Reference.Basic
import Dashboard.Reference.Misfit

/-!
# Reading reference data

The reference file is JSON: an object with the lists `widgets` and
`templates`.  Reading never fails.  A text that is no such object gives empty
data, and an entry of another shape than expected is passed over by itself.  A
bare text in the list of widgets is a type without documentation.
-/

namespace Dashboard

namespace Value

/-- The text of a field that must be one. -/
def needText : Value → Except Misfit String
  | .str s => .ok s
  | v => .error (.wrongKind v "a string")

/-- The text of a field that may be null. -/
def optionalText : Value → Except Misfit (Option String)
  | .null => .ok none
  | v => v.needText.map some

end Value

/-- The text of a field that was found to be one, or the empty text. -/
def Mapping.textAt (m : Mapping) (key : String) : String :=
  ((Entries.get? m key).bind Value.asText?).getD ""

/-- The text of a field that is there. -/
def Mapping.requiredText (m : Mapping) (key : String) : Except Misfit String :=
  match Entries.get? m key with
  | some v => v.needText
  | none => .error (.missingField key)

/-- The fields of a documented widget are checked in the order of the entry. -/
def WidgetDoc.checkField (e : String × Value) : Except Misfit Unit :=
  if ["name", "type", "markdown"].contains e.1 then e.2.needText.map fun _ => () else .ok ()

/-- The documentation that an object stands for. -/
def WidgetDoc.ofMapping (m : Mapping) : Except Misfit WidgetDoc := do
  m.forM WidgetDoc.checkField
  return {
    name := m.textAt "name"
    type := ← m.requiredText "type"
    markdown := m.textAt "markdown"
    example? := (Entries.get? m "example").filter fun v => v != .null }

namespace Template

/-- The fields of a page are checked in the order of the entry. -/
def checkField (e : String × Value) : Except Misfit Unit :=
  if ["name", "yaml"].contains e.1 then e.2.needText.map fun _ => ()
  else if ["preview_image", "requires"].contains e.1 then e.2.optionalText.map fun _ => ()
  else .ok ()

/-- The page that an object stands for. -/
def ofMapping (m : Mapping) : Except Misfit Template := do
  m.forM checkField
  return {
    name := ← m.requiredText "name"
    previewImage := (Entries.get? m "preview_image").bind Value.asText?
    requires := (Entries.get? m "requires").bind Value.asText?
    yaml := ← m.requiredText "yaml" }

/-- What a page needs when it is written as a list. -/
def listShape : String :=
  "struct TemplateEntry with 4 elements"

/-- The page that a list of its four fields stands for. -/
def ofItems (items : List Value) : Except Misfit Template := do
  let some name := items[0]? | .error (.wrongLength 0 listShape)
  let name ← name.needText
  let previewImage ← (items[1]?.getD Value.null).optionalText
  let requires ← (items[2]?.getD Value.null).optionalText
  let some yaml := items[3]? | .error (.wrongLength 3 listShape)
  let yaml ← yaml.needText
  if items.length ≠ 4 then .error (.wrongLength items.length "fewer elements in array")
  return { name, previewImage, requires, yaml }

/-- The page that an entry stands for. -/
def ofValue : Value → Except Misfit Template
  | .map m => ofMapping m
  | .seq items => ofItems items
  | v => .error (.wrongKind v "struct TemplateEntry")

end Template

namespace Reference

/-- The documentation that an entry of the list of widgets stands for. -/
def docOf? : Value → Option WidgetDoc
  | .map m => (WidgetDoc.ofMapping m).toOption
  | _ => none

/-- The data of the object in a reference file. -/
def ofMapping (root : Mapping) : Reference where
  docs := (root.itemsAt "widgets").filterMap docOf?
  templates := (root.itemsAt "templates").filterMap fun v => (Template.ofValue v).toOption
  bareTypes := (root.itemsAt "widgets").filterMap Value.asText?

/-- The data of the text of a reference file. -/
def ofJson (text : String) : Reference :=
  match Json.read text with
  | .ok (.map root) => ofMapping root
  | _ => {}

end Reference

end Dashboard
