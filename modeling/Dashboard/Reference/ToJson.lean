import Dashboard.Json.Printer
import Dashboard.Reference.Basic

/-!
# Writing reference data

The reference file lists documented widgets and pages.  Types without
documentation are not written, and neither is a missing example.
-/

namespace Dashboard

/-- The value of a text that may be missing. -/
def Value.ofText? : Option String → Value
  | some s => .str s
  | none => .null

/-- The object that stands for a documented widget. -/
def WidgetDoc.toValue (d : WidgetDoc) : Value :=
  .map ([("name", .str d.name), ("type", .str d.type), ("markdown", .str d.markdown)] ++
    match d.example? with
    | some v => [("example", v)]
    | none => [])

/-- The object that stands for a page. -/
def Template.toValue (t : Template) : Value :=
  .map [("name", .str t.name), ("preview_image", .ofText? t.previewImage),
    ("requires", .ofText? t.requires), ("yaml", .str t.yaml)]

namespace Reference

/-- The object in a reference file. -/
def toValue (r : Reference) : Value :=
  .map [("widgets", .seq (r.docs.map WidgetDoc.toValue)),
    ("templates", .seq (r.templates.map Template.toValue))]

/-- The text of a reference file. -/
def toJson (r : Reference) : String :=
  Json.prettyText r.toValue ++ "\n"

end Reference

end Dashboard
