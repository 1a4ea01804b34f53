import Dashboard.Document.Basic
import Dashboard.Value.OfYaml

/-!
# Reading a document

A configuration file is a mapping with a list of pages.  Files written by hand
leave out much of what the editor relies on, so every level is brought into
shape: a page without a name gets one, a missing list is empty, an entry that
is no mapping is passed over, and so is a widget without a type.  The keys
without a meaning stay with their level in their order.  Only the size of a
column is strict.
-/

namespace Dashboard

/-- The mappings among values, in order. -/
def Value.mappings (items : List Value) : List Mapping :=
  items.filterMap fun
    | .map m => some m
    | _ => none

/-- The size a column asks for; without one it is small. -/
def ColumnSize.ofValue : Option Value → Except Error ColumnSize
  | none | some .null => .ok .small
  | some (.str text) => ColumnSize.read text
  | some v => .error (.invalidColumnSize (v.scalarText?.getD "<container>"))

/-- The column that a mapping stands for. -/
def Column.ofMapping (m : Mapping) : Except Error Column := do
  let size ← ColumnSize.ofValue (Entries.get? m "size")
  return {
    size
    widgets := (Value.mappings (m.itemsAt "widgets")).filterMap Widget.ofMapping?
    properties := Entries.erase (Entries.erase m "size") "widgets" }

/-- The name of a page that has none. -/
def Page.defaultName : String :=
  "Untitled page"

/-- The name a page asks for: a text as it is, another scalar as its text. -/
def Page.nameOf : Option Value → String
  | none | some .null => Page.defaultName
  | some v => v.scalarText?.getD Page.defaultName

/-- The page that a mapping stands for. -/
def Page.ofMapping (m : Mapping) : Except Error Page := do
  let columns ← (Value.mappings (m.itemsAt "columns")).mapM Column.ofMapping
  return {
    name := Page.nameOf (Entries.get? m "name")
    columns
    properties := Entries.erase (Entries.erase m "name") "columns" }

namespace Document

/-- The document that a value stands for. -/
def ofValue : Value → Except Error Document
  | .map m =>
    match Entries.get? m "pages" with
    | some (.seq items) => do
      let pages ← (Value.mappings items).mapM Page.ofMapping
      return { pages, settings := Entries.erase m "pages" }
    | _ => .error .missingPages
  | _ => .error .notAMapping

/-- The document that the text of a file stands for. -/
def parse (text : String) : Except Error Document :=
  match Value.ofYaml? text with
  | some v => ofValue v
  | none => .error .malformedYaml

end Document

end Dashboard
