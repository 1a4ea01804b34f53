import Dashboard.Document.Load
import Dashboard.Log.Event

/-!
# What reading a document tells the log

Reading passes over what does not fit.  Each such place is an event, in the
order of the file, up to the first error; a document that was read is one
event more.
-/

namespace Dashboard

namespace LoadEvents

/-- Where the events of reading come from. -/
def source : String :=
  "glancectl_core::load"

/-- An entry that is no mapping was passed over. -/
def skipped (what : String) (place : List (String × String)) (index : Nat) (v : Value) :
    Log.Event :=
  { severity := .debug, source, message := "skipping non-mapping " ++ what
    fields := place ++ [Log.number "index" index, Log.quotedText "kind" v.kind] }

/-- The events of the entries of a list from a place on, up to the first
mapping that cannot be read. -/
def ofEntries {α : Type} (skip : Nat → Value → Log.Event) (events : Mapping → List Log.Event)
    (read : Mapping → Except Error α) : Nat → List Value → List Log.Event
  | _, [] => []
  | i, .map m :: vs =>
    events m ++
      match read m with
      | .ok _ => ofEntries skip events read (i + 1) vs
      | .error _ => []
  | i, v :: vs => skip i v :: ofEntries skip events read (i + 1) vs

/-- A key that should hold a list holds something else. -/
def ofKey (m : Mapping) (key : String) : List Log.Event :=
  match Entries.get? m key with
  | none | some .null | some (.seq _) => []
  | some v =>
    [{ severity := .warn, source, message := "expected a list, using an empty one"
       fields := [Log.quotedText "key" key, Log.quotedText "kind" v.kind] }]

/-- The event of an entry of a list of widgets, if it is dropped. -/
def ofWidget (index : Nat) : Value → List Log.Event
  | .map m =>
    match Widget.ofMapping? m with
    | some _ => []
    | none =>
      [{ severity := .warn, source, message := "dropping widget without a type"
         fields := [Log.number "index" index] }]
  | v => [skipped "widget" [] index v]

/-- The events of a column. -/
def ofColumn (m : Mapping) : List Log.Event :=
  match ColumnSize.ofValue (Entries.get? m "size") with
  | .ok _ =>
    ofKey m "widgets" ++ (m.itemsAt "widgets").zipIdx.flatMap fun p => ofWidget p.2 p.1
  | .error _ => []

/-- The events of a page. -/
def ofPage (m : Mapping) : List Log.Event :=
  let name := Page.nameOf (Entries.get? m "name")
  ofKey m "columns" ++
    ofEntries (skipped "column" [("page", name)]) ofColumn Column.ofMapping 0
      (m.itemsAt "columns")

/-- A document was read. -/
def loaded (d : Document) : Log.Event :=
  { severity := .debug, source, message := "loaded configuration"
    fields := [Log.number "pages" d.pages.length, Log.number "widgets" d.widgetCount] }

/-- The events of reading a value as a document. -/
def ofValue (v : Value) : List Log.Event :=
  (match v with
    | .map m => ofEntries (skipped "page" []) ofPage Page.ofMapping 0 (Mapping.itemsAt m "pages")
    | _ => []) ++
  match Document.ofValue v with
  | .ok d => [loaded d]
  | .error _ => []

end LoadEvents

/-- The events of reading the text of a file. -/
def Document.parseEvents (text : String) : List Log.Event :=
  match Value.ofYaml? text with
  | some v => LoadEvents.ofValue v
  | none => []

end Dashboard
