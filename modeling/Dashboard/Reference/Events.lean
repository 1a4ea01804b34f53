import Dashboard.Files.Store
import Dashboard.Log.Event
import Dashboard.Reference.OfJson

/-!
# What reading reference data tells the log

Whatever is passed over is an event: first what concerns the whole file, then
the entries of each list in order.
-/

namespace Dashboard.Reference

/-- Where the events of reference data come from. -/
def source : String :=
  "glancectl_core::reference"

/-- An event with fields. -/
def event (severity : Log.Severity) (message : String) (fields : List (String × String)) :
    Log.Event :=
  { severity, source, message, fields }

/-- A key that should hold a list holds something else. -/
def keyEvents (root : Mapping) (key : String) : List Log.Event :=
  match Entries.get? root key with
  | none | some (.seq _) => []
  | some _ =>
    [event .warn "reference data key is not an array, ignoring it" [Log.quotedText "key" key]]

/-- The event of an entry of the list of widgets, if it is passed over. -/
def widgetEvents : Value → List Log.Event
  | .str _ => []
  | .map m =>
    match WidgetDoc.ofMapping m with
    | .ok _ => []
    | .error e => [event .debug "skipping malformed widget entry" [("error", e.message)]]
  | _ => [event .debug "skipping non-object widget entry" []]

/-- The event of an entry of the list of pages, if it is passed over. -/
def templateEvents (v : Value) : List Log.Event :=
  match Template.ofValue v with
  | .ok _ => []
  | .error e => [event .debug "skipping malformed template entry" [("error", e.message)]]

/-- The events of the object in a reference file. -/
def mappingEvents (root : Mapping) : List Log.Event :=
  keyEvents root "widgets" ++ (root.itemsAt "widgets").flatMap widgetEvents ++
  keyEvents root "templates" ++ (root.itemsAt "templates").flatMap templateEvents

/-- The events of the text of a reference file. -/
def jsonEvents (text : String) : List Log.Event :=
  match Json.read text with
  | .ok (.map root) => mappingEvents root
  | .ok _ => [event .warn "reference data root is not an object, ignoring it" []]
  | .error e =>
    [event .warn "reference data is not valid JSON, ignoring it"
      [("error", e.message text.toList)]]

/-- The data in a reference file; empty when it cannot be read. -/
def load (fs : Files) (path : String) : Reference :=
  match fs.read path with
  | .ok text => ofJson text
  | .error _ => {}

/-- The events of reading a reference file. -/
def loadEvents (fs : Files) (path : String) : List Log.Event :=
  match fs.read path with
  | .ok text =>
    let r := ofJson text
    jsonEvents text ++ [event .debug "loaded reference data"
      [("path", path), Log.number "widgets" r.docs.length,
        Log.number "templates" r.templates.length]]
  | .error fault => [event .debug "no reference data" [("path", path), ("error", fault.message)]]

end Dashboard.Reference
