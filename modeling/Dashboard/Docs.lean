import Dashboard.Error
import Dashboard.Files.Store
import Dashboard.Markdown.QuickReference
import Dashboard.Markdown.Templates
import Dashboard.Markdown.Widgets
import Dashboard.Reference.ToJson

/-!
# The documentation folder

Reference data comes from two documents in the documentation folder, the quick
reference from one of them and a sample configuration.  A document that is not
there counts as empty.
-/

namespace Dashboard.Docs

/-- The names of the documents. -/
def configDoc : String :=
  "configuration.md"

/-- The document with ready-made pages. -/
def pagesDoc : String :=
  "preconfigured-pages.md"

/-- The sample configuration. -/
def sampleFile : String :=
  "glance.yml"

/-- Where reference data goes by default. -/
def outputFile : String :=
  "reference_data.json"

/-- Where the events of the documentation come from. -/
def source : String :=
  "glancectl_scrape"

/-- The text of a document, if it can be read. -/
def read? (fs : Files) (path : String) : Option String :=
  (fs.read path).toOption

/-- The event of a document that cannot be read. -/
def readEvents (fs : Files) (path : String) : List Log.Event :=
  match fs.read path with
  | .ok _ => []
  | .error .notFound =>
    [{ severity := .debug, source, message := "doc not found, skipping"
       fields := [("path", path)] }]
  | .error fault =>
    [{ severity := .warn, source, message := "could not read doc, skipping"
       fields := [("path", path), ("error", fault.message)] }]

/-- The reference data in two documents. -/
def scrape (config pages : Option String) : Reference where
  docs := (config.map Markdown.widgets).getD []
  templates := (pages.map Markdown.templates).getD []

/-- The reference data in a documentation folder. -/
def scrapeFolder (fs : Files) (folder : String) : Reference :=
  scrape (read? fs (Files.joined folder configDoc)) (read? fs (Files.joined folder pagesDoc))

/-- The events of reading the reference data in a folder. -/
def scrapeEvents (fs : Files) (folder : String) : List Log.Event :=
  let config := Files.joined folder configDoc
  let r := scrapeFolder fs folder
  readEvents fs config ++
  ((read? fs config).map Markdown.widgetsEvents).getD [] ++
  readEvents fs (Files.joined folder pagesDoc) ++
  [{ severity := .info, source, message := "scraped reference data"
     fields := [Log.number "widgets" r.docs.length, Log.number "templates" r.templates.length] }]

/-- Write reference data to a file: the files afterwards. -/
def writeReference (fs : Files) (path : String) (r : Reference) : Except Error Files :=
  (fs.write path r.toJson).mapError (Error.file path)

/-- Reference data was written. -/
def written (path : String) : Log.Event :=
  { severity := .debug, source, message := "wrote reference data", fields := [("path", path)] }

/-- The quick reference of a documentation folder. -/
def quickReference (fs : Files) (folder : String) : QuickReference where
  excerpts := ((read? fs (Files.joined folder configDoc)).map Markdown.excerpts).getD []
  sample := read? fs (Files.joined folder sampleFile)

/-- The events of reading the quick reference. -/
def quickReferenceEvents (fs : Files) (folder : String) : List Log.Event :=
  readEvents fs (Files.joined folder configDoc) ++
  readEvents fs (Files.joined folder sampleFile)

end Dashboard.Docs
