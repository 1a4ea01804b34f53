import Dashboard.Text.Blank
import Dashboard.Text.Search

/-!
# The quick reference

Excerpts of the configuration document about pages, columns and the common
properties of widgets, and the sample configuration.
-/

namespace Dashboard

/-- Titled excerpts and the sample configuration. -/
structure QuickReference where
  excerpts : List (String × String) := []
  sample : Option String := none
deriving DecidableEq, Repr

namespace Markdown

/-- The text from a mark on to the next end mark, without blanks around it;
to the end of the text if there is no end mark, and empty without the mark. -/
def excerpt (text start stop : String) : String :=
  match Text.splitAt? start.toList text.toList with
  | none => ""
  | some (_, rest) =>
    let body := match Text.splitAt? stop.toList rest with
      | some (body, _) => body
      | none => rest
    String.ofList (Text.trimChars (start.toList ++ body))

/-- Title, mark and end mark of each excerpt. -/
def excerptMarks : List (String × String × String) :=
  [("Pages excerpt", "### Pages", "### Properties"),
    ("Columns excerpt", "### Columns", "## Widgets"),
    ("Widget shared properties", "### Shared Properties", "###")]

/-- The excerpts of a configuration document. -/
def excerpts (text : String) : List (String × String) :=
  excerptMarks.map fun (title, start, stop) => (title, excerpt text start stop)

end Markdown

namespace QuickReference

/-- There is nothing to show. -/
def isEmpty (q : QuickReference) : Bool :=
  q.sample.isNone && q.excerpts.all fun e => e.2.isEmpty

/-- The line above a part. -/
def banner (title : String) : String :=
  "--- " ++ title ++ " ---\n"

/-- The parts of the text: a banner each, and what is below it. -/
def parts (q : QuickReference) : List String :=
  (q.excerpts.flatMap fun e => banner e.1 :: (if e.2.isEmpty then [] else [e.2])) ++
  match q.sample with
  | some text => [banner "Sample glance.yml", text]
  | none => []

/-- The quick reference as one text. -/
def text (q : QuickReference) : String :=
  String.intercalate "\n" q.parts

end QuickReference

end Dashboard
