import Dashboard.Markdown.Pattern
import Dashboard.Markdown.Section
import Dashboard.Reference.Basic
import Dashboard.Text.Dedent

/-!
# Ready-made pages in the documentation

Each section with a block of YAML is a page.
-/

namespace Dashboard.Markdown

/-- Characters without the line feeds around them. -/
def trimLineFeeds (cs : List Char) : List Char :=
  ((cs.dropWhile (· == '\n')).reverse.dropWhile (· == '\n')).reverse

/-- The page of a section that has a block of YAML. -/
def templateOf? (s : Section) : Option Template := do
  let block ← firstMatch? yamlBlock? s.body
  return {
    name := s.name
    previewImage := firstMatch? image? s.body
    requires := firstMatch? requirement? s.body
    yaml := String.ofList (trimLineFeeds (Text.dedentChars block)) }

/-- The pages of a document, in its order. -/
def templates (text : String) : List Template :=
  (sections "##" text.toList).filterMap templateOf?

end Dashboard.Markdown
