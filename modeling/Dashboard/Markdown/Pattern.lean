import Dashboard.Text.Blank
import Dashboard.Text.Search

/-!
# Patterns in documentation text

What is taken from a section is found at the first place where a pattern
matches: the type of a widget in an example, a fenced block of YAML, an image,
the version that a page needs.  A pattern is a function that looks at the text
from a place on.
-/

namespace Dashboard.Markdown

/-- The result at the first place where a pattern matches. -/
def firstMatch? {α : Type} (pattern : List Char → Option α) : List Char → Option α
  | [] => pattern []
  | c :: cs =>
    match pattern (c :: cs) with
    | some a => some a
    | none => firstMatch? pattern cs

/-- What follows a word, whatever the case of its letters; the long s counts as
an s.  The word is given in lower case. -/
def dropWord? : List Char → List Char → Option (List Char)
  | [], text => some text
  | _ :: _, [] => none
  | w :: ws, c :: cs =>
    if c.toLower == w || (w == 's' && c.toNat == 0x17F) then dropWord? ws cs else none

/-- What follows at least one blank. -/
def dropSomeBlanks? (text : List Char) : Option (List Char) :=
  match text with
  | c :: cs => if Text.isBlank c then some (Text.dropBlanks cs) else none
  | [] => none

/-- The characters up to one, of which there is at least one, and those behind it. -/
def upTo? (stop : Char) (text : List Char) : Option (List Char × List Char) :=
  match text.span (· != stop) with
  | ([], _) => none
  | (_, []) => none
  | (before, _ :: rest) => some (before, rest)

/-- The characters that names of types consist of. -/
def isTypeChar (c : Char) : Bool :=
  c.isAlphanum || c == '_' || c == '-'

/-- A list item that gives a type. -/
def typeItem? (text : List Char) : Option String := do
  let rest ← Text.dropPrefix? ['-'] text
  let rest ← dropSomeBlanks? rest
  let rest ← Text.dropPrefix? "type:".toList rest
  match (Text.dropBlanks rest).takeWhile isTypeChar with
  | [] => none
  | type => some (String.ofList type)

/-- The marks around a block of code. -/
def fence : List Char :=
  "```".toList

/-- The content of a fenced block of one of these languages. -/
def block? (open? : List Char → Option (List Char)) (text : List Char) : Option (List Char) := do
  let rest ← Text.dropPrefix? fence text
  let (content, _) ← Text.splitAt? fence (← open? rest)
  return content

/-- The content of a block of YAML, however its language is spelled. -/
def exampleBlock? : List Char → Option (List Char) :=
  block? fun rest =>
    match dropWord? "yaml".toList rest with
    | some rest => some rest
    | none => dropWord? "yml".toList rest

/-- The content of a block of YAML. -/
def yamlBlock? : List Char → Option (List Char) :=
  block? (Text.dropPrefix? "yaml".toList)

/-- The address of an image. -/
def image? (text : List Char) : Option String := do
  let rest ← Text.dropPrefix? "![".toList text
  let rest ← Text.dropPrefix? "](".toList (rest.dropWhile (· != ']'))
  let (address, _) ← upTo? ')' rest
  return String.ofList address

/-- The version of the dashboard that a page needs. -/
def requirement? (text : List Char) : Option String := do
  let rest ← dropWord? "requires".toList text
  let rest ← dropSomeBlanks? rest
  let rest ← dropWord? "glance".toList rest
  let rest ← dropSomeBlanks? rest
  let rest ← dropWord? "<code>".toList rest
  let version := rest.takeWhile (· != '<')
  if version.isEmpty then none
  let _ ← dropWord? "</code>".toList (rest.dropWhile (· != '<'))
  return Text.trim (String.ofList version)

end Dashboard.Markdown
