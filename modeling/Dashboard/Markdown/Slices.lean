import Dashboard.Markdown.Section

/-!
# Sections by places in bytes

A place in a text is the number of bytes in front of it.  Only a place between
two characters, at the beginning or at the end can be cut at; what lies between
two such places is a slice.  The headings of a text are found from left to
right, each behind the one before, and a section is cut out by their places: it
has the slice of its heading, and the one from there to the next heading or to
the end of the text.
-/

namespace Dashboard

namespace Text

/-- The number of bytes of a text. -/
def size : List Char → Nat
  | [] => 0
  | c :: cs => c.utf8Size + size cs

/-- The text in front of a place, and the text behind it. -/
def cutAt? : Nat → List Char → Option (List Char × List Char)
  | 0, cs => some ([], cs)
  | _ + 1, [] => none
  | n + 1, c :: cs =>
    if n + 1 < c.utf8Size then none
    else (cutAt? (n + 1 - c.utf8Size) cs).map fun (front, behind) => (c :: front, behind)

/-- The text from one place to another that is not in front of it. -/
def slice? (start stop : Nat) (text : List Char) : Option (List Char) := do
  if stop < start then none
  let (_, behind) ← cutAt? start text
  let (part, _) ← cutAt? (stop - start) behind
  return part

end Text

namespace Markdown

/-- The places where a heading and its name start and stop. -/
structure HeadingPlaces where
  start : Nat
  nameStart : Nat
  nameStop : Nat
  stop : Nat
deriving DecidableEq, Repr

/-- The headings of a text that has a place already. -/
def placesFrom (marks : List Char) (lineStart : Bool) (place : Nat) (text : List Char) :
    List HeadingPlaces :=
  match text with
  | [] => []
  | c :: cs =>
    match _ : if lineStart then heading? marks (c :: cs) else none with
    | some (whole, name, rest) =>
      let stop := place + Text.size whole
      let nameStop := stop - Text.size ['\n']
      ⟨place, nameStop - Text.size name, nameStop, stop⟩ :: placesFrom marks true stop rest
    | none => placesFrom marks (c == '\n') (place + c.utf8Size) cs
termination_by text.length
decreasing_by
  · rename_i h
    exact length_lt_of_heading? h
  · simp

/-- The headings of a text. -/
def headingPlaces (marks : String) (text : List Char) : List HeadingPlaces :=
  placesFrom marks.toList true 0 text

/-- The place up to which the text belongs to what is in front of these headings. -/
def firstStart (text : List Char) : List HeadingPlaces → Nat
  | [] => Text.size text
  | next :: _ => next.start

/-- The text before its headings. -/
def cutBefore? (text : List Char) (found : List HeadingPlaces) : Option (List Char) :=
  Text.slice? 0 (firstStart text found) text

/-- The sections of these headings of a text. -/
def cutSections? (text : List Char) : List HeadingPlaces → Option (List Section)
  | [] => some []
  | places :: more => do
    let heading ← Text.slice? places.start places.stop text
    let name ← Text.slice? places.nameStart places.nameStop text
    let body ← Text.slice? places.stop (firstStart text more) text
    let sections ← cutSections? text more
    return ⟨heading, Text.trim (String.ofList name), body⟩ :: sections

end Markdown

end Dashboard
