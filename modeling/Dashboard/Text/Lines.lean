/-!
# Lines of a text

A line ends with a line feed.  `lines` gives the contents without their ends
(a carriage return in front of the line feed belongs to the end), and
`pieces` keeps every end, so that the pieces put together are the text.
-/

namespace Dashboard.Text

/-- The text cut after every line feed; the last piece may lack one. -/
def pieces : List Char → List (List Char)
  | [] => []
  | c :: cs =>
    if c == '\n' then
      [c] :: pieces cs
    else
      match pieces cs with
      | [] => [[c]]
      | p :: ps => (c :: p) :: ps

/-- A piece cut into its content and its line feed, if it has one. -/
def splitEnd : List Char → List Char × List Char
  | [] => ([], [])
  | [c] => if c == '\n' then ([], [c]) else ([c], [])
  | c :: cs => (c :: (splitEnd cs).1, (splitEnd cs).2)

/-- A piece without its line end. -/
def contentOf (piece : List Char) : List Char :=
  match splitEnd piece with
  | (content, []) => content
  | (content, _) =>
    match content.reverse with
    | '\r' :: rest => rest.reverse
    | _ => content

/-- The lines of a text without their ends. -/
def lines (s : String) : List String :=
  (pieces s.toList).map fun p => String.ofList (contentOf p)

end Dashboard.Text
