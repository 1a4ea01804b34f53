import Dashboard.Document.Edit

/-!
# The selection

The menu acts on a selected page, a column in it and a widget in that.  After
every action the selection is clamped: each level points at something that
exists, the nearest if the place is gone, and nothing is selected below a
level where nothing is.
-/

namespace Dashboard

/-- The places of the selected page, column and widget. -/
structure Selection where
  page : Option Nat := none
  column : Option Nat := none
  widget : Option Nat := none
deriving DecidableEq, Repr

namespace Selection

/-- The nearest place in a list of a length. -/
def nearest (i length : Nat) : Option Nat :=
  if length = 0 then none else some (min i (length - 1))

/-- Only a page. -/
def pageOnly (p : Nat) : Selection :=
  { page := some p }

/-- The page that is selected, if it exists. -/
def page? (s : Selection) (d : Document) : Option Page :=
  s.page.bind fun p => d.pages[p]?

/-- The column that is selected, if it exists. -/
def column? (s : Selection) (d : Document) : Option Column :=
  (s.page? d).bind fun page => s.column.bind fun c => page.columns[c]?

/-- The widget that is selected, if it exists. -/
def widget? (s : Selection) (d : Document) : Option Widget :=
  (s.column? d).bind fun column => s.widget.bind fun w => column.widgets[w]?

/-- Move every level to the nearest place that exists. -/
def clamp (s : Selection) (d : Document) : Selection :=
  let page := s.page.bind fun p => nearest p d.pages.length
  match page.bind fun p => d.pages[p]? with
  | none => { page := page }
  | some q =>
    let column := s.column.bind fun c => nearest c q.columns.length
    match column.bind fun c => q.columns[c]? with
    | none => { page, column }
    | some q => { page, column, widget := s.widget.bind fun w => nearest w q.widgets.length }

/-- The selected place of a level. -/
def place? (s : Selection) : Level → Option Nat
  | .page => s.page
  | .column => s.column
  | .widget => s.widget

/-- What is told when nothing is selected at a level. -/
def missing (level : Level) : String :=
  "Select a " ++ level.name ++ " first"

/-- The line above the menu: where the selection is. -/
def breadcrumb (s : Selection) (d : Document) : String :=
  match s.page? d with
  | none => toString d.pages.length ++ " page(s), nothing selected"
  | some page =>
    let column := match s.column, s.column? d with
      | some c, some column =>
        ["column " ++ toString (c + 1) ++ " (" ++ column.size.word ++ ")"]
      | _, _ => []
    let widget := match s.widget? d with
      | some w => [w.label]
      | none => []
    String.intercalate " › " (("📄 " ++ page.name) :: column ++ widget)

/-- The nearest place is in the list. -/
theorem nearest_lt {i length j : Nat} (h : nearest i length = some j) : j < length := by
  unfold nearest at h
  split at h
  · simp at h
  · simp only [Option.some.injEq] at h
    omega

/-- A place in the list is its own nearest one. -/
theorem nearest_of_lt {i length : Nat} (h : i < length) : nearest i length = some i := by
  unfold nearest
  split
  · omega
  · simp only [Option.some.injEq]
    omega

end Selection

end Dashboard
