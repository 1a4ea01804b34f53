import Dashboard.Editor.Operation
import Dashboard.Proofs.Except

/-!
# Places of a document

Looking up what is at a place fails exactly when the place is out of range, and
then with the error of the outermost level that is.  A change at a place that
is in range is refused only for what the change itself has against it.
-/

namespace Dashboard

/-- The error of a result. -/
def errorOf? {ε α : Type} : Except ε α → Option ε
  | .ok _ => none
  | .error e => some e

theorem errorOf?_map
    {ε α β : Type}
    (x : Except ε α)
    (f : α → β) :
    errorOf? (x.map f) = errorOf? x := by
  cases x <;> rfl

/-- The error of a chain of steps is that of its first step, if there is one. -/
theorem errorOf?_bind
    {ε α β : Type}
    (x : Except ε α)
    (f : α → Except ε β) :
    errorOf? (x >>= f) = (errorOf? x <|> x.toOption.bind fun a => errorOf? (f a)) := by
  cases x <;> rfl

section Elements

variable {α β : Type}
variable {level : Level}
variable {xs : List α}
variable {i : Nat}

theorem toOption_elementAt :
    (elementAt level xs i).toOption = xs[i]? := by
  rw [elementAt]
  split
  · next x hx =>
      rw [hx]
      rfl
  · next hx =>
      rw [hx]
      rfl

theorem errorOf?_elementAt :
    errorOf? (elementAt level xs i) = Document.outOfList? level i xs.length := by
  rw [elementAt, Document.outOfList?]
  split
  · next x hx =>
      obtain ⟨hlt, -⟩ := List.getElem?_eq_some_iff.1 hx
      rw [if_pos hlt]
      rfl
  · next hx =>
      rw [if_neg (Nat.not_lt.2 (List.getElem?_eq_none_iff.1 hx))]
      rfl

/-- What is built from the value of a step fails only as the step does. -/
theorem error_of_bind
    {x : Except Error α}
    {f : α → β}
    {e : Error}
    (h : (do return f (← x)) = Except.error e) :
    x = .error e := by
  cases x with
  | ok a =>
      cases h
  | error e' =>
      cases h
      rfl

/-- A change of an element that is there is refused only by itself. -/
theorem error_of_changeAt
    {change : α → Except Error (β × α)}
    {x : α}
    {e : Error}
    (hx : elementAt level xs i = .ok x)
    (h : changeAt level xs i change = .error e) :
    change x = .error e := by
  rw [changeAt, hx] at h
  cases hchange : change x with
  | ok r =>
      simp [bind, Except.bind, pure, Except.pure, hchange] at h
  | error e' =>
      simpa [bind, Except.bind, hchange] using h

end Elements

namespace Document

variable {β : Type}
variable {d : Document}
variable {p c i : Nat}

/-! ## Looking up -/

theorem errorOf?_page :
    errorOf? (d.page p) = d.pageOutOfRange? p :=
  errorOf?_elementAt

theorem toOption_page :
    (d.page p).toOption = d.page? p :=
  toOption_elementAt

theorem errorOf?_column :
    errorOf? (d.column p c) = d.columnOutOfRange? p c := by
  rw [column, errorOf?_bind, errorOf?_page, toOption_page]
  simp only [errorOf?_elementAt, columnOutOfRange?]

theorem toOption_column :
    (d.column p c).toOption = d.column? p c := by
  rw [column, toOption_bind, toOption_page]
  simp only [toOption_elementAt, column?]

theorem errorOf?_widget :
    errorOf? (d.widget p c i) = d.widgetOutOfRange? p c i := by
  rw [widget, errorOf?_bind, errorOf?_column, toOption_column]
  simp only [errorOf?_elementAt, widgetOutOfRange?]

/-! ## Changing what is there -/

section Changes

variable {e : Error}

theorem error_of_changePage
    {page : Page}
    {change : Page → Except Error (β × Page)}
    (hpage : d.page p = .ok page)
    (h : d.changePage p change = .error e) :
    change page = .error e :=
  error_of_changeAt hpage (error_of_bind h)

theorem error_of_changeColumns
    {page : Page}
    {change : List Column → Except Error (β × List Column)}
    (hpage : d.page p = .ok page)
    (h : d.changeColumns p change = .error e) :
    change page.columns = .error e :=
  error_of_bind (error_of_changePage hpage h)

theorem error_of_changeColumn
    {column : Column}
    {change : Column → Except Error (β × Column)}
    (hcolumn : d.column p c = .ok column)
    (h : d.changeColumn p c change = .error e) :
    change column = .error e := by
  obtain ⟨page, hpage, hat⟩ := bind_eq_ok.1 hcolumn
  exact error_of_changeAt hat (error_of_changeColumns hpage h)

theorem error_of_changeWidgets
    {column : Column}
    {change : List Widget → Except Error (β × List Widget)}
    (hcolumn : d.column p c = .ok column)
    (h : d.changeWidgets p c change = .error e) :
    change column.widgets = .error e :=
  error_of_bind (error_of_changeColumn hcolumn h)

theorem error_of_changeWidget
    {w : Widget}
    {change : Widget → Except Error (β × Widget)}
    (hwidget : d.widget p c i = .ok w)
    (h : d.changeWidget p c i change = .error e) :
    change w = .error e := by
  obtain ⟨column, hcolumn, hat⟩ := bind_eq_ok.1 hwidget
  exact error_of_changeAt hat (error_of_changeWidgets hcolumn h)

end Changes

end Document

end Dashboard
