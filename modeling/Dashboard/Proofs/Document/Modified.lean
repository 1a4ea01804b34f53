import Dashboard.Proofs.Document.Kept
import Dashboard.Proofs.Document.Places
import Mathlib.Data.List.Basic

/-!
# Documents with one place modified

What every operation makes of a document is that document with one place modified or
taken out.  The two act on each other like functions do, and both are seen by looking up
places, so nothing about an operation has to be read off its definition again.
-/

namespace Dashboard

/-! ## Lists -/

section Lists

variable {α β : Type}
variable {level : Level}
variable {xs ys : List α}
variable {i : Nat}

theorem elementAt_eq_ok_iff
    {x : α} :
    elementAt level xs i = .ok x ↔ xs[i]? = some x := by
  rw [← toOption_eq_some, toOption_elementAt]

theorem removeAt_eq_ok_iff
    {x : α} :
    removeAt level xs i = .ok (x, ys) ↔ xs[i]? = some x ∧ xs.eraseIdx i = ys := by
  simp only [removeAt, bind_eq_ok, pure_eq_ok, elementAt_eq_ok_iff, Prod.mk.injEq]
  constructor
  · rintro ⟨y, hy, rfl, hys⟩
    exact ⟨hy, hys⟩
  · rintro ⟨hx, hys⟩
    exact ⟨x, hx, rfl, hys⟩

theorem changeAt_eq_ok_iff
    {change : α → Except Error (β × α)}
    {b : β} :
    changeAt level xs i change = .ok (b, ys) ↔
      ∃ x y, xs[i]? = some x ∧ change x = .ok (b, y) ∧ xs.modify i (fun _ => y) = ys := by
  simp only [changeAt, bind_eq_ok, pure_eq_ok, elementAt_eq_ok_iff, Prod.exists, Prod.mk.injEq,
    List.set_eq_modify]
  constructor
  · rintro ⟨x, hx, _, y, hy, rfl, hys⟩
    exact ⟨x, y, hx, hy, hys⟩
  · rintro ⟨x, y, hx, hy, hys⟩
    exact ⟨x, hx, b, y, hy, rfl, hys⟩

/-- Only what is at the place counts for a modification. -/
theorem modify_congr
    {f g : α → α}
    (h : ∀ x, xs[i]? = some x → f x = g x) :
    xs.modify i f = xs.modify i g := by
  refine List.ext_getElem? fun j => ?_
  rw [List.getElem?_modify, List.getElem?_modify]
  by_cases hij : i = j
  · subst hij
    cases hx : xs[i]? with
    | none =>
        rfl
    | some x =>
        simp [h x hx]
  · simp only [hij, if_false]

theorem modify_eq_self_of
    {f : α → α}
    (h : ∀ x, xs[i]? = some x → f x = x) :
    xs.modify i f = xs := by
  rw [modify_congr (g := id) h, List.modify_id]

theorem getElem?_modify_self
    (f : α → α) :
    (xs.modify i f)[i]? = xs[i]?.map f := by
  rw [List.getElem?_modify]
  simp only [if_true]
  rfl

theorem eraseIdx_append_length
    (xs : List α)
    (x : α) :
    (xs ++ [x]).eraseIdx xs.length = xs := by
  rw [List.eraseIdx_append_of_length_le (Nat.le_refl _), Nat.sub_self, List.eraseIdx_cons_zero,
    List.append_nil]

/-- Later elements move down by one. -/
theorem getElem?_eraseIdx_eq
    (xs : List α)
    (i j : Nat) :
    (xs.eraseIdx i)[j]? = xs[if j < i then j else j + 1]? := by
  rw [List.getElem?_eraseIdx]
  split <;> rfl

end Lists

namespace Document

/-! ## Places -/

/-- The widget at a place, if there is one. -/
def widget? (d : Document) (p c i : Nat) : Option Widget :=
  (d.column? p c).bind fun column => column.widgets[i]?

/-- The document with a page modified. -/
def modifyPage (d : Document) (p : Nat) (f : Page → Page) : Document :=
  { d with pages := d.pages.modify p f }

/-- The document with a column modified. -/
def modifyColumn (d : Document) (p c : Nat) (f : Column → Column) : Document :=
  d.modifyPage p fun page => { page with columns := page.columns.modify c f }

/-- The document with a widget modified. -/
def modifyWidget (d : Document) (p c i : Nat) (f : Widget → Widget) : Document :=
  d.modifyColumn p c fun column => { column with widgets := column.widgets.modify i f }

/-- The document without what is at a place. -/
def without (d : Document) : Place → Document
  | .whole => { d with pages := [] }
  | .page p => { d with pages := d.pages.eraseIdx p }
  | .column p c => d.modifyPage p fun page => { page with columns := page.columns.eraseIdx c }
  | .widget p c i =>
      d.modifyColumn p c fun column => { column with widgets := column.widgets.eraseIdx i }

section Modified

variable {d : Document}
variable {p c i : Nat}

theorem toOption_widget :
    (d.widget p c i).toOption = d.widget? p c i := by
  rw [widget, toOption_bind, toOption_column]
  simp only [toOption_elementAt, widget?]

theorem modifyPage_congr
    {f g : Page → Page}
    (h : ∀ page, d.page? p = some page → f page = g page) :
    d.modifyPage p f = d.modifyPage p g := by
  rw [modifyPage, modifyPage, modify_congr h]

/-- Only the page that is there counts for a modification. -/
theorem modifyPage_congr_of
    {f g : Page → Page}
    {page : Page}
    (hpage : d.page? p = some page)
    (h : f page = g page) :
    d.modifyPage p f = d.modifyPage p g := by
  refine modifyPage_congr fun page' hpage' => ?_
  cases hpage.symm.trans hpage'
  exact h

theorem modifyPage_eq_self_of
    {f : Page → Page}
    (h : ∀ page, d.page? p = some page → f page = page) :
    d.modifyPage p f = d := by
  rw [modifyPage, modify_eq_self_of h]

theorem modifyPage_modifyPage
    (d : Document)
    (p : Nat)
    (f g : Page → Page) :
    (d.modifyPage p f).modifyPage p g = d.modifyPage p (g ∘ f) := by
  rw [modifyPage, modifyPage, List.modify_modify_eq]
  rfl

theorem page?_modifyPage
    (f : Page → Page) :
    (d.modifyPage p f).page? p = (d.page? p).map f :=
  getElem?_modify_self f

theorem modifyColumn_congr
    {f g : Column → Column}
    (h : ∀ column, d.column? p c = some column → f column = g column) :
    d.modifyColumn p c f = d.modifyColumn p c g := by
  refine modifyPage_congr fun page hpage => ?_
  rw [modify_congr fun column hcolumn =>
    h column (Option.bind_eq_some_iff.2 ⟨page, hpage, hcolumn⟩)]

/-- Only the column that is there counts for a modification. -/
theorem modifyColumn_congr_of
    {f g : Column → Column}
    {column : Column}
    (hcolumn : d.column? p c = some column)
    (h : f column = g column) :
    d.modifyColumn p c f = d.modifyColumn p c g := by
  refine modifyColumn_congr fun column' hcolumn' => ?_
  cases hcolumn.symm.trans hcolumn'
  exact h

theorem modifyColumn_eq_self_of
    {f : Column → Column}
    (h : ∀ column, d.column? p c = some column → f column = column) :
    d.modifyColumn p c f = d := by
  refine modifyPage_eq_self_of fun page hpage => ?_
  rw [modify_eq_self_of fun column hcolumn =>
    h column (Option.bind_eq_some_iff.2 ⟨page, hpage, hcolumn⟩)]

theorem modifyColumn_modifyColumn
    (d : Document)
    (p c : Nat)
    (f g : Column → Column) :
    (d.modifyColumn p c f).modifyColumn p c g = d.modifyColumn p c (g ∘ f) := by
  rw [modifyColumn, modifyColumn, modifyPage_modifyPage, modifyColumn]
  refine modifyPage_congr fun page _ => ?_
  rw [Function.comp_apply, List.modify_modify_eq]

theorem column?_modifyColumn
    (f : Column → Column) :
    (d.modifyColumn p c f).column? p c = (d.column? p c).map f := by
  rw [column?, column?, modifyColumn, page?_modifyPage]
  cases d.page? p with
  | none =>
      rfl
  | some page =>
      exact getElem?_modify_self f

theorem modifyWidget_eq_self_of
    {f : Widget → Widget}
    (h : ∀ w, d.widget? p c i = some w → f w = w) :
    d.modifyWidget p c i f = d := by
  refine modifyColumn_eq_self_of fun column hcolumn => ?_
  rw [modify_eq_self_of fun w hw => h w (Option.bind_eq_some_iff.2 ⟨column, hcolumn, hw⟩)]

theorem modifyWidget_modifyWidget
    (d : Document)
    (p c i : Nat)
    (f g : Widget → Widget) :
    (d.modifyWidget p c i f).modifyWidget p c i g = d.modifyWidget p c i (g ∘ f) := by
  rw [modifyWidget, modifyWidget, modifyColumn_modifyColumn, modifyWidget]
  refine modifyColumn_congr fun column _ => ?_
  rw [Function.comp_apply, List.modify_modify_eq]

theorem widget?_modifyWidget
    (f : Widget → Widget) :
    (d.modifyWidget p c i f).widget? p c i = (d.widget? p c i).map f := by
  rw [widget?, widget?, modifyWidget, column?_modifyColumn]
  cases d.column? p c with
  | none =>
      rfl
  | some column =>
      exact getElem?_modify_self f

end Modified

/-! ## Changes -/

section Changes

variable {β : Type}
variable {d d' : Document}
variable {p c i : Nat}
variable {b : β}

theorem changePage_eq_ok_iff
    {change : Page → Except Error (β × Page)} :
    d.changePage p change = .ok (b, d') ↔
      ∃ page page', d.page? p = some page ∧ change page = .ok (b, page') ∧
        d.modifyPage p (fun _ => page') = d' := by
  simp only [changePage, bind_eq_ok, pure_eq_ok, Prod.exists, Prod.mk.injEq, changeAt_eq_ok_iff]
  constructor
  · rintro ⟨_, pages, ⟨page, page', hpage, hchange, rfl⟩, rfl, hd⟩
    exact ⟨page, page', hpage, hchange, hd⟩
  · rintro ⟨page, page', hpage, hchange, hd⟩
    exact ⟨b, _, ⟨page, page', hpage, hchange, rfl⟩, rfl, hd⟩

theorem changeColumns_eq_ok_iff
    {change : List Column → Except Error (β × List Column)} :
    d.changeColumns p change = .ok (b, d') ↔
      ∃ page columns, d.page? p = some page ∧ change page.columns = .ok (b, columns) ∧
        d.modifyPage p (fun page => { page with columns }) = d' := by
  simp only [changeColumns, changePage_eq_ok_iff, bind_eq_ok, pure_eq_ok, Prod.exists,
    Prod.mk.injEq]
  constructor
  · rintro ⟨page, _, hpage, ⟨_, columns, hchange, rfl, rfl⟩, hd⟩
    refine ⟨page, columns, hpage, hchange, (modifyPage_congr_of hpage (by rfl)).trans hd⟩
  · rintro ⟨page, columns, hpage, hchange, hd⟩
    exact ⟨page, _, hpage, ⟨b, columns, hchange, rfl, rfl⟩,
      (modifyPage_congr_of hpage (by rfl)).trans hd⟩

theorem changeColumn_eq_ok_iff
    {change : Column → Except Error (β × Column)} :
    d.changeColumn p c change = .ok (b, d') ↔
      ∃ column column', d.column? p c = some column ∧ change column = .ok (b, column') ∧
        d.modifyColumn p c (fun _ => column') = d' := by
  rw [changeColumn, changeColumns_eq_ok_iff]
  simp only [changeAt_eq_ok_iff, column?, Option.bind_eq_some_iff]
  constructor
  · rintro ⟨page, _, hpage, ⟨column, column', hcolumn, hchange, rfl⟩, hd⟩
    exact ⟨column, column', ⟨page, hpage, hcolumn⟩, hchange,
      (modifyPage_congr_of hpage (by rfl)).trans hd⟩
  · rintro ⟨column, column', ⟨page, hpage, hcolumn⟩, hchange, hd⟩
    exact ⟨page, _, hpage, ⟨column, column', hcolumn, hchange, rfl⟩,
      (modifyPage_congr_of hpage (by rfl)).trans hd⟩

theorem changeWidgets_eq_ok_iff
    {change : List Widget → Except Error (β × List Widget)} :
    d.changeWidgets p c change = .ok (b, d') ↔
      ∃ column widgets, d.column? p c = some column ∧
        change column.widgets = .ok (b, widgets) ∧
          d.modifyColumn p c (fun column => { column with widgets }) = d' := by
  simp only [changeWidgets, changeColumn_eq_ok_iff, bind_eq_ok, pure_eq_ok, Prod.exists,
    Prod.mk.injEq]
  constructor
  · rintro ⟨column, _, hcolumn, ⟨_, widgets, hchange, rfl, rfl⟩, hd⟩
    exact ⟨column, widgets, hcolumn, hchange, (modifyColumn_congr_of hcolumn (by rfl)).trans hd⟩
  · rintro ⟨column, widgets, hcolumn, hchange, hd⟩
    exact ⟨column, _, hcolumn, ⟨b, widgets, hchange, rfl, rfl⟩,
      (modifyColumn_congr_of hcolumn (by rfl)).trans hd⟩

theorem changeWidget_eq_ok_iff
    {change : Widget → Except Error (β × Widget)} :
    d.changeWidget p c i change = .ok (b, d') ↔
      ∃ w w', d.widget? p c i = some w ∧ change w = .ok (b, w') ∧
        d.modifyWidget p c i (fun _ => w') = d' := by
  rw [changeWidget, changeWidgets_eq_ok_iff]
  simp only [changeAt_eq_ok_iff, widget?, Option.bind_eq_some_iff]
  constructor
  · rintro ⟨column, _, hcolumn, ⟨w, w', hw, hchange, rfl⟩, hd⟩
    exact ⟨w, w', ⟨column, hcolumn, hw⟩, hchange, (modifyColumn_congr_of hcolumn (by rfl)).trans hd⟩
  · rintro ⟨w, w', ⟨column, hcolumn, hw⟩, hchange, hd⟩
    exact ⟨column, _, hcolumn, ⟨w, w', hw, hchange, rfl⟩,
      (modifyColumn_congr_of hcolumn (by rfl)).trans hd⟩

end Changes

/-! ## Operations -/

section Operations

variable {d d' : Document}
variable {p c i : Nat}
variable {name : String}
variable {size : ColumnSize}
variable {w : Widget}

theorem keptName_eq_ok_iff
    {kept : String} :
    keptName name = .ok kept ↔ Text.trim name ≠ "" ∧ Text.trim name = kept := by
  rw [keptName]
  by_cases hblank : Text.trim name = ""
  · simp [hblank]
  · simp [hblank]

theorem addPage_eq_ok_iff :
    d.addPage name = .ok (i, d') ↔
      Text.trim name ≠ "" ∧ d.pages.length = i ∧
        { d with pages := d.pages ++ [{ name := Text.trim name }] } = d' := by
  simp only [addPage, bind_eq_ok, pure_eq_ok, keptName_eq_ok_iff, Prod.mk.injEq]
  constructor
  · rintro ⟨_, ⟨hname, rfl⟩, hi, hd⟩
    exact ⟨hname, hi, hd⟩
  · rintro ⟨hname, hi, hd⟩
    exact ⟨_, ⟨hname, rfl⟩, hi, hd⟩

theorem renamePage_eq_ok_iff
    {old : String} :
    d.renamePage p name = .ok (old, d') ↔
      Text.trim name ≠ "" ∧ (∃ page, d.page? p = some page ∧ page.name = old) ∧
        d.modifyPage p (fun page => { page with name := Text.trim name }) = d' := by
  simp only [renamePage, bind_eq_ok, keptName_eq_ok_iff, changePage_eq_ok_iff, Except.ok.injEq,
    Prod.mk.injEq]
  constructor
  · rintro ⟨_, ⟨hname, rfl⟩, page, _, hpage, ⟨hold, rfl⟩, hd⟩
    exact ⟨hname, ⟨page, hpage, hold⟩, (modifyPage_congr_of hpage (by rfl)).trans hd⟩
  · rintro ⟨hname, ⟨page, hpage, hold⟩, hd⟩
    exact ⟨_, ⟨hname, rfl⟩, page, _, hpage, ⟨hold, rfl⟩,
      (modifyPage_congr_of hpage (by rfl)).trans hd⟩

theorem deletePage_eq_ok_iff
    {page : Page} :
    d.deletePage p = .ok (page, d') ↔ d.page? p = some page ∧ d.without (.page p) = d' := by
  simp only [deletePage, bind_eq_ok, pure_eq_ok, Prod.exists, Prod.mk.injEq, removeAt_eq_ok_iff]
  constructor
  · rintro ⟨_, pages, ⟨hpage, rfl⟩, rfl, hd⟩
    exact ⟨hpage, hd⟩
  · rintro ⟨hpage, hd⟩
    exact ⟨page, _, ⟨hpage, rfl⟩, rfl, hd⟩

theorem addColumn_eq_ok_iff :
    d.addColumn p size = .ok (i, d') ↔
      (∃ page, d.page? p = some page ∧ page.columns.length = i) ∧
        d.modifyPage p (fun page => { page with columns := page.columns ++ [{ size }] }) = d' := by
  simp only [addColumn, changeColumns_eq_ok_iff, Except.ok.injEq, Prod.mk.injEq]
  constructor
  · rintro ⟨page, _, hpage, ⟨hi, rfl⟩, hd⟩
    exact ⟨⟨page, hpage, hi⟩, (modifyPage_congr_of hpage (by rfl)).trans hd⟩
  · rintro ⟨⟨page, hpage, hi⟩, hd⟩
    exact ⟨page, _, hpage, ⟨hi, rfl⟩, (modifyPage_congr_of hpage (by rfl)).trans hd⟩

theorem editColumn_eq_ok_iff
    {old : Column} :
    d.editColumn p c size = .ok (old, d') ↔
      d.column? p c = some old ∧ d.modifyColumn p c (fun _ => { size }) = d' := by
  simp only [editColumn, changeColumn_eq_ok_iff, Except.ok.injEq, Prod.mk.injEq]
  constructor
  · rintro ⟨_, _, hold, ⟨rfl, rfl⟩, hd⟩
    exact ⟨hold, hd⟩
  · rintro ⟨hold, hd⟩
    exact ⟨old, _, hold, ⟨rfl, rfl⟩, hd⟩

theorem deleteColumn_eq_ok_iff
    {column : Column} :
    d.deleteColumn p c = .ok (column, d') ↔
      d.column? p c = some column ∧ d.without (.column p c) = d' := by
  simp only [deleteColumn, changeColumns_eq_ok_iff, removeAt_eq_ok_iff, column?,
    Option.bind_eq_some_iff]
  constructor
  · rintro ⟨page, _, hpage, ⟨hcolumn, rfl⟩, hd⟩
    exact ⟨⟨page, hpage, hcolumn⟩, (modifyPage_congr_of hpage (by rfl)).trans hd⟩
  · rintro ⟨⟨page, hpage, hcolumn⟩, hd⟩
    exact ⟨page, _, hpage, ⟨hcolumn, rfl⟩, (modifyPage_congr_of hpage (by rfl)).trans hd⟩

theorem addWidget_eq_ok_iff :
    d.addWidget p c w = .ok (i, d') ↔
      (∃ column, d.column? p c = some column ∧ column.widgets.length = i) ∧
        d.modifyColumn p c (fun column => { column with widgets := column.widgets ++ [w] }) =
          d' := by
  simp only [addWidget, changeWidgets_eq_ok_iff, Except.ok.injEq, Prod.mk.injEq]
  constructor
  · rintro ⟨column, _, hcolumn, ⟨hi, rfl⟩, hd⟩
    exact ⟨⟨column, hcolumn, hi⟩, (modifyColumn_congr_of hcolumn (by rfl)).trans hd⟩
  · rintro ⟨⟨column, hcolumn, hi⟩, hd⟩
    exact ⟨column, _, hcolumn, ⟨hi, rfl⟩, (modifyColumn_congr_of hcolumn (by rfl)).trans hd⟩

theorem replaceWidget_eq_ok_iff
    {old : Widget} :
    d.replaceWidget p c i w = .ok (old, d') ↔
      d.widget? p c i = some old ∧ d.modifyWidget p c i (fun _ => w) = d' := by
  simp only [replaceWidget, changeWidget_eq_ok_iff, Except.ok.injEq, Prod.mk.injEq]
  constructor
  · rintro ⟨_, _, hold, ⟨rfl, rfl⟩, hd⟩
    exact ⟨hold, hd⟩
  · rintro ⟨hold, hd⟩
    exact ⟨old, w, hold, ⟨rfl, rfl⟩, hd⟩

theorem deleteWidget_eq_ok_iff
    {old : Widget} :
    d.deleteWidget p c i = .ok (old, d') ↔
      d.widget? p c i = some old ∧ d.without (.widget p c i) = d' := by
  simp only [deleteWidget, changeWidgets_eq_ok_iff, removeAt_eq_ok_iff, widget?,
    Option.bind_eq_some_iff]
  constructor
  · rintro ⟨column, _, hcolumn, ⟨hold, rfl⟩, hd⟩
    exact ⟨⟨column, hcolumn, hold⟩, (modifyColumn_congr_of hcolumn (by rfl)).trans hd⟩
  · rintro ⟨⟨column, hcolumn, hold⟩, hd⟩
    exact ⟨column, _, hcolumn, ⟨hold, rfl⟩, (modifyColumn_congr_of hcolumn (by rfl)).trans hd⟩

end Operations

end Document

/-! ## Refusals -/

section Refusals

variable {α β : Type}
variable {d : Document}
variable {p c i : Nat}

/-- What is never refused adds no refusal. -/
theorem orElse_bind_none
    (x : Option Error)
    (y : Option α) :
    (x <|> y.bind fun _ => none) = x := by
  cases x <;> cases y <;> rfl

/-- A step that only puts a result together is not refused. -/
theorem errorOf?_bind_pure
    (x : Except Error α)
    (f : α → β) :
    errorOf? (do return f (← x)) = errorOf? x := by
  cases x <;> rfl

theorem errorOf?_removeAt
    (level : Level)
    (xs : List α) :
    errorOf? (removeAt level xs i) = Document.outOfList? level i xs.length := by
  rw [removeAt, errorOf?_bind_pure, errorOf?_elementAt]

theorem errorOf?_changeAt
    (level : Level)
    (xs : List α)
    (change : α → Except Error (β × α)) :
    errorOf? (changeAt level xs i change) =
      (Document.outOfList? level i xs.length <|> xs[i]?.bind fun x => errorOf? (change x)) := by
  rw [changeAt, errorOf?_bind, errorOf?_elementAt, toOption_elementAt]
  congr 2
  funext _
  congr 1
  funext x
  exact errorOf?_bind_pure _ _

namespace Document

theorem errorOf?_changePage
    (change : Page → Except Error (β × Page)) :
    errorOf? (d.changePage p change) =
      (d.pageOutOfRange? p <|> (d.page? p).bind fun page => errorOf? (change page)) := by
  rw [changePage]
  exact (errorOf?_bind_pure _ _).trans (errorOf?_changeAt _ _ _)

theorem errorOf?_changeColumns
    (change : List Column → Except Error (β × List Column)) :
    errorOf? (d.changeColumns p change) =
      (d.pageOutOfRange? p <|>
        (d.page? p).bind fun page => errorOf? (change page.columns)) := by
  rw [changeColumns, errorOf?_changePage]
  congr 2
  funext _
  congr 1
  funext page
  exact errorOf?_bind_pure _ _

theorem errorOf?_changeColumn
    (change : Column → Except Error (β × Column)) :
    errorOf? (d.changeColumn p c change) =
      (d.columnOutOfRange? p c <|>
        (d.column? p c).bind fun column => errorOf? (change column)) := by
  rw [changeColumn, errorOf?_changeColumns, columnOutOfRange?, column?]
  cases d.page? p with
  | none =>
      simp
  | some page =>
      simp [errorOf?_changeAt, Option.or_assoc]

theorem errorOf?_changeWidgets
    (change : List Widget → Except Error (β × List Widget)) :
    errorOf? (d.changeWidgets p c change) =
      (d.columnOutOfRange? p c <|>
        (d.column? p c).bind fun column => errorOf? (change column.widgets)) := by
  rw [changeWidgets, errorOf?_changeColumn]
  congr 2
  funext _
  congr 1
  funext column
  exact errorOf?_bind_pure _ _

theorem errorOf?_changeWidget
    (change : Widget → Except Error (β × Widget)) :
    errorOf? (d.changeWidget p c i change) =
      (d.widgetOutOfRange? p c i <|>
        (d.widget? p c i).bind fun w => errorOf? (change w)) := by
  rw [changeWidget, errorOf?_changeWidgets, widgetOutOfRange?, widget?]
  cases d.column? p c with
  | none =>
      simp
  | some column =>
      simp [errorOf?_changeAt, Option.or_assoc]

end Document

end Refusals

end Dashboard
