import Dashboard.Proofs.Document.Modified

/-!
# Operations on the tree of a document

Pages, columns and widgets are looked up, added, changed and removed by their places.
Main statement: every operation is refused exactly for a blank name or for the outermost
level that is out of range, and touches only what it addresses.

* What an operation is refused for is read off its place (`TreeOperation.fault?`).
* What it gives and does is said for each operation (`TreeOperation.Result`); that all
  else stays is said once: without what was added and what was taken, the document is the
  same before and after.
* The number of widgets follows from that (`widgetCount_without`).
-/

namespace Dashboard

open Document (Place)

/-! ## Operations as data -/

/-- What all elements count together. -/
def total {α : Type} (count : α → Nat) (xs : List α) : Nat :=
  xs.foldr (fun x n => count x + n) 0

@[simp] theorem total_nil
    {α : Type}
    (count : α → Nat) :
    total count [] = 0 :=
  rfl

@[simp] theorem total_cons
    {α : Type}
    (count : α → Nat)
    (x : α)
    (xs : List α) :
    total count (x :: xs) = count x + total count xs :=
  rfl

/-- How many widgets a page has in all its columns. -/
def Page.widgetCount (page : Page) : Nat :=
  total (fun column => column.widgets.length) page.columns

/-- The operations, by the type of their results. -/
inductive TreeOperation : Type → Type where
  | getPage (p : Nat) : TreeOperation Page
  | getColumn (p c : Nat) : TreeOperation Column
  | getWidget (p c i : Nat) : TreeOperation Widget
  | addPage (name : String) : TreeOperation Nat
  | renamePage (p : Nat) (name : String) : TreeOperation String
  | deletePage (p : Nat) : TreeOperation Page
  | addColumn (p : Nat) (size : ColumnSize) : TreeOperation Nat
  | editColumn (p c : Nat) (size : ColumnSize) : TreeOperation Column
  | deleteColumn (p c : Nat) : TreeOperation Column
  | addWidget (p c : Nat) (w : Widget) : TreeOperation Nat
  | replaceWidget (p c i : Nat) (w : Widget) : TreeOperation Widget
  | deleteWidget (p c i : Nat) : TreeOperation Widget

/-- Where an element was before the one at place `k` was taken out. -/
def placeBeforeRemoval (k j : Nat) : Nat :=
  if j < k then j else j + 1

namespace TreeOperation

variable {β : Type}

/-- Carry out an operation. -/
def run (d : Document) : TreeOperation β → Except Error (β × Document)
  | getPage p => (d.page p).map (·, d)
  | getColumn p c => (d.column p c).map (·, d)
  | getWidget p c i => (d.widget p c i).map (·, d)
  | addPage name => d.addPage name
  | renamePage p name => d.renamePage p name
  | deletePage p => d.deletePage p
  | addColumn p size => d.addColumn p size
  | editColumn p c size => d.editColumn p c size
  | deleteColumn p c => d.deleteColumn p c
  | addWidget p c w => d.addWidget p c w
  | replaceWidget p c i w => d.replaceWidget p c i w
  | deleteWidget p c i => d.deleteWidget p c i

/-- The place that has to exist. -/
def place : TreeOperation β → Place
  | addPage _ => .whole
  | getPage p | renamePage p _ | deletePage p | addColumn p _ => .page p
  | getColumn p c | editColumn p c _ | deleteColumn p c | addWidget p c _ => .column p c
  | getWidget p c i | replaceWidget p c i _ | deleteWidget p c i => .widget p c i

/-- The operation is given a blank name. -/
def hasBlankName : TreeOperation β → Bool
  | addPage name | renamePage _ name => (Text.trim name).isEmpty
  | _ => false

/-- What an operation is refused for: a blank name, then the outermost level that is out
of range. -/
def fault? (d : Document) (op : TreeOperation β) : Option Error :=
  if op.hasBlankName then some .emptyName else d.outOfRange? op.place

/-- The place of what an operation takes out or changes. -/
def taken? : TreeOperation β → Option Place
  | renamePage p _ | deletePage p => some (.page p)
  | editColumn p c _ | deleteColumn p c => some (.column p c)
  | replaceWidget p c i _ | deleteWidget p c i => some (.widget p c i)
  | _ => none

/-- The place of what an operation puts in or has changed. -/
def put? : TreeOperation β → β → Option Place
  | addPage _, p => some (.page p)
  | renamePage p _, _ => some (.page p)
  | addColumn p _, c => some (.column p c)
  | editColumn p c _, _ => some (.column p c)
  | addWidget p c _, i => some (.widget p c i)
  | replaceWidget p c i _, _ => some (.widget p c i)
  | _, _ => none

/-- How many widgets an operation adds. -/
def gained : TreeOperation β → Nat
  | addWidget _ _ _ | replaceWidget _ _ _ _ => 1
  | _ => 0

/-- How many widgets an operation removes or drops. -/
def dropped : TreeOperation β → β → Nat
  | deletePage _, page => page.widgetCount
  | editColumn _ _ _, column | deleteColumn _ _, column => column.widgets.length
  | replaceWidget _ _ _ _, _ | deleteWidget _ _ _, _ => 1
  | _, _ => 0

/-- What an operation gives and what it does at its place. -/
def Result (d : Document) : TreeOperation β → β → Document → Prop
  | getPage p, page, d' => d.page? p = some page ∧ d' = d
  | getColumn p c, column, d' => d.column? p c = some column ∧ d' = d
  | getWidget p c i, w, d' => d.widget? p c i = some w ∧ d' = d
  | addPage name, p, d' =>
      p = d.pages.length ∧ d'.page? p = some { name := Text.trim name } ∧
        d'.deletePage p = .ok ({ name := Text.trim name }, d)
  | renamePage p name, old, d' =>
      ∃ page, d.page? p = some page ∧ page.name = old ∧
        d'.page? p = some { page with name := Text.trim name }
  | deletePage p, page, d' =>
      d.page? p = some page ∧ ∀ q, d'.page? q = d.page? (placeBeforeRemoval p q)
  | addColumn p size, c, d' =>
      (∃ page, d.page? p = some page ∧ c = page.columns.length) ∧
        d'.column? p c = some { size } ∧ d'.deleteColumn p c = .ok ({ size }, d)
  | editColumn p c size, old, d' =>
      d.column? p c = some old ∧ d'.column? p c = some { size }
  | deleteColumn p c, column, d' =>
      d.column? p c = some column ∧
        ∀ j, d'.column? p j = d.column? p (placeBeforeRemoval c j)
  | addWidget p c w, i, d' =>
      (∃ column, d.column? p c = some column ∧ i = column.widgets.length) ∧
        d'.widget? p c i = some w ∧ d'.deleteWidget p c i = .ok (w, d)
  | replaceWidget p c i w, old, d' =>
      d.widget? p c i = some old ∧ d'.widget? p c i = some w ∧
        d'.replaceWidget p c i old = .ok (w, d)
  | deleteWidget p c i, old, d' =>
      d.widget? p c i = some old ∧
        ∀ j, d'.widget? p c j = d.widget? p c (placeBeforeRemoval i j)

/-- An operation has touched only what it addresses. -/
structure TouchesOnly (op : TreeOperation β) (d : Document) (b : β) (d' : Document) : Prop where
  result : op.Result d b d'
  /-- Without what was put in and what was taken, nothing has changed. -/
  others : (op.put? b).elim d' d'.without = op.taken?.elim d d.without
  settings : d'.settings = d.settings
  widgetCount : d'.widgetCount + op.dropped b = d.widgetCount + op.gained

end TreeOperation

/-! ## Refusals -/

/-- An operation is refused exactly for a blank name or for its place. -/
theorem TreeOperation.errorOf?_run
    {β : Type}
    (d : Document)
    (op : TreeOperation β) :
    errorOf? (op.run d) = op.fault? d := by
  cases op with
  | getPage p =>
      exact (errorOf?_map _ _).trans Document.errorOf?_page
  | getColumn p c =>
      exact (errorOf?_map _ _).trans Document.errorOf?_column
  | getWidget p c i =>
      exact (errorOf?_map _ _).trans Document.errorOf?_widget
  | addPage name =>
      rw [run, Document.addPage, errorOf?_bind_pure, keptName, fault?, hasBlankName]
      split <;> rfl
  | renamePage p name =>
      rw [run, Document.renamePage, keptName, fault?, hasBlankName]
      split
      · rfl
      · exact (Document.errorOf?_changePage _).trans (orElse_bind_none _ _)
  | deletePage p =>
      rw [run, Document.deletePage]
      exact (errorOf?_bind_pure _ _).trans (errorOf?_removeAt _ _)
  | addColumn p size =>
      rw [run, Document.addColumn, Document.errorOf?_changeColumns]
      exact orElse_bind_none _ _
  | editColumn p c size =>
      exact (Document.errorOf?_changeColumn _).trans (orElse_bind_none _ _)
  | deleteColumn p c =>
      rw [run, Document.deleteColumn, Document.errorOf?_changeColumns]
      simp only [errorOf?_removeAt]
      rfl
  | addWidget p c w =>
      rw [run, Document.addWidget, Document.errorOf?_changeWidgets]
      exact orElse_bind_none _ _
  | replaceWidget p c i w =>
      exact (Document.errorOf?_changeWidget _).trans (orElse_bind_none _ _)
  | deleteWidget p c i =>
      rw [run, Document.deleteWidget, Document.errorOf?_changeWidgets]
      simp only [errorOf?_removeAt]
      rfl

/-! ## Numbers of widgets -/

section Numbers

variable {α : Type}

theorem total_eraseIdx
    (count : α → Nat)
    (xs : List α)
    (i : Nat) :
    total count (xs.eraseIdx i) + xs[i]?.elim 0 count = total count xs := by
  induction xs generalizing i with
  | nil =>
      rfl
  | cons x xs ih =>
      cases i with
      | zero =>
          simp [Nat.add_comm]
      | succ i =>
          simp [Nat.add_assoc, ih]

theorem total_modify
    (count : α → Nat)
    (xs : List α)
    (i : Nat)
    (f : α → α) :
    total count (xs.modify i f) + xs[i]?.elim 0 count =
      total count xs + xs[i]?.elim 0 fun x => count (f x) := by
  induction xs generalizing i with
  | nil =>
      simp
  | cons x xs ih =>
      cases i with
      | zero =>
          simp [Nat.add_comm, Nat.add_left_comm]
      | succ i =>
          simp [Nat.add_assoc, ih]

theorem length_eraseIdx_add
    (xs : List α)
    (i : Nat) :
    (xs.eraseIdx i).length + xs[i]?.elim 0 (fun _ => 1) = xs.length := by
  cases hi : xs[i]? with
  | none =>
      rw [List.eraseIdx_of_length_le (List.getElem?_eq_none_iff.1 hi)]
      rfl
  | some x =>
      obtain ⟨hlt, -⟩ := List.getElem?_eq_some_iff.1 hi
      rw [List.length_eraseIdx_of_lt hlt, Option.elim_some]
      omega

namespace Document

variable {d : Document}
variable {p c : Nat}

/-- How many widgets are at a place and below it. -/
def widgetsAt (d : Document) : Place → Nat
  | .whole => d.widgetCount
  | .page p => (d.page? p).elim 0 Page.widgetCount
  | .column p c => (d.column? p c).elim 0 fun column => column.widgets.length
  | .widget p c i => (d.widget? p c i).elim 0 fun _ => 1

theorem widgetCount_eq_total
    (d : Document) :
    d.widgetCount = total Page.widgetCount d.pages := by
  have hcolumns : ∀ (columns : List Column) (n : Nat),
      (columns.map fun column => column.widgets.length).foldr (· + ·) n =
        total (fun column => column.widgets.length) columns + n := by
    intro columns n
    induction columns with
    | nil =>
        exact (Nat.zero_add n).symm
    | cons column columns ih =>
        rw [List.map_cons, List.foldr_cons, ih, total_cons, Nat.add_assoc]
  rw [widgetCount]
  induction d.pages with
  | nil =>
      rfl
  | cons page pages ih =>
      rw [List.flatMap_cons, List.map_append, List.foldr_append, ih, hcolumns, total_cons]
      rfl

theorem widgetCount_modifyPage
    (f : Page → Page) :
    (d.modifyPage p f).widgetCount + (d.page? p).elim 0 Page.widgetCount =
      d.widgetCount + (d.page? p).elim 0 fun page => (f page).widgetCount := by
  rw [widgetCount_eq_total, widgetCount_eq_total]
  exact total_modify Page.widgetCount d.pages p f

theorem widgetCount_modifyColumn
    (f : Column → Column) :
    (d.modifyColumn p c f).widgetCount +
        (d.column? p c).elim 0 (fun column => column.widgets.length) =
      d.widgetCount + (d.column? p c).elim 0 fun column => (f column).widgets.length := by
  have hpages := widgetCount_modifyPage (d := d) (p := p)
    fun page => { page with columns := page.columns.modify c f }
  rw [column?, modifyColumn]
  cases hpage : d.page? p with
  | none =>
      rw [hpage] at hpages
      exact hpages
  | some page =>
      rw [hpage] at hpages
      have hcolumns := total_modify (fun column => column.widgets.length) page.columns c f
      simp only [Option.elim_some, Option.bind_some, Page.widgetCount] at hpages ⊢
      omega

/-- What is at a place are the widgets that the document has more than without it. -/
theorem widgetCount_without
    (d : Document)
    (place : Place) :
    (d.without place).widgetCount + d.widgetsAt place = d.widgetCount := by
  cases place with
  | whole =>
      rw [without, widgetsAt]
      exact Nat.zero_add _
  | page p =>
      rw [widgetCount_eq_total, widgetCount_eq_total]
      exact total_eraseIdx Page.widgetCount d.pages p
  | column p c =>
      have hpages := widgetCount_modifyPage (d := d) (p := p)
        fun page => { page with columns := page.columns.eraseIdx c }
      rw [without, widgetsAt, column?]
      cases hpage : d.page? p with
      | none =>
          rw [hpage] at hpages
          exact hpages
      | some page =>
          rw [hpage] at hpages
          have hcolumns := total_eraseIdx (fun column => column.widgets.length) page.columns c
          simp only [Option.elim_some, Option.bind_some, Page.widgetCount] at hpages ⊢
          omega
  | widget p c i =>
      have hcolumns := widgetCount_modifyColumn (d := d) (p := p) (c := c)
        fun column => { column with widgets := column.widgets.eraseIdx i }
      rw [without, widgetsAt, widget?]
      cases hcolumn : d.column? p c with
      | none =>
          rw [hcolumn] at hcolumns
          exact hcolumns
      | some column =>
          rw [hcolumn] at hcolumns
          have hwidgets := length_eraseIdx_add column.widgets i
          simp only [Option.elim_some, Option.bind_some] at hcolumns ⊢
          omega

end Document

end Numbers

/-! ## What is touched -/

section Touched

variable {β : Type}
variable {d d' : Document}

namespace Document

variable {p c i : Nat}

theorem without_modifyPage
    (f : Page → Page) :
    (d.modifyPage p f).without (.page p) = d.without (.page p) := by
  rw [without, modifyPage, List.eraseIdx_modify_of_eq]
  rfl

theorem without_modifyColumn
    (f : Column → Column) :
    (d.modifyColumn p c f).without (.column p c) = d.without (.column p c) := by
  rw [without, modifyColumn, modifyPage_modifyPage]
  refine modifyPage_congr fun page _ => ?_
  rw [Function.comp_apply, List.eraseIdx_modify_of_eq]

theorem without_modifyWidget
    (f : Widget → Widget) :
    (d.modifyWidget p c i f).without (.widget p c i) = d.without (.widget p c i) := by
  rw [without, modifyWidget, modifyColumn_modifyColumn]
  refine modifyColumn_congr fun column _ => ?_
  rw [Function.comp_apply, List.eraseIdx_modify_of_eq]

/-- A page that was appended is taken out again. -/
theorem without_appendPage
    (page : Page) :
    without { d with pages := d.pages ++ [page] } (.page d.pages.length) = d := by
  rw [without, eraseIdx_append_length]

/-- A column that was appended is taken out again. -/
theorem without_appendColumn
    {page : Page}
    (hpage : d.page? p = some page)
    (column : Column) :
    (d.modifyPage p fun page => { page with columns := page.columns ++ [column] }).without
      (.column p page.columns.length) = d := by
  rw [without, modifyPage_modifyPage]
  refine modifyPage_eq_self_of fun page' hpage' => ?_
  cases hpage.symm.trans hpage'
  rw [Function.comp_apply, eraseIdx_append_length]

/-- A widget that was appended is taken out again. -/
theorem without_appendWidget
    {column : Column}
    (hcolumn : d.column? p c = some column)
    (w : Widget) :
    (d.modifyColumn p c fun column => { column with widgets := column.widgets ++ [w] }).without
      (.widget p c column.widgets.length) = d := by
  rw [without, modifyColumn_modifyColumn]
  refine modifyColumn_eq_self_of fun column' hcolumn' => ?_
  cases hcolumn.symm.trans hcolumn'
  rw [Function.comp_apply, eraseIdx_append_length]

theorem column?_appendColumn
    {page : Page}
    (hpage : d.page? p = some page)
    (column : Column) :
    (d.modifyPage p fun page => { page with columns := page.columns ++ [column] }).column? p
      page.columns.length = some column := by
  rw [column?, page?_modifyPage, hpage]
  exact List.getElem?_concat_length

theorem widget?_appendWidget
    {column : Column}
    (hcolumn : d.column? p c = some column)
    (w : Widget) :
    (d.modifyColumn p c fun column => { column with widgets := column.widgets ++ [w] }).widget? p c
      column.widgets.length = some w := by
  rw [widget?, column?_modifyColumn, hcolumn]
  exact List.getElem?_concat_length

/-- Behind a column that is taken out, the columns move down by one. -/
theorem column?_without
    (j : Nat) :
    (d.without (.column p c)).column? p j = d.column? p (placeBeforeRemoval c j) := by
  rw [column?, without, page?_modifyPage, column?]
  cases d.page? p with
  | none =>
      rfl
  | some page =>
      exact getElem?_eraseIdx_eq page.columns c j

/-- Behind a widget that is taken out, the widgets move down by one. -/
theorem widget?_without
    (j : Nat) :
    (d.without (.widget p c i)).widget? p c j = d.widget? p c (placeBeforeRemoval i j) := by
  rw [widget?, without, column?_modifyColumn, widget?]
  cases d.column? p c with
  | none =>
      rfl
  | some column =>
      exact getElem?_eraseIdx_eq column.widgets i j

/-- The old widget in the place of another one restores the document. -/
theorem modifyWidget_back
    {old : Widget}
    (hold : d.widget? p c i = some old)
    (w : Widget) :
    (d.modifyWidget p c i fun _ => w).modifyWidget p c i (fun _ => old) = d := by
  rw [modifyWidget_modifyWidget]
  refine modifyWidget_eq_self_of fun w' hw' => ?_
  exact Option.some.inj (hold.symm.trans hw')

end Document

namespace TreeOperation

/-- Without what was put in and what was taken, nothing has changed. -/
theorem others_of_run
    {op : TreeOperation β}
    {b : β}
    (h : op.run d = .ok (b, d')) :
    (op.put? b).elim d' d'.without = op.taken?.elim d d.without := by
  cases op with
  | getPage p | getColumn p c | getWidget p c i =>
      obtain ⟨x, -, hpair⟩ := map_eq_ok.1 h
      cases hpair
      rfl
  | addPage name =>
      obtain ⟨-, rfl, rfl⟩ := Document.addPage_eq_ok_iff.1 h
      exact Document.without_appendPage _
  | renamePage p name =>
      obtain ⟨-, -, rfl⟩ := Document.renamePage_eq_ok_iff.1 h
      exact Document.without_modifyPage _
  | deletePage p =>
      obtain ⟨-, rfl⟩ := Document.deletePage_eq_ok_iff.1 h
      rfl
  | addColumn p size =>
      obtain ⟨⟨page, hpage, rfl⟩, rfl⟩ := Document.addColumn_eq_ok_iff.1 h
      exact Document.without_appendColumn hpage _
  | editColumn p c size =>
      obtain ⟨-, rfl⟩ := Document.editColumn_eq_ok_iff.1 h
      exact Document.without_modifyColumn _
  | deleteColumn p c =>
      obtain ⟨-, rfl⟩ := Document.deleteColumn_eq_ok_iff.1 h
      rfl
  | addWidget p c w =>
      obtain ⟨⟨column, hcolumn, rfl⟩, rfl⟩ := Document.addWidget_eq_ok_iff.1 h
      exact Document.without_appendWidget hcolumn _
  | replaceWidget p c i w =>
      obtain ⟨-, rfl⟩ := Document.replaceWidget_eq_ok_iff.1 h
      exact Document.without_modifyWidget _
  | deleteWidget p c i =>
      obtain ⟨-, rfl⟩ := Document.deleteWidget_eq_ok_iff.1 h
      rfl

theorem result_of_run
    {op : TreeOperation β}
    {b : β}
    (h : op.run d = .ok (b, d')) :
    op.Result d b d' := by
  cases op with
  | getPage p =>
      obtain ⟨page, hpage, hpair⟩ := map_eq_ok.1 h
      cases hpair
      exact ⟨elementAt_eq_ok_iff.1 hpage, rfl⟩
  | getColumn p c =>
      obtain ⟨column, hcolumn, hpair⟩ := map_eq_ok.1 h
      cases hpair
      exact ⟨Document.toOption_column ▸ toOption_eq_some.2 hcolumn, rfl⟩
  | getWidget p c i =>
      obtain ⟨w, hw, hpair⟩ := map_eq_ok.1 h
      cases hpair
      exact ⟨Document.toOption_widget ▸ toOption_eq_some.2 hw, rfl⟩
  | addPage name =>
      obtain ⟨-, rfl, rfl⟩ := Document.addPage_eq_ok_iff.1 h
      have hadded :
          Document.page? { d with pages := d.pages ++ [{ name := Text.trim name }] }
            d.pages.length = some { name := Text.trim name } :=
        List.getElem?_concat_length
      exact ⟨rfl, hadded, Document.deletePage_eq_ok_iff.2 ⟨hadded, Document.without_appendPage _⟩⟩
  | renamePage p name =>
      obtain ⟨-, ⟨page, hpage, hold⟩, rfl⟩ := Document.renamePage_eq_ok_iff.1 h
      refine ⟨page, hpage, hold, ?_⟩
      rw [Document.page?_modifyPage, hpage]
      rfl
  | deletePage p =>
      obtain ⟨hpage, rfl⟩ := Document.deletePage_eq_ok_iff.1 h
      exact ⟨hpage, fun q => getElem?_eraseIdx_eq d.pages p q⟩
  | addColumn p size =>
      obtain ⟨⟨page, hpage, rfl⟩, rfl⟩ := Document.addColumn_eq_ok_iff.1 h
      have hadded := Document.column?_appendColumn hpage { size }
      exact ⟨⟨page, hpage, rfl⟩, hadded,
        Document.deleteColumn_eq_ok_iff.2 ⟨hadded, Document.without_appendColumn hpage _⟩⟩
  | editColumn p c size =>
      obtain ⟨hold, rfl⟩ := Document.editColumn_eq_ok_iff.1 h
      refine ⟨hold, ?_⟩
      rw [Document.column?_modifyColumn, hold]
      rfl
  | deleteColumn p c =>
      obtain ⟨hcolumn, rfl⟩ := Document.deleteColumn_eq_ok_iff.1 h
      exact ⟨hcolumn, Document.column?_without⟩
  | addWidget p c w =>
      obtain ⟨⟨column, hcolumn, rfl⟩, rfl⟩ := Document.addWidget_eq_ok_iff.1 h
      have hadded := Document.widget?_appendWidget hcolumn w
      exact ⟨⟨column, hcolumn, rfl⟩, hadded,
        Document.deleteWidget_eq_ok_iff.2 ⟨hadded, Document.without_appendWidget hcolumn _⟩⟩
  | replaceWidget p c i w =>
      obtain ⟨hold, rfl⟩ := Document.replaceWidget_eq_ok_iff.1 h
      have hput : (d.modifyWidget p c i fun _ => w).widget? p c i = some w := by
        rw [Document.widget?_modifyWidget, hold]
        rfl
      exact ⟨hold, hput,
        Document.replaceWidget_eq_ok_iff.2 ⟨hput, Document.modifyWidget_back hold w⟩⟩
  | deleteWidget p c i =>
      obtain ⟨hold, rfl⟩ := Document.deleteWidget_eq_ok_iff.1 h
      exact ⟨hold, Document.widget?_without⟩

theorem settings_of_run
    {op : TreeOperation β}
    {b : β}
    (h : op.run d = .ok (b, d')) :
    d'.settings = d.settings := by
  have hwithout : ∀ (d : Document) (place? : Option Place),
      (place?.elim d d.without).settings = d.settings := by
    intro d place?
    cases place? with
    | none =>
        rfl
    | some place =>
        cases place <;> rfl
  rw [← hwithout d' (op.put? b), others_of_run h, hwithout]

/-- The widgets where something was put in make up for those where something was
taken. -/
theorem widgetsAt_of_run
    {op : TreeOperation β}
    {b : β}
    (h : op.run d = .ok (b, d')) :
    d'.widgetCount + op.taken?.elim 0 d.widgetsAt =
      d.widgetCount + (op.put? b).elim 0 d'.widgetsAt := by
  have hwithout : ∀ (d : Document) (place? : Option Place),
      (place?.elim d d.without).widgetCount + place?.elim 0 d.widgetsAt = d.widgetCount := by
    intro d place?
    cases place? with
    | none =>
        rfl
    | some place =>
        exact Document.widgetCount_without d place
  have hput := hwithout d' (op.put? b)
  have htaken := hwithout d op.taken?
  rw [others_of_run h] at hput
  omega

theorem widgetCount_of_run
    {op : TreeOperation β}
    {b : β}
    (h : op.run d = .ok (b, d')) :
    d'.widgetCount + op.dropped b = d.widgetCount + op.gained := by
  have hcount := widgetsAt_of_run h
  have hresult := result_of_run h
  cases op with
  | getPage p | getColumn p c | getWidget p c i =>
      exact hcount
  | addPage name =>
      obtain ⟨-, hadded, -⟩ := hresult
      simp only [put?, Option.elim_some, Document.widgetsAt, hadded] at hcount
      exact hcount
  | renamePage p name =>
      obtain ⟨page, hpage, -, hpage'⟩ := hresult
      simp only [put?, taken?, Option.elim_some, Document.widgetsAt, hpage, hpage'] at hcount
      exact Nat.add_right_cancel hcount
  | deletePage p =>
      obtain ⟨hpage, -⟩ := hresult
      simp only [put?, taken?, Option.elim_some, Document.widgetsAt, hpage] at hcount
      exact hcount
  | addColumn p size =>
      obtain ⟨-, hadded, -⟩ := hresult
      simp only [put?, Option.elim_some, Document.widgetsAt, hadded] at hcount
      exact hcount
  | editColumn p c size =>
      obtain ⟨hold, hnew⟩ := hresult
      simp only [put?, taken?, Option.elim_some, Document.widgetsAt, hold, hnew] at hcount
      exact hcount
  | deleteColumn p c =>
      obtain ⟨hcolumn, -⟩ := hresult
      simp only [put?, taken?, Option.elim_some, Document.widgetsAt, hcolumn] at hcount
      exact hcount
  | addWidget p c w =>
      obtain ⟨-, hadded, -⟩ := hresult
      simp only [put?, Option.elim_some, Document.widgetsAt, hadded] at hcount
      exact hcount
  | replaceWidget p c i w =>
      obtain ⟨hold, hnew, -⟩ := hresult
      simp only [put?, taken?, Option.elim_some, Document.widgetsAt, hold, hnew] at hcount
      exact hcount
  | deleteWidget p c i =>
      obtain ⟨hold, -⟩ := hresult
      simp only [put?, taken?, Option.elim_some, Document.widgetsAt, hold] at hcount
      exact hcount

/-- Every operation is refused exactly for a blank name or for the outermost level that is
out of range, and otherwise touches only what it addresses. -/
theorem touchesOnly_of_run
    (op : TreeOperation β)
    (d : Document) :
    errorOf? (op.run d) = op.fault? d ∧
      ∀ b d', op.run d = .ok (b, d') → op.TouchesOnly d b d' :=
  ⟨errorOf?_run d op, fun _ _ h => ⟨result_of_run h, others_of_run h, settings_of_run h,
    widgetCount_of_run h⟩⟩

/-- A page whose one column has two widgets. -/
def homeDocument : Document where
  pages :=
    [{ name := "Home", columns := [{ widgets := [{ type := "clock" }, { type := "rss" }] }] }]
  settings := [("theme", .str "dark")]

theorem touchesOnly_of_run_homeDocument :
    errorOf? ((renamePage 7 " ").run homeDocument) = some .emptyName ∧
      errorOf? ((deleteColumn 0 1).run homeDocument) =
        some (.indexOutOfRange .column 1 1) ∧
      (deleteWidget 0 0 0).TouchesOnly homeDocument { type := "clock" }
        { homeDocument with
          pages := [{ name := "Home", columns := [{ widgets := [{ type := "rss" }] }] }] } := by
  refine ⟨(touchesOnly_of_run _ _).1.trans (by decide +kernel),
    (touchesOnly_of_run _ _).1.trans rfl, (touchesOnly_of_run _ _).2 _ _ rfl⟩

end TreeOperation

end Touched

end Dashboard
