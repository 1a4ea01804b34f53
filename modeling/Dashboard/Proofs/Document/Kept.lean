import Dashboard.Editor.Operation
import Dashboard.Proofs.Document.Reachable

/-!
# Keys that are carried along

Settings, properties of pages and properties of columns are never read; a
document carries them along.  Taking out a page or a column moves the ones
behind it, so what a change does to these keys is said of everything that is
still there, by the place where it is afterwards.

Every change of a document keeps them except one: a column whose size is
changed starts over without its properties.
-/

namespace Dashboard

/-! ## Elements that are still there -/

/-- Where the element at place `i` is after the one at place `k` is taken out. -/
def placeAfterRemoval (k i : Nat) : Option Nat :=
  if i < k then some i else if i = k then none else some (i - 1)

section Lists

variable {α β : Type}
variable {after : Nat → Option Nat}
variable {Same : Nat → α → α → Prop}
variable {level : Level}
variable {xs ys : List α}
variable {k : Nat}

/-- Every element that is still there is the same as before, where what is the
same may depend on the place that it had. -/
def Kept (after : Nat → Option Nat) (Same : Nat → α → α → Prop) (xs ys : List α) : Prop :=
  ∀ i j x, xs[i]? = some x → after i = some j → ∃ y, ys[j]? = some y ∧ Same i x y

theorem kept_self
    (hsame : ∀ i x, Same i x x) :
    Kept some Same xs xs := by
  intro i j x hx hj
  cases hj
  exact ⟨x, hx, hsame i x⟩

theorem kept_append
    (hsame : ∀ i x, Same i x x)
    (more : List α) :
    Kept some Same xs (xs ++ more) := by
  intro i j x hx hj
  cases hj
  obtain ⟨hlt, -⟩ := List.getElem?_eq_some_iff.1 hx
  refine ⟨x, ?_, hsame i x⟩
  rw [List.getElem?_append_left hlt, hx]

theorem kept_eraseIdx
    (hsame : ∀ i x, i ≠ k → Same i x x) :
    Kept (placeAfterRemoval k) Same xs (xs.eraseIdx k) := by
  intro i j x hx hj
  rw [placeAfterRemoval] at hj
  split at hj
  · next hlt =>
      cases hj
      refine ⟨x, ?_, hsame i x (Nat.ne_of_lt hlt)⟩
      rw [List.getElem?_eraseIdx, if_pos hlt, hx]
  · next hle =>
      split at hj
      · cases hj
      · next hne =>
          cases hj
          refine ⟨x, ?_, hsame i x hne⟩
          have hback : i - 1 + 1 = i := by omega
          rw [List.getElem?_eraseIdx, if_neg (by omega), hback, hx]

theorem kept_removeAt
    (hsame : ∀ i x, i ≠ k → Same i x x)
    {x : α}
    (h : removeAt level xs k = .ok (x, ys)) :
    Kept (placeAfterRemoval k) Same xs ys := by
  simp only [removeAt, bind_eq_ok, pure_eq_ok] at h
  obtain ⟨x', -, hpair⟩ := h
  cases hpair
  exact kept_eraseIdx hsame

theorem getElem?_of_elementAt
    {x : α}
    (h : elementAt level xs k = .ok x) :
    xs[k]? = some x := by
  rw [elementAt] at h
  split at h
  · next y hy =>
      cases h
      exact hy
  · cases h

/-- What a change at a place was given, and what it put there. -/
theorem exists_of_changeAt
    {change : α → Except Error (β × α)}
    {b : β}
    (h : changeAt level xs k change = .ok (b, ys)) :
    ∃ x y, xs[k]? = some x ∧ change x = .ok (b, y) ∧ ys[k]? = some y ∧ ys = xs.set k y := by
  simp only [changeAt, bind_eq_ok, pure_eq_ok] at h
  obtain ⟨x, hx, ⟨b', y⟩, hchange, hpair⟩ := h
  cases hpair
  have hx := getElem?_of_elementAt hx
  obtain ⟨hlt, -⟩ := List.getElem?_eq_some_iff.1 hx
  exact ⟨x, y, hx, hchange, List.getElem?_set_self hlt, rfl⟩

theorem kept_changeAt
    (hsame : ∀ i x, i ≠ k → Same i x x)
    {change : α → Except Error (β × α)}
    {b : β}
    (h : changeAt level xs k change = .ok (b, ys))
    (hchange : ∀ x y, change x = .ok (b, y) → Same k x y) :
    Kept some Same xs ys := by
  obtain ⟨x, y, hx, hxy, hy, rfl⟩ := exists_of_changeAt h
  intro i j z hz hj
  cases hj
  by_cases hi : i = k
  · subst hi
    rw [hx] at hz
    cases hz
    exact ⟨y, hy, hchange x y hxy⟩
  · refine ⟨z, ?_, hsame i z hi⟩
    rw [List.getElem?_set_ne (Ne.symm hi), hz]

end Lists

/-! ## Pages and documents -/

/-- The properties of a page are as before, and so are those of its columns that
are still there, except for a column that starts over. -/
structure Page.KeepsKeys (after : Nat → Option Nat) (Fresh : Nat → Prop) (page page' : Page) :
    Prop where
  properties : page'.properties = page.properties
  columns : Kept after (fun c column column' => Fresh c ∨ column'.properties = column.properties)
    page.columns page'.columns

/-- Where the pages of a document, and the columns of each page, are after a
change. -/
structure Document.Shift where
  page : Nat → Option Nat := some
  column : Nat → Nat → Option Nat := fun _ => some

namespace Document

/-- Everything stays where it is. -/
def Shift.stay : Shift :=
  {}

/-- A page is taken out. -/
def Shift.withoutPage (p : Nat) : Shift :=
  { page := placeAfterRemoval p }

/-- A column is taken out. -/
def Shift.withoutColumn (p c : Nat) : Shift :=
  { column := fun q => if q = p then placeAfterRemoval c else some }

/-- The settings of a document are as before, and so are the properties of the
pages and columns that are still there, except for a column that starts over. -/
structure KeepsKeys (shift : Shift) (fresh : Option (Nat × Nat)) (d d' : Document) : Prop where
  settings : d'.settings = d.settings
  pages : Kept shift.page
    (fun p => Page.KeepsKeys (shift.column p) fun c => fresh = some (p, c)) d.pages d'.pages

end Document

section Pages

variable {after : Nat → Option Nat}
variable {Fresh : Nat → Prop}
variable {page : Page}

theorem Page.keepsKeys_self
    (page : Page) :
    page.KeepsKeys some Fresh page where
  properties := rfl
  columns := kept_self fun _ _ => .inr rfl

theorem Page.keepsKeys_columns
    {columns : List Column}
    (h : Kept after (fun c column column' => Fresh c ∨ column'.properties = column.properties)
      page.columns columns) :
    page.KeepsKeys after Fresh { page with columns } where
  properties := rfl
  columns := h

end Pages

namespace Document

variable {β : Type}
variable {d d' : Document}
variable {shift : Shift}
variable {fresh : Option (Nat × Nat)}
variable {p c : Nat}
variable {b : β}

theorem keepsKeys_self
    (d : Document) :
    d.KeepsKeys .stay fresh d where
  settings := rfl
  pages := kept_self fun _ page => page.keepsKeys_self

/-! ## Changes -/

theorem keepsKeys_appendPages
    (pages : List Page) :
    d.KeepsKeys .stay fresh { d with pages := d.pages ++ pages } where
  settings := rfl
  pages := kept_append (fun _ page => page.keepsKeys_self) pages

theorem keepsKeys_addPage
    {name : String}
    {place : Nat}
    (h : d.addPage name = .ok (place, d')) :
    d.KeepsKeys .stay fresh d' := by
  simp only [addPage, bind_eq_ok, pure_eq_ok] at h
  obtain ⟨kept, -, hpair⟩ := h
  cases hpair
  exact keepsKeys_appendPages _

theorem keepsKeys_deletePage
    {page : Page}
    (h : d.deletePage p = .ok (page, d')) :
    d.KeepsKeys (.withoutPage p) fresh d' := by
  simp only [deletePage, bind_eq_ok, pure_eq_ok] at h
  obtain ⟨⟨old, pages⟩, hpages, hpair⟩ := h
  cases hpair
  exact ⟨rfl, kept_removeAt (fun _ page _ => page.keepsKeys_self) hpages⟩

/-- A change of one page keeps what it keeps of that page. -/
theorem keepsKeys_changePage
    (hpage : shift.page = some)
    (hother : ∀ q, q ≠ p → shift.column q = some)
    {change : Page → Except Error (β × Page)}
    (h : d.changePage p change = .ok (b, d'))
    (hchange : ∀ page page', change page = .ok (b, page') →
      page.KeepsKeys (shift.column p) (fun c => fresh = some (p, c)) page') :
    d.KeepsKeys shift fresh d' := by
  simp only [changePage, bind_eq_ok, pure_eq_ok] at h
  obtain ⟨⟨b', pages⟩, hpages, hpair⟩ := h
  cases hpair
  refine ⟨rfl, ?_⟩
  rw [hpage]
  refine kept_changeAt (fun q page hq => ?_) hpages hchange
  rw [hother q hq]
  exact page.keepsKeys_self

theorem keepsKeys_renamePage
    {name old : String}
    (h : d.renamePage p name = .ok (old, d')) :
    d.KeepsKeys .stay fresh d' := by
  rw [renamePage, bind_eq_ok] at h
  obtain ⟨kept, -, h⟩ := h
  refine keepsKeys_changePage rfl (fun _ _ => rfl) h fun page page' hstep => ?_
  cases hstep
  exact ⟨rfl, kept_self fun _ _ => .inr rfl⟩

/-- A change of the columns of a page keeps what it keeps of those columns. -/
theorem keepsKeys_changeColumns
    (hpage : shift.page = some)
    (hother : ∀ q, q ≠ p → shift.column q = some)
    {change : List Column → Except Error (β × List Column)}
    (h : d.changeColumns p change = .ok (b, d'))
    (hchange : ∀ columns columns', change columns = .ok (b, columns') →
      Kept (shift.column p)
        (fun c column column' => fresh = some (p, c) ∨ column'.properties = column.properties)
        columns columns') :
    d.KeepsKeys shift fresh d' := by
  refine keepsKeys_changePage hpage hother h fun page page' hstep => ?_
  simp only [bind_eq_ok, pure_eq_ok] at hstep
  obtain ⟨⟨b', columns⟩, hcolumns, hpair⟩ := hstep
  cases hpair
  exact Page.keepsKeys_columns (hchange _ _ hcolumns)

theorem keepsKeys_addColumn
    {size : ColumnSize}
    {place : Nat}
    (h : d.addColumn p size = .ok (place, d')) :
    d.KeepsKeys .stay fresh d' := by
  refine keepsKeys_changeColumns rfl (fun _ _ => rfl) h fun columns columns' hstep => ?_
  cases hstep
  exact kept_append (fun _ _ => .inr rfl) _

theorem keepsKeys_deleteColumn
    {column : Column}
    (h : d.deleteColumn p c = .ok (column, d')) :
    d.KeepsKeys (.withoutColumn p c) fresh d' := by
  refine keepsKeys_changeColumns rfl (fun q hq => if_neg hq) h fun columns columns' hstep => ?_
  have hshift : (Shift.withoutColumn p c).column p = placeAfterRemoval c := if_pos rfl
  rw [hshift]
  exact kept_removeAt (fun _ _ _ => .inr rfl) hstep

/-- A change of one column keeps the properties of the others. -/
theorem keepsKeys_changeColumn
    {change : Column → Except Error (β × Column)}
    (h : d.changeColumn p c change = .ok (b, d'))
    (hchange : ∀ column column', change column = .ok (b, column') →
      fresh = some (p, c) ∨ column'.properties = column.properties) :
    d.KeepsKeys .stay fresh d' :=
  keepsKeys_changeColumns rfl (fun _ _ => rfl) h fun _ _ hstep =>
    kept_changeAt (fun _ _ _ => .inr rfl) hstep hchange

/-- A change of the widgets of a column keeps the properties of that column. -/
theorem keepsKeys_changeWidgets
    {change : List Widget → Except Error (β × List Widget)}
    (h : d.changeWidgets p c change = .ok (b, d')) :
    d.KeepsKeys .stay fresh d' := by
  refine keepsKeys_changeColumn h fun column column' hstep => .inr ?_
  simp only [bind_eq_ok, pure_eq_ok] at hstep
  obtain ⟨⟨b', widgets⟩, -, hpair⟩ := hstep
  cases hpair
  rfl

/-- Starting a column over keeps everything outside that column. -/
theorem keepsKeys_editColumn
    {size : ColumnSize}
    {old : Column}
    (h : d.editColumn p c size = .ok (old, d')) :
    d.KeepsKeys .stay (some (p, c)) d' :=
  keepsKeys_changeColumn h fun _ _ _ => .inl rfl

/-- A column that is started over was there, and has no properties afterwards. -/
theorem column?_of_editColumn
    {size : ColumnSize}
    {old : Column}
    (h : d.editColumn p c size = .ok (old, d')) :
    d.column? p c = some old ∧ d'.column? p c = some { size } := by
  simp only [editColumn, changeColumn, changeColumns, changePage, bind_eq_ok, pure_eq_ok] at h
  obtain ⟨⟨b, pages⟩, hpages, hpair⟩ := h
  cases hpair
  obtain ⟨page, page', hpage, hstep, hpage', -⟩ := exists_of_changeAt hpages
  simp only [bind_eq_ok, pure_eq_ok] at hstep
  obtain ⟨⟨b', columns⟩, hcolumns, hpair⟩ := hstep
  cases hpair
  obtain ⟨column, column', hcolumn, hfresh, hcolumn', -⟩ := exists_of_changeAt hcolumns
  cases hfresh
  simp [column?, page?, hpage, hpage', hcolumn, hcolumn']

/-- A column that stays where it is keeps its properties. -/
theorem KeepsKeys.properties_of_column?
    (h : d.KeepsKeys .stay none d')
    {column column' : Column}
    (hcolumn : d.column? p c = some column)
    (hcolumn' : d'.column? p c = some column') :
    column'.properties = column.properties := by
  obtain ⟨page, hpage, hcolumn⟩ := Option.bind_eq_some_iff.1 hcolumn
  obtain ⟨page', hpage', hcolumn'⟩ := Option.bind_eq_some_iff.1 hcolumn'
  obtain ⟨page₁, hpage₁, hkeeps⟩ := h.pages p p page hpage rfl
  cases hpage'.symm.trans hpage₁
  obtain ⟨column₁, hcolumn₁, hfresh | hproperties⟩ := hkeeps.columns c c column hcolumn rfl
  · cases hfresh
  · cases hcolumn'.symm.trans hcolumn₁
    exact hproperties

/-- When a column starts over and loses nothing, nothing is lost. -/
theorem KeepsKeys.of_column?
    (h : d.KeepsKeys .stay (some (p, c)) d')
    (hlost : ∀ column column', d.column? p c = some column → d'.column? p c = some column' →
      column'.properties = column.properties) :
    d.KeepsKeys .stay none d' := by
  refine ⟨h.settings, fun i i' page hpage hi => ?_⟩
  cases hi
  obtain ⟨page', hpage', hkeeps⟩ := h.pages i i page hpage rfl
  refine ⟨page', hpage', hkeeps.properties, fun j j' column hcolumn hj => ?_⟩
  cases hj
  obtain ⟨column', hcolumn', hfresh | hproperties⟩ := hkeeps.columns j j column hcolumn rfl
  · cases hfresh
    refine ⟨column', hcolumn', .inr (hlost column column' ?_ ?_)⟩
    · simp [column?, page?, hpage, hcolumn]
    · simp [column?, page?, hpage', hcolumn']
  · exact ⟨column', hcolumn', .inr hproperties⟩

/-- Starting a column over loses nothing exactly when it had no properties. -/
theorem keepsKeys_editColumn_iff
    {size : ColumnSize}
    {old : Column}
    (h : d.editColumn p c size = .ok (old, d')) :
    d.KeepsKeys .stay none d' ↔ old.properties = [] := by
  obtain ⟨hold, hnew⟩ := column?_of_editColumn h
  constructor
  · intro hkeeps
    exact (hkeeps.properties_of_column? hold hnew).symm
  · intro hnone
    refine (keepsKeys_editColumn h).of_column? fun column column' hcolumn hcolumn' => ?_
    cases hold.symm.trans hcolumn
    cases hnew.symm.trans hcolumn'
    exact hnone.symm

end Document

end Dashboard
