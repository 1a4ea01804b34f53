import Dashboard.Menu.Selection

/-!
# Valid selections

A selection is valid for a document if it only points at what exists: a page of
the document, a column of that page, a widget of that column.  Clamping looks
up nothing that is out of range and gives a valid selection; a valid one it
leaves as it is, so that clamping a second time changes nothing.
-/

namespace Dashboard.Selection

/-- Every selected place exists. -/
structure Valid (s : Selection) (d : Document) : Prop where
  page :
    ∀ p, s.page = some p → p < d.pages.length
  column :
    ∀ c, s.column = some c → ∃ page, s.page? d = some page ∧ c < page.columns.length
  widget :
    ∀ w, s.widget = some w → ∃ column, s.column? d = some column ∧ w < column.widgets.length

/-- Clamping by lookups that fail out of range. -/
def clampStrict (s : Selection) (d : Document) : Option Selection :=
  match s.page.bind fun p => nearest p d.pages.length with
  | none => some {}
  | some p => do
    let page ← d.pages[p]?
    match s.column.bind fun c => nearest c page.columns.length with
    | none => some { page := some p }
    | some c => do
      let column ← page.columns[c]?
      let widget := s.widget.bind fun w => nearest w column.widgets.length
      some { page := some p, column := some c, widget }

variable {s : Selection}
variable {d : Document}

/-! ## Nearest places -/

/-- A place in a list can be looked up. -/
theorem exists_getElem?_of_lt
    {α : Type}
    {xs : List α}
    {i : Nat}
    (h : i < xs.length) :
    ∃ x, xs[i]? = some x :=
  ⟨xs[i], List.getElem?_eq_getElem h⟩

/-- The nearest place can be looked up. -/
theorem exists_getElem?_of_nearest
    {α : Type}
    {xs : List α}
    {place : Option Nat}
    {i : Nat}
    (h : (place.bind fun j => nearest j xs.length) = some i) :
    ∃ x, xs[i]? = some x := by
  obtain ⟨j, -, hnearest⟩ := Option.bind_eq_some_iff.1 h
  exact exists_getElem?_of_lt (nearest_lt hnearest)

/-- A place in the list stays. -/
theorem bind_nearest_eq_self
    {place : Option Nat}
    {length : Nat}
    (h : ∀ i, place = some i → i < length) :
    (place.bind fun i => nearest i length) = place := by
  cases place with
  | none =>
      rfl
  | some i =>
      exact nearest_of_lt (h i rfl)

/-! ## Clamping -/

/-- No lookup of clamping is out of range. -/
theorem clampStrict_eq (s : Selection) (d : Document) : s.clampStrict d = some (s.clamp d) := by
  rw [clampStrict, clamp]
  cases hpage : s.page.bind fun p => nearest p d.pages.length with
  | none =>
      rfl
  | some p =>
      obtain ⟨page, hp⟩ := exists_getElem?_of_nearest hpage
      simp only [Option.bind_some, hp]
      cases hcolumn : s.column.bind fun c => nearest c page.columns.length with
      | none =>
          simp [hcolumn]
      | some c =>
          obtain ⟨column, hc⟩ := exists_getElem?_of_nearest hcolumn
          simp [hcolumn, hc]

/-- What is selected after clamping exists. -/
theorem valid_clamp (s : Selection) (d : Document) : (s.clamp d).Valid d := by
  rw [clamp]
  cases hpage : s.page.bind fun p => nearest p d.pages.length with
  | none =>
      exact ⟨nofun, nofun, nofun⟩
  | some p =>
      obtain ⟨page, hp⟩ := exists_getElem?_of_nearest hpage
      obtain ⟨hplt, -⟩ := List.getElem?_eq_some_iff.1 hp
      simp only [Option.bind_some, hp]
      cases hcolumn : s.column.bind fun c => nearest c page.columns.length with
      | none =>
          exact ⟨fun _ h => Option.some.inj h ▸ hplt, nofun, nofun⟩
      | some c =>
          obtain ⟨column, hc⟩ := exists_getElem?_of_nearest hcolumn
          obtain ⟨hclt, -⟩ := List.getElem?_eq_some_iff.1 hc
          simp only [Option.bind_some, hc]
          refine ⟨fun _ h => Option.some.inj h ▸ hplt, fun _ h => ?_, fun w h => ?_⟩
          · exact ⟨page, hp, Option.some.inj h ▸ hclt⟩
          · obtain ⟨i, -, hnearest⟩ := Option.bind_eq_some_iff.1 h
            refine ⟨column, ?_, nearest_lt hnearest⟩
            simp [column?, page?, hp, hc]

/-- A valid selection stays as it is. -/
theorem clamp_eq_self (h : s.Valid d) : s.clamp d = s := by
  obtain ⟨page, column, widget⟩ := s
  obtain ⟨hpages, hcolumns, hwidgets⟩ := h
  rw [clamp]
  simp only [bind_nearest_eq_self hpages]
  cases page with
  | none =>
      -- without a page no column is valid, and without a column no widget
      have hcolumn : column = none := by
        refine Option.eq_none_iff_forall_ne_some.2 fun c hc => ?_
        obtain ⟨_, hpage, -⟩ := hcolumns c hc
        cases hpage
      have hwidget : widget = none := by
        refine Option.eq_none_iff_forall_ne_some.2 fun w hw => ?_
        obtain ⟨_, hcolumn, -⟩ := hwidgets w hw
        cases hcolumn
      rw [hcolumn, hwidget]
      rfl
  | some p =>
      obtain ⟨page, hp⟩ := exists_getElem?_of_lt (hpages p rfl)
      have hinPage : ∀ c, column = some c → c < page.columns.length := by
        intro c hc
        obtain ⟨_, hpage, hlt⟩ := hcolumns c hc
        cases hp.symm.trans hpage
        exact hlt
      simp only [Option.bind_some, hp, bind_nearest_eq_self hinPage]
      cases column with
      | none =>
          have hwidget : widget = none := by
            refine Option.eq_none_iff_forall_ne_some.2 fun w hw => ?_
            obtain ⟨_, hcolumn, -⟩ := hwidgets w hw
            simp [column?] at hcolumn
          rw [hwidget]
          rfl
      | some c =>
          obtain ⟨q, hc⟩ := exists_getElem?_of_lt (hinPage c rfl)
          have hinColumn : ∀ w, widget = some w → w < q.widgets.length := by
            intro w hw
            obtain ⟨_, hcolumn, hlt⟩ := hwidgets w hw
            simp only [column?, page?, Option.bind_some, hp, hc, Option.some.injEq] at hcolumn
            exact hcolumn ▸ hlt
          simp only [Option.bind_some, hc, bind_nearest_eq_self hinColumn]

/-- Clamping a second time changes nothing. -/
theorem clamp_clamp (s : Selection) (d : Document) : (s.clamp d).clamp d = s.clamp d :=
  clamp_eq_self (valid_clamp s d)

/-- Nothing comes to be selected at a level where nothing was. -/
theorem place?_clamp
    (level : Level)
    (h : s.place? level = none) :
    (s.clamp d).place? level = none := by
  rw [clamp]
  cases hpage : (s.page.bind fun p => nearest p d.pages.length).bind fun p => d.pages[p]? with
  | none =>
      cases level with
      | page =>
          exact congrArg (fun place => place.bind fun p => nearest p d.pages.length) h
      | column | widget =>
          rfl
  | some page =>
      simp only
      split
      · cases level with
        | page =>
            exact congrArg (fun place => place.bind fun p => nearest p d.pages.length) h
        | column =>
            exact congrArg (fun place => place.bind fun c => nearest c page.columns.length) h
        | widget =>
            rfl
      · next column hcolumn =>
          cases level with
          | page =>
              exact congrArg (fun place => place.bind fun p => nearest p d.pages.length) h
          | column =>
              exact congrArg (fun place => place.bind fun c => nearest c page.columns.length) h
          | widget =>
              exact congrArg (fun place => place.bind fun w => nearest w column.widgets.length) h

end Dashboard.Selection
