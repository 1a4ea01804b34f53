import Dashboard.Document.Edit
import Dashboard.Proofs.Document.Loaded
import Dashboard.Proofs.Widget.Options

/-!
# Documents that can be reached

A document is reached from the empty one or from a text by changes of pages,
columns, widgets and options, and by pages of other texts.  Every widget that
is put into it was made by the operations on widgets.  A document that is
reached is sound: each kind of change keeps documents sound, and so does every
sequence of changes.

The values that are put into options have no repeated keys, as every mapping
in memory.
-/

namespace Dashboard

/-! ## Changes at places -/

section Places

variable {α β : Type}
variable {level : Level}
variable {xs ys : List α}
variable {i : Nat}

theorem mem_of_elementAt
    {x : α}
    (h : elementAt level xs i = .ok x) :
    x ∈ xs := by
  rw [elementAt] at h
  split at h
  · next y hy =>
      cases h
      exact List.mem_of_getElem? hy
  · cases h

/-- After a change at a place every element was there or was changed. -/
theorem mem_of_changeAt
    {change : α → Except Error (β × α)}
    {b : β}
    (h : changeAt level xs i change = .ok (b, ys)) :
    ∀ y ∈ ys, y ∈ xs ∨ ∃ x ∈ xs, change x = .ok (b, y) := by
  simp only [changeAt, bind_eq_ok, pure_eq_ok] at h
  obtain ⟨x, hx, ⟨b', x'⟩, hchange, hpair⟩ := h
  cases hpair
  intro y hy
  rcases List.mem_or_eq_of_mem_set hy with hy | rfl
  · exact .inl hy
  · exact .inr ⟨x, mem_of_elementAt hx, hchange⟩

theorem mem_of_removeAt
    {x : α}
    (h : removeAt level xs i = .ok (x, ys)) :
    ∀ y ∈ ys, y ∈ xs := by
  simp only [removeAt, bind_eq_ok, pure_eq_ok] at h
  obtain ⟨x', -, hpair⟩ := h
  cases hpair
  exact fun y hy => (List.eraseIdx_sublist xs i).subset hy

end Places

namespace Document

/-! ## Changes inside a document -/

section Changes

variable {β : Type}
variable {d d' : Document}
variable {p c i : Nat}
variable {b : β}

theorem Sound.changePage
    (h : d.Sound)
    {change : Page → Except Error (β × Page)}
    (hchange : ∀ page b page', page.Sound → change page = .ok (b, page') → page'.Sound)
    (heq : d.changePage p change = .ok (b, d')) :
    d'.Sound := by
  simp only [Document.changePage, bind_eq_ok, pure_eq_ok] at heq
  obtain ⟨⟨b', pages⟩, hpages, hpair⟩ := heq
  cases hpair
  refine { h with pages := fun page hpage => ?_ }
  rcases mem_of_changeAt hpages page hpage with hpage | ⟨old, hold, heq⟩
  · exact h.pages page hpage
  · exact hchange old _ page (h.pages old hold) heq

theorem Sound.changeColumns
    (h : d.Sound)
    {change : List Column → Except Error (β × List Column)}
    (hchange : ∀ cs b cs', (∀ c ∈ cs, c.Sound) → change cs = .ok (b, cs') → ∀ c ∈ cs', c.Sound)
    (heq : d.changeColumns p change = .ok (b, d')) :
    d'.Sound := by
  refine h.changePage (fun page b' page' hpage hstep => ?_) heq
  simp only [bind_eq_ok, pure_eq_ok] at hstep
  obtain ⟨⟨b'', columns⟩, hcolumns, hpair⟩ := hstep
  cases hpair
  exact { hpage with columns := hchange _ _ _ hpage.columns hcolumns }

theorem Sound.changeColumn
    (h : d.Sound)
    {change : Column → Except Error (β × Column)}
    (hchange : ∀ c b c', c.Sound → change c = .ok (b, c') → c'.Sound)
    (heq : d.changeColumn p c change = .ok (b, d')) :
    d'.Sound := by
  refine h.changeColumns (fun cs b' cs' hcs hstep c hc => ?_) heq
  rcases mem_of_changeAt hstep c hc with hc | ⟨old, hold, heq⟩
  · exact hcs c hc
  · exact hchange old _ c (hcs old hold) heq

theorem Sound.changeWidgets
    (h : d.Sound)
    {change : List Widget → Except Error (β × List Widget)}
    (hchange : ∀ ws b ws', (∀ w ∈ ws, w.Sound) → change ws = .ok (b, ws') → ∀ w ∈ ws', w.Sound)
    (heq : d.changeWidgets p c change = .ok (b, d')) :
    d'.Sound := by
  refine h.changeColumn (fun column b' column' hcolumn hstep => ?_) heq
  simp only [bind_eq_ok, pure_eq_ok] at hstep
  obtain ⟨⟨b'', widgets⟩, hwidgets, hpair⟩ := hstep
  cases hpair
  exact { hcolumn with widgets := hchange _ _ _ hcolumn.widgets hwidgets }

theorem Sound.changeWidget
    (h : d.Sound)
    {change : Widget → Except Error (β × Widget)}
    (hchange : ∀ w b w', w.Sound → change w = .ok (b, w') → w'.Sound)
    (heq : d.changeWidget p c i change = .ok (b, d')) :
    d'.Sound := by
  refine h.changeWidgets (fun ws b' ws' hws hstep w hw => ?_) heq
  rcases mem_of_changeAt hstep w hw with hw | ⟨old, hold, heq⟩
  · exact hws w hw
  · exact hchange old _ w (hws old hold) heq

/-- The widgets of a sound document are sound. -/
theorem Sound.widget
    (h : d.Sound)
    {w : Widget}
    (heq : d.widget p c i = .ok w) :
    w.Sound := by
  simp only [Document.widget, Document.column, Document.page, bind_eq_ok] at heq
  obtain ⟨column, ⟨page, hpage, hcolumn⟩, hwidget⟩ := heq
  exact ((h.pages page (mem_of_elementAt hpage)).columns column
    (mem_of_elementAt hcolumn)).widgets w (mem_of_elementAt hwidget)

end Changes

end Document

/-! ## Changes of widgets -/

/-- One change of a widget. -/
inductive Widget.Step : Widget → Widget → Prop where
  | setTitle
      (w : Widget)
      (title : Option String) :
      Step w (w.setTitle title)
  | insertOption
      {w w' : Widget}
      {p : Path}
      {v : Value}
      (keys_distinct : v.KeysDistinct)
      (change : w.insertOption p v = .ok w') :
      Step w w'
  | setOption
      {w w' : Widget}
      {p : Path}
      {v old : Value}
      (keys_distinct : v.KeysDistinct)
      (change : w.setOption p v = .ok (old, w')) :
      Step w w'
  | deleteOption
      {w w' : Widget}
      {p : Path}
      {old : Value}
      (change : w.deleteOption p = .ok (old, w')) :
      Step w w'

/-- A change of a widget keeps it sound. -/
theorem Widget.Sound.step
    {w w' : Widget}
    (h : w.Sound)
    (hstep : Widget.Step w w') :
    w'.Sound := by
  cases hstep with
  | setTitle title =>
      exact h.setTitle title
  | insertOption keys_distinct change =>
      exact h.insertOption keys_distinct change
  | setOption keys_distinct change =>
      exact h.setOption keys_distinct change
  | deleteOption change =>
      exact h.deleteOption change

/-! ## Changes of documents -/

namespace Document

/-- One change of a document, and the widgets that it puts in. -/
inductive Step : List Widget → Document → Document → Prop where
  | addPage
      {d d' : Document}
      {name : String}
      {place : Nat}
      (change : d.addPage name = .ok (place, d')) :
      Step [] d d'
  | renamePage
      {d d' : Document}
      {p : Nat}
      {name old : String}
      (change : d.renamePage p name = .ok (old, d')) :
      Step [] d d'
  | deletePage
      {d d' : Document}
      {p : Nat}
      {old : Page}
      (change : d.deletePage p = .ok (old, d')) :
      Step [] d d'
  | addColumn
      {d d' : Document}
      {p place : Nat}
      {size : ColumnSize}
      (change : d.addColumn p size = .ok (place, d')) :
      Step [] d d'
  | editColumn
      {d d' : Document}
      {p c : Nat}
      {size : ColumnSize}
      {old : Column}
      (change : d.editColumn p c size = .ok (old, d')) :
      Step [] d d'
  | deleteColumn
      {d d' : Document}
      {p c : Nat}
      {old : Column}
      (change : d.deleteColumn p c = .ok (old, d')) :
      Step [] d d'
  | addWidget
      {d d' : Document}
      {p c place : Nat}
      {w : Widget}
      (change : d.addWidget p c w = .ok (place, d')) :
      Step [w] d d'
  | replaceWidget
      {d d' : Document}
      {p c i : Nat}
      {w old : Widget}
      (change : d.replaceWidget p c i w = .ok (old, d')) :
      Step [w] d d'
  | deleteWidget
      {d d' : Document}
      {p c i : Nat}
      {old : Widget}
      (change : d.deleteWidget p c i = .ok (old, d')) :
      Step [] d d'
  | changeWidget
      {d d' : Document}
      {p c i : Nat}
      {β : Type}
      {alter : Widget → Except Error (β × Widget)}
      {b : β}
      (alters : ∀ w b w', alter w = .ok (b, w') → Widget.Step w w')
      (change : d.changeWidget p c i alter = .ok (b, d')) :
      Step [] d d'
  | appendPages
      {d d' more : Document}
      {text : String}
      {count : Nat}
      (parsed : Document.parse text = .ok more)
      (change : d.appendPages more = (count, d')) :
      Step [] d d'

/-- A change of a document keeps it sound if the widgets it puts in are sound. -/
theorem Sound.step
    {ws : List Widget}
    {d d' : Document}
    (h : d.Sound)
    (hws : ∀ w ∈ ws, w.Sound)
    (hstep : Step ws d d') :
    d'.Sound := by
  cases hstep with
  | addPage change =>
      simp only [Document.addPage, bind_eq_ok, pure_eq_ok] at change
      obtain ⟨name, -, hpair⟩ := change
      cases hpair
      refine { h with pages := fun p hp => ?_ }
      rcases List.mem_append.1 hp with hp | hp
      · exact h.pages p hp
      · rw [List.mem_singleton.1 hp]
        exact Page.sound_of_name name
  | renamePage change =>
      simp only [Document.renamePage, bind_eq_ok] at change
      obtain ⟨name, -, change⟩ := change
      refine h.changePage (fun page old page' hpage heq => ?_) change
      cases heq
      exact { hpage with }
  | deletePage change =>
      simp only [Document.deletePage, bind_eq_ok, pure_eq_ok] at change
      obtain ⟨⟨old, pages⟩, hpages, hpair⟩ := change
      cases hpair
      exact { h with pages := fun p hp => h.pages p (mem_of_removeAt hpages p hp) }
  | addColumn change =>
      refine h.changeColumns (fun cs place cs' hcs heq c hc => ?_) change
      cases heq
      rcases List.mem_append.1 hc with hc | hc
      · exact hcs c hc
      · rw [List.mem_singleton.1 hc]
        exact Column.sound_of_size _
  | editColumn change =>
      refine h.changeColumn (fun c old c' _ heq => ?_) change
      cases heq
      exact Column.sound_of_size _
  | deleteColumn change =>
      exact h.changeColumns (fun cs old cs' hcs heq c hc => hcs c (mem_of_removeAt heq c hc)) change
  | addWidget change =>
      refine h.changeWidgets (fun ws place ws' hws' heq w hw => ?_) change
      cases heq
      rcases List.mem_append.1 hw with hw | hw
      · exact hws' w hw
      · exact hws w hw
  | replaceWidget change =>
      refine h.changeWidget (fun w old w' _ heq => ?_) change
      cases heq
      exact hws _ List.mem_cons_self
  | deleteWidget change =>
      exact h.changeWidgets (fun ws old ws' hws' heq w hw => hws' w (mem_of_removeAt heq w hw))
        change
  | changeWidget alters change =>
      exact h.changeWidget (fun w b w' hw heq => hw.step (alters w b w' heq)) change
  | appendPages parsed change =>
      cases change
      refine { h with pages := fun p hp => ?_ }
      rcases List.mem_append.1 hp with hp | hp
      · exact h.pages p hp
      · exact (sound_parse parsed).pages p hp

end Document

/-! ## What can be reached -/

mutual

/-- A widget that is made by changes of a new one, or taken from a document. -/
inductive Widget.Reachable : Widget → Prop where
  | ofType
      {type : String}
      {w : Widget}
      (made : Widget.ofType type = .ok w) :
      Widget.Reachable w
  | ofDocument
      {d : Document}
      {p c i : Nat}
      {w : Widget}
      (reached : Document.Reachable d)
      (taken : d.widget p c i = .ok w) :
      Widget.Reachable w
  | next
      {w w' : Widget}
      (reached : Widget.Reachable w)
      (step : Widget.Step w w') :
      Widget.Reachable w'

/-- A document that is made by changes of the empty one or of a text, with
widgets that are reached. -/
inductive Document.Reachable : Document → Prop where
  | empty :
      Document.Reachable {}
  | parse
      {text : String}
      {d : Document}
      (parsed : Document.parse text = .ok d) :
      Document.Reachable d
  | next
      {ws : List Widget}
      {d d' : Document}
      (reached : Document.Reachable d)
      (widgets : ∀ w ∈ ws, Widget.Reachable w)
      (step : Document.Step ws d d') :
      Document.Reachable d'

end

mutual

/-- A widget that is reached is sound. -/
theorem Widget.Reachable.sound
    {w : Widget}
    (h : w.Reachable) :
    w.Sound := by
  match h with
  | .ofType made =>
      exact Widget.sound_ofType made
  | .ofDocument reached taken =>
      exact reached.sound.widget taken
  | .next reached step =>
      exact reached.sound.step step

/-- A document that is reached is sound. -/
theorem Document.Reachable.sound
    {d : Document}
    (h : d.Reachable) :
    d.Sound := by
  match h with
  | .empty =>
      exact Document.sound_empty
  | .parse parsed =>
      exact Document.sound_parse parsed
  | .next reached widgets step =>
      exact reached.sound.step (fun w hw => (widgets w hw).sound) step

end

end Dashboard
