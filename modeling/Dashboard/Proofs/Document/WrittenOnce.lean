import Dashboard.Proofs.Editor.Reachable

/-!
# Everything is written once

Documents are changed by the operations on documents, widgets and options, by
the dialogs, and by texts that are loaded or inserted.  However a document was
reached, no level keeps an entry of its own under a name that the level itself
writes.  So the value of a widget, a column, a page or the document has one
entry for each field, property and option, and none takes the place of another.
-/

namespace Dashboard

/-- A value is the mapping of these entries, each under a name of its own. -/
def Value.Shows (v : Value) (entries : Mapping) : Prop :=
  v = .map entries ∧ Entries.Distinct entries

theorem Value.shows_of_keysDistinct
    {v : Value}
    {entries : Mapping}
    (heq : v = .map entries)
    (hkeys : v.KeysDistinct) :
    v.Shows entries := by
  rw [heq, Value.keysDistinct_map] at hkeys
  exact ⟨heq, hkeys.1⟩

/-- A widget writes its fields and its options. -/
theorem Widget.Sound.shows
    {w : Widget}
    (h : w.Sound) :
    w.toValue.Shows (w.fields ++ w.options) :=
  Value.shows_of_keysDistinct h.toValue_eq h.keysDistinct_toValue

/-- A column writes its size, its properties and its widgets. -/
theorem Column.Sound.shows
    {c : Column}
    (h : c.Sound) :
    c.toValue.Shows (levelEntries "size" (.str c.size.word) c.properties "widgets"
      (c.widgets.map Widget.toValue)) :=
  Value.shows_of_keysDistinct h.toValue_eq h.keysDistinct_toValue

/-- A page writes its name, its properties and its columns. -/
theorem Page.Sound.shows
    {p : Page}
    (h : p.Sound) :
    p.toValue.Shows (levelEntries "name" (.str p.name) p.properties "columns"
      (p.columns.map Column.toValue)) :=
  Value.shows_of_keysDistinct h.toValue_eq h.keysDistinct_toValue

namespace Document

variable {d : Document}

/-- A document writes its settings and its pages. -/
theorem Sound.shows (h : d.Sound) :
    d.toValue.Shows (d.settings ++ [("pages", .seq (d.pages.map Page.toValue))]) :=
  Value.shows_of_keysDistinct h.toValue_eq h.keysDistinct_toValue

/-- A document that is reached by its own operations or by those of an editor is
sound: no level uses the names of its fields, types and titles are trimmed and
not blank, and no mapping in it repeats a key.  Each level writes each of its
entries once. -/
theorem sound_and_written_once
    (h : d.Reachable ∨ ∃ ed : Editor, ed.Reachable ∧ ed.document = d) :
    d.Sound ∧ d.toValue.KeysDistinct ∧
      d.toValue.Shows (d.settings ++ [("pages", .seq (d.pages.map Page.toValue))]) ∧
      ∀ page ∈ d.pages,
        page.toValue.Shows (levelEntries "name" (.str page.name) page.properties "columns"
          (page.columns.map Column.toValue)) ∧
        ∀ column ∈ page.columns,
          column.toValue.Shows (levelEntries "size" (.str column.size.word) column.properties
            "widgets" (column.widgets.map Widget.toValue)) ∧
          ∀ w ∈ column.widgets, w.toValue.Shows (w.fields ++ w.options) := by
  have hsound : d.Sound := by
    rcases h with h | ⟨ed, h, rfl⟩
    · exact h.sound
    · exact h.document.sound
  refine ⟨hsound, hsound.keysDistinct_toValue, hsound.shows, fun page hpage => ?_⟩
  have hpage := hsound.pages page hpage
  refine ⟨hpage.shows, fun column hcolumn => ?_⟩
  have hcolumn := hpage.columns column hcolumn
  exact ⟨hcolumn.shows, fun w hw => (hcolumn.widgets w hw).shows⟩

/-- A clock with an option that was inserted behind the one that was loaded. -/
def formattedClock : Widget :=
  { Editor.paddedClock with options := Editor.paddedClock.options ++ [("format", .str "24h")] }

/-- A page with the clock. -/
def formattedDocument : Document where
  pages := [{ name := "Home", columns := [{ size := .full, widgets := [formattedClock] }] }]

/-- An editor that loads a page with a clock and inserts an option of it. -/
theorem sound_and_written_once_formattedDocument :
    (∃ ed : Editor, ed.Reachable ∧ ed.document = formattedDocument) ∧
      formattedDocument.Sound ∧ formattedClock.toValue.Shows (("type", .str "clock") ::
        Editor.paddedClock.options ++ [("format", .str "24h")]) := by
  have hloaded := Editor.Reachable.next (.ofReference {}) (.loadText Editor.loadText_paddedText)
  have hinsert : (((Editor.ofReference {}).withDocument Editor.paddedDocument).insertOption 0 0 0
      [.key "format"] (.str "24h")).result =
      .ok ((), (Editor.ofReference {}).withDocument formattedDocument) := rfl
  have hvalue : (Value.str "24h").KeysDistinct := trivial
  have hreached : ∃ ed : Editor, ed.Reachable ∧ ed.document = formattedDocument :=
    ⟨_, hloaded.next (.insertOption hvalue hinsert), rfl⟩
  obtain ⟨hsound, -, -, hpages⟩ := sound_and_written_once (.inr hreached)
  obtain ⟨-, hcolumns⟩ := hpages _ List.mem_cons_self
  obtain ⟨-, hwidgets⟩ := hcolumns _ List.mem_cons_self
  exact ⟨hreached, hsound, hwidgets _ List.mem_cons_self⟩

end Document

end Dashboard
