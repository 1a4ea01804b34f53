import Dashboard.Editor.Dialog
import Dashboard.Proofs.Document.Reachable
import Dashboard.Proofs.Widget.Form

/-!
# Editors that can be reached

An editor starts with an empty document and goes on by its operations, with
whatever is answered to its prompts.  Each operation that is not refused is a
change of the document that only puts in widgets that were made by the
operations on widgets, so every document of an editor is reached.
-/

namespace Dashboard

/-! ## Widgets of forms -/

namespace WidgetForm

variable {w w' : Widget}

theorem reachable_of_addLine
    (h : w.Reachable)
    {number : Nat}
    {line : String}
    (hadd : addLine w number line = .ok w') :
    w'.Reachable := by
  rw [addLine] at hadd
  split at hadd
  · cases hadd
    exact h
  · split at hadd
    · cases hadd
    · split at hadd
      · cases hadd
      · exact .next h (.insertOption (Value.keysDistinct_ofFormText _) hadd)

theorem reachable_of_addLines
    (h : w.Reachable)
    {number : Nat}
    {ls : List String}
    (hadd : addLines w number ls = .ok w') :
    w'.Reachable := by
  induction ls generalizing w number with
  | nil =>
      cases hadd
      exact h
  | cons line ls ih =>
      rw [addLines, bind_eq_ok] at hadd
      obtain ⟨v, hline, hadd⟩ := hadd
      exact ih (reachable_of_addLine h hline) hadd

/-- A widget that a form describes is made by the operations on widgets. -/
theorem reachable_of_toWidget
    {f : WidgetForm}
    (h : f.toWidget = .ok w) :
    w.Reachable := by
  rw [toWidget, bind_eq_ok] at h
  obtain ⟨v, htype, hadd⟩ := h
  exact reachable_of_addLines (.next (.ofType htype) (.setTitle v _)) hadd

end WidgetForm

/-! ## Dialogs -/

section Dialogs

variable {σ α β : Type}

/-- A dialog applies what was accepted of one of the answers. -/
theorem Prompt.exists_of_askUntilValid
    {p : Prompt σ α}
    {accept : α → Except Error β}
    {shown : α}
    {reason : Option Error}
    {s : σ}
    {b : β}
    (h : (p.askUntilValid accept shown reason s).1 = .ok (.applied b)) :
    ∃ a, accept a = .ok b := by
  fun_induction askUntilValid p accept shown reason s with
  | case1 shown reason s s' hask =>
      cases h
  | case2 shown reason s a s' hask b' hb =>
      cases h
      exact ⟨a, hb⟩
  | case3 shown reason s a s' hask e he hinput ih =>
      exact ih h
  | case4 shown reason s a s' hask e he hinput =>
      cases h

namespace Editor

variable {ed ed' : Editor}

/-- A dialog of the editor takes over the document of an accepted change. -/
theorem exists_of_dialog
    {p : Prompt σ α}
    {accept : α → Except Error (Change β)}
    {initial : α}
    {s s' : σ}
    {b : β}
    (h : ed.dialog p accept initial s = (.ok (.applied (b, ed')), s')) :
    ∃ a c, accept a = .ok c ∧ ed'.document = c.document := by
  rw [dialog] at h
  split at h
  · next c t hask =>
      obtain ⟨a, ha⟩ := Prompt.exists_of_askUntilValid (congrArg Prod.fst hask)
      cases h
      exact ⟨a, c, ha, rfl⟩
  · cases h
  · cases h

/-- An operation without questions takes over the document of its change. -/
theorem exists_of_adopt
    {change : Except Error β}
    {f : β → Change α}
    {a : α}
    (h : (ed.adopt (change.map f)).result = .ok (a, ed')) :
    ∃ b, change = .ok b ∧ ed'.document = (f b).document := by
  cases change with
  | error e =>
      cases h
  | ok b =>
      cases h
      exact ⟨b, rfl, rfl⟩

end Editor

end Dialogs

/-! ## Operations -/

namespace Editor

/-- One operation of the editor that was carried out.  Saving gives files and
leaves the editor as it is. -/
inductive Step : Editor → Editor → Prop where
  | deletePage
      {ed ed' : Editor}
      {p : Nat}
      {page : Page}
      (done : (ed.deletePage p).result = .ok (page, ed')) :
      Step ed ed'
  | deleteColumn
      {ed ed' : Editor}
      {p c : Nat}
      {column : Column}
      (done : (ed.deleteColumn p c).result = .ok (column, ed')) :
      Step ed ed'
  | deleteWidget
      {ed ed' : Editor}
      {p c i : Nat}
      {w : Widget}
      (done : (ed.deleteWidget p c i).result = .ok (w, ed')) :
      Step ed ed'
  | insertOption
      {ed ed' : Editor}
      {p c i : Nat}
      {path : Path}
      {v : Value}
      (keys_distinct : v.KeysDistinct)
      (done : (ed.insertOption p c i path v).result = .ok ((), ed')) :
      Step ed ed'
  | setOption
      {ed ed' : Editor}
      {p c i : Nat}
      {path : Path}
      {v old : Value}
      (keys_distinct : v.KeysDistinct)
      (done : (ed.setOption p c i path v).result = .ok (old, ed')) :
      Step ed ed'
  | deleteOption
      {ed ed' : Editor}
      {p c i : Nat}
      {path : Path}
      {old : Value}
      (done : (ed.deleteOption p c i path).result = .ok (old, ed')) :
      Step ed ed'
  | insertTemplate
      {ed ed' : Editor}
      {name : String}
      {count : Nat}
      (done : (ed.insertTemplate name).result = .ok (count, ed')) :
      Step ed ed'
  | loadText
      {ed ed' : Editor}
      {text : String}
      (done : (ed.loadText text).result = .ok ((), ed')) :
      Step ed ed'
  | load
      {ed ed' : Editor}
      {fs : Files}
      {path : String}
      (done : (ed.load fs path).result = .ok ((), ed')) :
      Step ed ed'
  | addPage
      {ed ed' : Editor}
      {place : Nat}
      {σ : Type}
      {prompt : Prompt σ String}
      {s s' : σ}
      (done : ed.addPage prompt s = (.ok (.applied (place, ed')), s')) :
      Step ed ed'
  | renamePage
      {ed ed' : Editor}
      {p : Nat}
      {σ : Type}
      {prompt : Prompt σ String}
      {s s' : σ}
      (done : ed.renamePage p prompt s = (.ok (.applied ((), ed')), s')) :
      Step ed ed'
  | addColumn
      {ed ed' : Editor}
      {p place : Nat}
      {σ : Type}
      {prompt : Prompt σ String}
      {s s' : σ}
      (done : ed.addColumn p prompt s = (.ok (.applied (place, ed')), s')) :
      Step ed ed'
  | editColumn
      {ed ed' : Editor}
      {p c : Nat}
      {σ : Type}
      {prompt : Prompt σ String}
      {s s' : σ}
      (done : ed.editColumn p c prompt s = (.ok (.applied ((), ed')), s')) :
      Step ed ed'
  | addWidget
      {ed ed' : Editor}
      {p c place : Nat}
      {initial : WidgetForm}
      {σ : Type}
      {prompt : Prompt σ WidgetForm}
      {s s' : σ}
      (done : ed.addWidget p c initial prompt s = (.ok (.applied (place, ed')), s')) :
      Step ed ed'
  | editWidget
      {ed ed' : Editor}
      {p c i : Nat}
      {σ : Type}
      {prompt : Prompt σ WidgetForm}
      {s s' : σ}
      (done : ed.editWidget p c i prompt s = (.ok (.applied ((), ed')), s')) :
      Step ed ed'

/-- An editor that starts empty and goes on by operations. -/
inductive Reachable : Editor → Prop where
  | ofReference
      (reference : Reference) :
      Reachable (ofReference reference)
  | next
      {ed ed' : Editor}
      (reached : Reachable ed)
      (step : Step ed ed') :
      Reachable ed'

section Operations

variable {ed ed' : Editor}

/-- A text that is loaded takes the place of the document. -/
theorem parse_of_loadText
    {text : String}
    (h : (ed.loadText text).result = .ok ((), ed')) :
    Document.parse text = .ok ed'.document := by
  simp only [loadText] at h
  split at h
  · cases h
  · next d hparse =>
      cases h
      exact hparse

/-- A file that is loaded is loaded as its text. -/
theorem loadText_of_load
    {fs : Files}
    {path : String}
    (h : (ed.load fs path).result = .ok ((), ed')) :
    ∃ text, (ed.loadText text).result = .ok ((), ed') := by
  simp only [load] at h
  split at h
  · cases h
  · next text hread =>
      split at h
      · next ed₁ heard hload =>
          cases h
          exact ⟨text, congrArg Act.result hload⟩
      · exact ⟨text, h⟩

/-- The pages of a template are the pages of its text. -/
theorem appendPages_of_insertTemplate
    {name : String}
    {count : Nat}
    (h : (ed.insertTemplate name).result = .ok (count, ed')) :
    ∃ text more, Document.parse text = .ok more ∧
      ed.document.appendPages more = (count, ed'.document) := by
  simp only [insertTemplate] at h
  split at h
  · cases h
  · next t ht =>
      split at h
      · cases h
      · next more hmore =>
          refine ⟨t.yaml, more, ?_, ?_⟩
          · rw [templateDocument] at hmore
            split at hmore
            · cases hmore
            · cases hmore
            · exact hmore
          · cases h
            rfl

/-- An operation of the editor is a change of its document. -/
theorem Step.reachable
    (hstep : Step ed ed')
    (h : ed.document.Reachable) :
    ed'.document.Reachable := by
  have hnone : ∀ w ∈ ([] : List Widget), w.Reachable := List.forall_mem_nil _
  cases hstep with
  | deletePage done =>
      obtain ⟨_, change, hdocument⟩ := exists_of_adopt done
      rw [hdocument]
      exact h.next hnone (.deletePage change)
  | deleteColumn done =>
      obtain ⟨_, change, hdocument⟩ := exists_of_adopt done
      rw [hdocument]
      exact h.next hnone (.deleteColumn change)
  | deleteWidget done =>
      obtain ⟨_, change, hdocument⟩ := exists_of_adopt done
      rw [hdocument]
      exact h.next hnone (.deleteWidget change)
  | insertOption keys_distinct done =>
      obtain ⟨_, change, hdocument⟩ := exists_of_adopt done
      rw [hdocument]
      refine h.next hnone (.changeWidget (fun w _ w' halter => ?_) change)
      obtain ⟨v, hinsert, hpair⟩ := map_eq_ok.1 halter
      cases hpair
      exact .insertOption keys_distinct hinsert
  | setOption keys_distinct done =>
      obtain ⟨_, change, hdocument⟩ := exists_of_adopt done
      rw [hdocument]
      exact h.next hnone (.changeWidget (fun _ _ _ halter => .setOption keys_distinct halter) change)
  | deleteOption done =>
      obtain ⟨_, change, hdocument⟩ := exists_of_adopt done
      rw [hdocument]
      exact h.next hnone (.changeWidget (fun _ _ _ halter => .deleteOption halter) change)
  | insertTemplate done =>
      obtain ⟨text, more, hparse, change⟩ := appendPages_of_insertTemplate done
      exact h.next hnone (.appendPages hparse change)
  | loadText done =>
      exact .parse (parse_of_loadText done)
  | load done =>
      obtain ⟨text, htext⟩ := loadText_of_load done
      exact .parse (parse_of_loadText htext)
  | addPage done =>
      obtain ⟨name, c, haccept, hdocument⟩ := exists_of_dialog done
      obtain ⟨_, change, rfl⟩ := map_eq_ok.1 haccept
      rw [hdocument]
      exact h.next hnone (.addPage change)
  | renamePage done =>
      rw [Editor.renamePage] at done
      split at done
      · cases done
      · obtain ⟨name, c, haccept, hdocument⟩ := exists_of_dialog done
        obtain ⟨_, change, rfl⟩ := map_eq_ok.1 haccept
        rw [hdocument]
        exact h.next hnone (.renamePage change)
  | addColumn done =>
      rw [Editor.addColumn] at done
      split at done
      · cases done
      · obtain ⟨text, c, haccept, hdocument⟩ := exists_of_dialog done
        simp only [acceptColumn, bind_eq_ok, pure_eq_ok] at haccept
        obtain ⟨size, -, _, change, rfl⟩ := haccept
        rw [hdocument]
        exact h.next hnone (.addColumn change)
  | editColumn done =>
      rw [Editor.editColumn] at done
      split at done
      · cases done
      · obtain ⟨text, c, haccept, hdocument⟩ := exists_of_dialog done
        simp only [acceptSize, bind_eq_ok, pure_eq_ok] at haccept
        obtain ⟨size, -, _, change, rfl⟩ := haccept
        rw [hdocument]
        exact h.next hnone (.editColumn change)
  | addWidget done =>
      rw [Editor.addWidget] at done
      split at done
      · cases done
      · obtain ⟨form, c, haccept, hdocument⟩ := exists_of_dialog done
        simp only [acceptWidget, bind_eq_ok, pure_eq_ok] at haccept
        obtain ⟨w, hform, _, change, rfl⟩ := haccept
        have hw : ∀ v ∈ [w], v.Reachable :=
          List.forall_mem_singleton.2 (WidgetForm.reachable_of_toWidget hform)
        rw [hdocument]
        exact h.next hw (.addWidget change)
  | editWidget done =>
      rw [Editor.editWidget] at done
      split at done
      · cases done
      · obtain ⟨form, c, haccept, hdocument⟩ := exists_of_dialog done
        simp only [acceptReplacement, bind_eq_ok, pure_eq_ok] at haccept
        obtain ⟨w, hform, _, change, rfl⟩ := haccept
        have hw : ∀ v ∈ [w], v.Reachable :=
          List.forall_mem_singleton.2 (WidgetForm.reachable_of_toWidget hform)
        rw [hdocument]
        exact h.next hw (.replaceWidget change)

/-- The document of an editor that was reached is reached. -/
theorem Reachable.document
    (h : ed.Reachable) :
    ed.document.Reachable := by
  induction h with
  | ofReference reference =>
      exact .empty
  | next _ step ih =>
      exact step.reachable ih

/-- A widget that is shown in its form and submitted as it is stays as it was. -/
theorem toWidget_ofWidget_of_reachable
    (h : ed.Reachable)
    {p c i : Nat}
    {w : Widget}
    (hw : ed.document.widget p c i = .ok w)
    (hdepth : ∀ e ∈ w.options, e.2.depth ≤ Yaml.Node.maxDepth)
    (hkeys : ∀ e ∈ w.options, e.2.AllKeys Render.IsShortFlowKey) :
    (WidgetForm.ofWidget w).toWidget = .ok w :=
  WidgetForm.toWidget_ofWidget (h.document.sound.widget hw) hdepth hkeys

/-- A clock with a key that needs quotes in a form, and a list with an empty
key in it. -/
def paddedClock : Widget where
  type := "clock"
  options := [(" a=\"b\"\\", .seq [.int 1, .map [("", .str "x")]])]

/-- A page with the clock. -/
def paddedDocument : Document where
  pages := [{ name := "Home", columns := [{ size := .full, widgets := [paddedClock] }] }]

/-- A file with the page. -/
def paddedText : String :=
  "pages: [\x7bname: Home, columns: [\x7bsize: full, widgets: " ++
    "[\x7btype: clock, ' a=\"b\"\\': [1, \x7b'': x\x7d]\x7d]\x7d]\x7d]"

theorem loadText_paddedText :
    ((ofReference {}).loadText paddedText).result =
      .ok ((), (ofReference {}).withDocument paddedDocument) := by
  have hread : Value.ofYaml? paddedText = some (.map [("pages", .seq [.map [
      ("name", .str "Home"), ("columns", .seq [.map [
        ("size", .str "full"), ("widgets", .seq [paddedClock.toValue])]])]])]) := by
    decide +kernel
  have hparse : Document.parse paddedText = .ok paddedDocument :=
    (Document.parse_eq_of_ofYaml? hread).trans rfl
  simp only [loadText, hparse]

/-- The clock comes back from its form in an editor that loaded the file. -/
theorem toWidget_ofWidget_paddedClock :
    ∃ ed : Editor, ed.Reachable ∧ ed.document.widget 0 0 0 = .ok paddedClock ∧
      (∀ e ∈ paddedClock.options, e.2.depth ≤ Yaml.Node.maxDepth) ∧
      (∀ e ∈ paddedClock.options, e.2.AllKeys Render.IsShortFlowKey) ∧
      (WidgetForm.ofWidget paddedClock).toWidget = .ok paddedClock := by
  have hreached := Reachable.next (.ofReference {}) (.loadText loadText_paddedText)
  have hwidget : paddedDocument.widget 0 0 0 = .ok paddedClock := rfl
  have hdepth : ∀ e ∈ paddedClock.options, e.2.depth ≤ Yaml.Node.maxDepth := by
    decide
  have hkeys : ∀ e ∈ paddedClock.options, e.2.AllKeys Render.IsShortFlowKey := by
    decide +kernel
  exact ⟨_, hreached, hwidget, hdepth, hkeys,
    toWidget_ofWidget_of_reachable hreached hwidget hdepth hkeys⟩

end Operations

end Editor

end Dashboard
