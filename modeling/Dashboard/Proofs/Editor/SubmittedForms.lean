import Dashboard.Proofs.Editor.Reachable

/-!
# Forms that are submitted as they are shown

The form of a widget is always accepted when it is submitted as it is shown.  The
widget stays as it was as long as each of its options is within the limits of a
reader.  An option beyond them, with a container that is nested too deep or a
key that is too long, silently becomes the text that was shown of it.
-/

namespace Dashboard.Editor

variable {ed : Editor}

/-- A widget whose form is submitted as it is shown gets its options as they are
read from there, and it stays as it was if and only if all of them are within
the limits of a reader. -/
theorem toWidget_ofWidget_eq_self_iff
    (h : ed.Reachable)
    {p c i : Nat}
    {w : Widget}
    (hw : ed.document.widget p c i = .ok w) :
    (WidgetForm.ofWidget w).toWidget =
        .ok { w with options := w.options.map fun e => (e.1, e.2.reread) } ∧
      ((WidgetForm.ofWidget w).toWidget = .ok w ↔ ∀ e ∈ w.options, Render.IsReadable e.2) := by
  have hread := WidgetForm.toWidget_ofWidget_eq (h.document.sound.widget hw)
  refine ⟨hread, ?_⟩
  rw [hread, ← WidgetForm.rereadOptions_eq_self_iff]
  constructor
  · intro hsame
    exact congrArg Widget.options (Except.ok.inj hsame)
  · intro hsame
    rw [hsame]

/-- The clock with an awkward key comes back from its form. -/
theorem toWidget_ofWidget_eq_self_iff_paddedClock :
    ∃ ed : Editor, ed.Reachable ∧ ed.document.widget 0 0 0 = .ok paddedClock ∧
      (WidgetForm.ofWidget paddedClock).toWidget =
        .ok { paddedClock with options := paddedClock.options.map fun e => (e.1, e.2.reread) } ∧
      ((WidgetForm.ofWidget paddedClock).toWidget = .ok paddedClock ↔
        ∀ e ∈ paddedClock.options, Render.IsReadable e.2) := by
  have hreached := Reachable.next (.ofReference {}) (.loadText loadText_paddedText)
  have hwidget : paddedDocument.widget 0 0 0 = .ok paddedClock := rfl
  exact ⟨_, hreached, hwidget, toWidget_ofWidget_eq_self_iff hreached hwidget⟩

/-! ## A list that is nested too deep -/

/-- A list around `n` others, one inside the other. -/
def nestedList : Nat → Value
  | 0 => .seq []
  | n + 1 => .seq [nestedList n]

theorem depth_nestedList
    (n : Nat) :
    (nestedList n).depth = n + 1 := by
  induction n with
  | zero =>
      rfl
  | succ n ih =>
      simp [nestedList, Value.depth, Value.depthItems, ih]

theorem keysDistinct_nestedList
    (n : Nat) :
    (nestedList n).KeysDistinct := by
  induction n with
  | zero =>
      trivial
  | succ n ih =>
      exact ⟨ih, trivial⟩

/-- The clock with one more option, a list of 129 levels. -/
def nestedClock : Widget :=
  { paddedClock with options := paddedClock.options ++ [("a", nestedList 128)] }

/-- The page with that clock. -/
def nestedDocument : Document where
  pages := [{ name := "Home", columns := [{ size := .full, widgets := [nestedClock] }] }]

theorem insertOption_nestedList :
    (((ofReference {}).withDocument paddedDocument).insertOption 0 0 0 [.key "a"]
        (nestedList 128)).result =
      .ok ((), (ofReference {}).withDocument nestedDocument) :=
  rfl

/-- The clock whose option has 129 levels comes back with a text in its place. -/
theorem not_toWidget_ofWidget_eq_self :
    ∃ ed : Editor, ed.Reachable ∧ ed.document.widget 0 0 0 = .ok nestedClock ∧
      ∃ w, (WidgetForm.ofWidget nestedClock).toWidget = .ok w ∧ w ≠ nestedClock ∧
        Entries.get? w.options "a" =
          some (.str (String.ofList (Render.inline (nestedList 128)))) := by
  have hloaded := Reachable.next (.ofReference {}) (.loadText loadText_paddedText)
  have hreached := Reachable.next hloaded
    (.insertOption (keysDistinct_nestedList 128) insertOption_nestedList)
  have hwidget : nestedDocument.widget 0 0 0 = .ok nestedClock := rfl
  have hdeep : ¬Render.IsReadable (nestedList 128) := by
    intro hreadable
    have hdepth := hreadable.depth
    rw [depth_nestedList] at hdepth
    exact absurd hdepth (by decide)
  have hread := WidgetForm.toWidget_ofWidget_eq (hreached.document.sound.widget hwidget)
  refine ⟨_, hreached, hwidget, _, hread, fun hsame => ?_, ?_⟩
  · have hall := WidgetForm.rereadOptions_eq_self_iff.1 (congrArg Widget.options hsame)
    exact hdeep (hall ("a", nestedList 128) (by simp [nestedClock]))
  · have hother : (" a=\"b\"\\" = "a") = False := by
      decide
    simp [nestedClock, paddedClock, WidgetForm.rereadOptions, Entries.get?, hother, Value.reread,
      hdeep]

end Dashboard.Editor
