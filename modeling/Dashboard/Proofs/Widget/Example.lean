import Dashboard.Proofs.Widget.Form

/-!
# The form of an example

A documented example is a mapping.  The form that it suggests is read line by
line, and the loader reads the same mapping at once.  Both give the same widget
with one exception: a title of null is none to the loader, and the form shows
it as the word.
-/

namespace Dashboard

namespace Widget

variable {m : Mapping}
variable {w : Widget}

/-- What the loader makes of a title. -/
def loadedTitle (m : Mapping) : Option String :=
  match Entries.get? m "title" with
  | none | some .null => none
  | some v => v.scalarText?

/-- The fields of a widget that was read from a mapping. -/
theorem fields_ofMapping?
    (h : ofMapping? m = some w) :
    w.title = keptTitle (loadedTitle m) ∧
      w.options = Entries.erase (Entries.erase m "type") "title" := by
  have htitle : Entries.get? (Entries.erase m "type") "title" = Entries.get? m "title" :=
    Entries.get?_erase_of_ne m (by decide)
  simp only [ofMapping?] at h
  split at h
  · split at h
    · next bare _ =>
        cases h
        refine ⟨(setTitle_title bare _).trans (congrArg keptTitle ?_), rfl⟩
        rw [htitle]
        rfl
    · cases h
  · cases h

end Widget

namespace WidgetForm

variable {m : Mapping}
variable {w : Widget}

/-- A title that the form of an example suggests is the one of the loader, unless
it is null. -/
theorem keptTitle_exampleTitle_eq_iff :
    Widget.keptTitle (some (exampleTitle m)) = Widget.keptTitle (Widget.loadedTitle m) ↔
      Entries.get? m "title" ≠ some .null := by
  have hblank : Widget.keptTitle (some "") = Widget.keptTitle none := by
    decide +kernel
  have hnull : Widget.keptTitle (some "null") = some "null" := by
    decide +kernel
  rw [exampleTitle, Widget.loadedTitle]
  cases hget : Entries.get? m "title" with
  | none =>
      simpa using hblank
  | some v =>
      cases v with
      | null =>
          simp only [Value.scalarText?, Option.getD_some, hnull]
          simp [Widget.keptTitle]
      | seq vs | map es =>
          simpa [Value.scalarText?] using hblank
      | bool b =>
          cases b <;> simp [Value.scalarText?]
      | int n | float x | str s =>
          simp [Value.scalarText?]

/-- The form of an example is accepted, and gives the widget that the loader
reads from the same mapping if and only if the title is not null. -/
theorem toWidget_ofExample_eq_iff
    {type : String}
    (hkeys : (Value.map m).KeysDistinct)
    (hload : Widget.ofMapping? m = some w)
    (htype : Text.trim type = w.type)
    (hreadable : ∀ e ∈ w.options, Render.IsReadable e.2) :
    ∃ v, (ofExample type (.map m)).toWidget = .ok v ∧
      v.type = w.type ∧ v.options = w.options ∧
      (v = w ↔ Entries.get? m "title" ≠ some .null) := by
  have hsound := Widget.sound_ofMapping? hkeys hload
  obtain ⟨htitle, hoptions⟩ := Widget.fields_ofMapping? hload
  have hfilter : (m.filter fun e => e.1 != "type" && e.1 != "title") = w.options := by
    rw [hoptions, Entries.erase_erase_eq_filter (Value.keysDistinct_map.1 hkeys).1]
    refine List.filter_congr fun e _ => ?_
    simp [Bool.beq_eq_decide_eq, bne]
  have hne : Text.trim type ≠ "" := by
    rw [htype]
    exact hsound.type_kept.2
  have hread : (ofExample type (.map m)).toWidget =
      .ok ⟨w.type, Widget.keptTitle (some (exampleTitle m)), w.options⟩ := by
    rw [ofExample, hfilter, toWidget_joined hne hsound.keys_distinct hsound.not_reserved, htype,
      rereadOptions_eq_self_iff.2 hreadable]
  rw [← hfilter] at hread
  refine ⟨_, hread, rfl, hfilter, ?_⟩
  have hsame := keptTitle_exampleTitle_eq_iff (m := m)
  rw [← htitle] at hsame
  generalize Widget.keptTitle (some (exampleTitle m)) = title at hread hsame ⊢
  rw [← hsame, hfilter]
  constructor
  · intro h
    exact congrArg Widget.title h
  · rintro rfl
    rfl

/-- An example with a title that is a number, an awkward key and a nested list. -/
def datedExample : Mapping :=
  [("type", .str " clock "), (" a=b", .seq [.int 1, .map [("", .str "x")]]), ("title", .int 2024)]

/-- The widget that the loader reads from it. -/
def datedClock : Widget where
  type := "clock"
  title := some "2024"
  options := [(" a=b", .seq [.int 1, .map [("", .str "x")]])]

/-- The form of the dated example gives the widget of the loader. -/
theorem toWidget_ofExample_datedExample :
    (Value.map datedExample).KeysDistinct ∧
      Widget.ofMapping? datedExample = some datedClock ∧
      Text.trim "clock" = datedClock.type ∧
      (∀ e ∈ datedClock.options, Render.IsReadable e.2) ∧
      ∃ v, (ofExample "clock" (.map datedExample)).toWidget = .ok v ∧
        v.type = datedClock.type ∧ v.options = datedClock.options ∧
        (v = datedClock ↔ Entries.get? datedExample "title" ≠ some .null) := by
  have hkeys : (Value.map datedExample).KeysDistinct := by
    decide
  have hload : Widget.ofMapping? datedExample = some datedClock := by
    decide +kernel
  have htype : Text.trim "clock" = datedClock.type := by
    decide +kernel
  have hreadable : ∀ e ∈ datedClock.options, Render.IsReadable e.2 := by
    decide +kernel
  exact ⟨hkeys, hload, htype, hreadable, toWidget_ofExample_eq_iff hkeys hload htype hreadable⟩

/-- An example whose title is null. -/
def untitledExample : Mapping :=
  [("type", .str "clock"), ("title", .null)]

/-- The loader reads a widget without a title from it, and its form gives one with
the word null for a title. -/
theorem not_toWidget_ofExample_untitledExample :
    (Value.map untitledExample).KeysDistinct ∧
      Widget.ofMapping? untitledExample = some { type := "clock", title := none } ∧
      (ofExample "clock" (.map untitledExample)).toWidget =
        .ok { type := "clock", title := some "null" } ∧
      ¬(ofExample "clock" (.map untitledExample)).toWidget =
        .ok { type := "clock", title := none } := by
  have hload : Widget.ofMapping? untitledExample = some { type := "clock", title := none } := by
    decide +kernel
  have htype : Text.trim "clock" = "clock" := by
    decide +kernel
  have htitle : Widget.keptTitle (some "null") = some "null" := by
    decide +kernel
  have hne : Text.trim "clock" ≠ "" := by
    rw [htype]
    decide
  have hkeys : (Value.map []).KeysDistinct := by
    decide
  have hread : (ofExample "clock" (.map untitledExample)).toWidget =
      .ok { type := "clock", title := some "null" } := by
    have hform : ofExample "clock" (.map untitledExample) =
        { type := "clock", title := "null", options := joined (([] : Mapping).map fun e =>
          line e.1 e.2) } := by
      decide +kernel
    rw [hform, toWidget_joined hne hkeys (List.forall_mem_nil _), htype, htitle]
    rfl
  refine ⟨by decide, hload, hread, fun h => ?_⟩
  rw [hread] at h
  cases h

end WidgetForm

end Dashboard
