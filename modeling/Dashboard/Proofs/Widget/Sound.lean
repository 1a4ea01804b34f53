import Dashboard.Proofs.Text.Trimming
import Dashboard.Proofs.Value.Shape
import Dashboard.Widget.Basic

/-!
# Sound widgets

A sound widget has a type and perhaps a title without blanks around them, no
option under the name of a field, and no repeated keys.  The mapping of a sound
widget shows the type, the title and the options in this order, and reading
that mapping gives the widget again.
-/

namespace Dashboard.Widget

/-- A widget whose fields and options can be told apart in its mapping. -/
structure Sound (w : Widget) : Prop where
  type_kept : Text.Kept w.type
  title_kept : ∀ t, w.title = some t → Text.Kept t
  type_free : "type" ∉ Entries.names w.options
  title_free : "title" ∉ Entries.names w.options
  keys_distinct : w.tree.KeysDistinct

/-- The entries of the mapping that stand for the fields. -/
def fields (w : Widget) : Mapping :=
  ("type", .str w.type) :: (w.title.toList.map fun t => ("title", .str t))

@[simp] theorem setTitle_type (w : Widget) (title : Option String) :
    (w.setTitle title).type = w.type :=
  rfl

@[simp] theorem setTitle_title (w : Widget) (title : Option String) :
    (w.setTitle title).title = keptTitle title :=
  rfl

theorem keptTitle_eq_self {title : Option String} (h : ∀ t, title = some t → Text.Kept t) :
    keptTitle title = title := by
  cases title with
  | none =>
      rfl
  | some t =>
      obtain ⟨htrim, hne⟩ := h t rfl
      simp [keptTitle, htrim, hne]

theorem kept_of_keptTitle {title : Option String} {t : String}
    (h : keptTitle title = some t) : Text.Kept t := by
  simp only [keptTitle, Option.filter_eq_some_iff, Option.map_eq_some_iff] at h
  obtain ⟨⟨s, -, rfl⟩, hne⟩ := h
  exact Text.kept_trim (by simpa using hne)

theorem ofType_of_kept {type : String} (h : Text.Kept type) :
    ofType type = .ok { type := type } := by
  simp [ofType, h.1, h.2]

/-- A type that is accepted is the trimmed text, which is not blank. -/
theorem eq_of_ofType {type : String} {w : Widget} (h : ofType type = .ok w) :
    w = { type := Text.trim type } ∧ Text.trim type ≠ "" := by
  simp only [ofType] at h
  split at h
  · simp at h
  · next hne =>
      cases h
      exact ⟨rfl, by simpa using hne⟩

theorem sound_ofType {type : String} {w : Widget} (h : ofType type = .ok w) : w.Sound := by
  obtain ⟨rfl, hne⟩ := eq_of_ofType h
  exact {
    type_kept := Text.kept_trim hne
    title_kept := by simp
    type_free := by simp
    title_free := by simp
    keys_distinct := by simp [tree, Value.keysDistinct_map, Entries.distinct_nil] }

theorem Sound.setTitle {w : Widget} (h : w.Sound) (title : Option String) :
    (w.setTitle title).Sound :=
  { h with title_kept := fun _ ht => kept_of_keptTitle ht }

/-! ## The mapping of a widget -/

theorem names_fields_subset (w : Widget) :
    Entries.names w.fields ⊆ ["type", "title"] := by
  cases h : w.title <;> simp [fields, h]

theorem distinct_fields (w : Widget) : Entries.Distinct w.fields := by
  cases h : w.title <;> simp [fields, h, Entries.Distinct]

/-- No option of a sound widget has the name of a field. -/
theorem Sound.not_reserved {w : Widget} (h : w.Sound) :
    ∀ e ∈ w.options, reservedKeys.contains e.1 = false := by
  intro e he
  have hname := Entries.mem_names_of_mem he
  have htype : e.1 ≠ "type" := fun heq => h.type_free (heq ▸ hname)
  have htitle : e.1 ≠ "title" := fun heq => h.title_free (heq ▸ hname)
  simp [reservedKeys, htype, htitle]

theorem Sound.distinct_fields_append {w : Widget} (h : w.Sound) :
    Entries.Distinct (w.fields ++ w.options) := by
  have hoptions : Entries.Distinct w.options := (Value.keysDistinct_map.1 h.keys_distinct).1
  rw [Entries.Distinct, Entries.names_append, List.nodup_append]
  refine ⟨distinct_fields w, hoptions, ?_⟩
  rintro a ha b hb rfl
  have hfield := names_fields_subset w ha
  simp only [List.mem_cons, List.not_mem_nil, or_false] at hfield
  rcases hfield with rfl | rfl
  · exact h.type_free hb
  · exact h.title_free hb

/-- The mapping of a sound widget: its fields, then its options. -/
theorem Sound.toValue_eq {w : Widget} (h : w.Sound) :
    w.toValue = .map (w.fields ++ w.options) := by
  have happend := Entries.foldl_put_eq_append _ _ h.distinct_fields_append
  cases ht : w.title with
  | none =>
      simpa [toValue, fields, ht, Mapping.putAll] using happend
  | some t =>
      simpa [toValue, fields, ht, Mapping.putAll, Entries.put] using happend

/-- The mapping of a sound widget has no repeated keys. -/
theorem Sound.keysDistinct_toValue {w : Widget} (h : w.Sound) : w.toValue.KeysDistinct := by
  rw [h.toValue_eq, Value.keysDistinct_map]
  refine ⟨h.distinct_fields_append, fun e he => ?_⟩
  rcases List.mem_append.1 he with he | he
  · rcases List.mem_cons.1 he with rfl | he
    · trivial
    · obtain ⟨t, -, rfl⟩ := List.mem_map.1 he
      trivial
  · exact (Value.keysDistinct_map.1 h.keys_distinct).2 e he

/-- Reading the mapping of a sound widget gives the widget. -/
theorem Sound.ofMapping?_toValue {w : Widget} (h : w.Sound) :
    ofMapping? (w.fields ++ w.options) = some w := by
  have htype : Entries.get? (w.fields ++ w.options) "type" = some (.str w.type) := by
    simp [fields, Entries.get?]
  have hrest : Entries.erase (w.fields ++ w.options) "type" =
      (w.title.toList.map fun t => ("title", Value.str t)) ++ w.options := by
    simp [fields, Entries.erase]
  have hfree := (Entries.get?_eq_none_iff w.options "title").2 h.title_free
  have hkept := keptTitle_eq_self h.title_kept
  obtain ⟨type, title, options⟩ := w
  simp only [ofMapping?, htype, ofType_of_kept h.type_kept, hrest]
  cases title with
  | none =>
      simp only at hfree
      simp [hfree, keptTitle, Entries.erase_of_get?_none hfree]
  | some t =>
      simp only at hkept
      simp [Entries.get?, Entries.erase, Value.scalarText?, hkept]

/-- A widget that was read from a mapping with distinct keys is sound. -/
theorem sound_ofMapping? {m : Mapping} {w : Widget} (hm : (Value.map m).KeysDistinct)
    (h : ofMapping? m = some w) : w.Sound := by
  obtain ⟨hd, hvalues⟩ := Value.keysDistinct_map.1 hm
  simp only [ofMapping?] at h
  split at h
  · split at h
    · next type htype v hv =>
        cases h
        have hrest := hd.erase "type"
        have hbase := (sound_ofType hv).setTitle
        refine {
          type_kept := (hbase none).type_kept
          title_kept := fun t ht => (hbase _).title_kept t ht
          type_free := fun hmem => ?_
          title_free := Entries.not_mem_names_erase hrest "title"
          keys_distinct := ?_ }
        · exact Entries.not_mem_names_erase hd "type" (Entries.names_erase_subset _ _ hmem)
        · refine Value.keysDistinct_map.2 ⟨hrest.erase "title", fun e he => ?_⟩
          exact hvalues e ((Entries.erase_sublist _ _).subset
            ((Entries.erase_sublist _ _).subset he))
    · simp at h
  · simp at h

end Dashboard.Widget
