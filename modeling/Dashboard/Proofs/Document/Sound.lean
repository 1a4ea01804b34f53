import Dashboard.Document.Load
import Dashboard.Proofs.Widget.Sound

/-!
# Sound documents

A document is sound when every level keeps its own names apart from the names
that stand for the level itself: the settings have no key `pages`, the
properties of pages and columns not the keys of their fields, and the widgets
are sound.  The value of a sound document shows every entry once, in the order
of the file, and taking that value for a document gives the document again.
-/

namespace Dashboard

theorem mem_of_mem_mappings
    {m : Mapping}
    {items : List Value}
    (h : m ∈ Value.mappings items) :
    Value.map m ∈ items := by
  obtain ⟨v, hv, heq⟩ := List.mem_filterMap.1 h
  split at heq
  · cases heq
    exact hv
  · cases heq

/-- A level of the document: a field in front, properties, and the list of the
level below. -/
def levelEntries (head : String) (field : Value) (properties : Mapping) (children : String)
    (items : List Value) : Mapping :=
  (head, field) :: properties ++ [(children, .seq items)]

section Level

variable {head children : String} {properties : Mapping}

/-- Properties that leave the names of a level free. -/
structure LevelFree (head children : String) (properties : Mapping) : Prop where
  head_free : head ∉ Entries.names properties
  children_free : children ∉ Entries.names properties
  keys_distinct : (Value.map properties).KeysDistinct

theorem LevelFree.distinct (h : LevelFree head children properties) :
    Entries.Distinct properties :=
  (Value.keysDistinct_map.1 h.keys_distinct).1

/-- Without properties all names are free. -/
theorem levelFree_nil : LevelFree head children [] where
  head_free := by simp
  children_free := by simp
  keys_distinct := by simp [Value.keysDistinct_map, Entries.distinct_nil]

/-- Laying out a level writes every property once. -/
theorem LevelFree.put_putAll (h : LevelFree head children properties) (hne : children ≠ head)
    (field : Value) (items : List Value) :
    Entries.put (Mapping.putAll [(head, field)] properties) children (.seq items) =
      levelEntries head field properties children items := by
  have hfront : Entries.Distinct ((head, field) :: properties) :=
    Entries.distinct_cons.2 ⟨h.head_free, h.distinct⟩
  have hall := Entries.foldl_put_eq_append [(head, field)] properties hfront
  have hnew : Entries.get? ((head, field) :: properties) children = none := by
    rw [Entries.get?_eq_none_iff]
    simp [hne, h.children_free]
  rw [Mapping.putAll, hall]
  exact Entries.put_of_get?_none hnew _

theorem get?_levelEntries_head (field : Value) (items : List Value) :
    Entries.get? (levelEntries head field properties children items) head = some field := by
  simp [levelEntries, Entries.get?]

theorem LevelFree.get?_levelEntries_children (h : LevelFree head children properties)
    (hne : children ≠ head) (field : Value) (items : List Value) :
    Entries.get? (levelEntries head field properties children items) children =
      some (.seq items) := by
  have hnone : Entries.get? ((head, field) :: properties) children = none := by
    rw [Entries.get?_eq_none_iff]
    simp [hne, h.children_free]
  rw [levelEntries, Entries.get?_append_of_none hnone]
  simp [Entries.get?]

/-- Taking the names of a level out leaves the properties. -/
theorem LevelFree.erase_levelEntries (h : LevelFree head children properties)
    (field : Value) (items : List Value) :
    Entries.erase (Entries.erase (levelEntries head field properties children items) head)
      children = properties := by
  have hhead : Entries.erase (levelEntries head field properties children items) head =
      properties ++ [(children, .seq items)] := by
    simp [levelEntries, Entries.erase]
  rw [hhead, Entries.erase_append_of_not_mem h.children_free]
  simp [Entries.erase]

/-- A level has no repeated keys if nothing in it has. -/
theorem LevelFree.keysDistinct_levelEntries (h : LevelFree head children properties)
    (hne : children ≠ head) {field : Value} (hfield : field.KeysDistinct) {items : List Value}
    (hitems : ∀ v ∈ items, v.KeysDistinct) :
    (Value.map (levelEntries head field properties children items)).KeysDistinct := by
  rw [Value.keysDistinct_map, levelEntries]
  refine ⟨?_, fun e he => ?_⟩
  · rw [Entries.Distinct, Entries.names_append, Entries.names_cons, List.nodup_append]
    refine ⟨List.nodup_cons.2 ⟨h.head_free, h.distinct⟩, by simp, fun a ha b hb => ?_⟩
    rw [List.mem_singleton.1 hb]
    rintro rfl
    rcases List.mem_cons.1 ha with ha | ha
    · exact hne ha
    · exact h.children_free ha
  · rcases List.mem_append.1 he with he | he
    · rcases List.mem_cons.1 he with rfl | he
      · exact hfield
      · exact (Value.keysDistinct_map.1 h.keys_distinct).2 e he
    · rw [List.mem_singleton.1 he]
      exact Value.keysDistinct_seq.2 hitems

/-- What is left of a mapping without the names of its level leaves them free. -/
theorem levelFree_erase {m : Mapping} (hm : (Value.map m).KeysDistinct) :
    LevelFree head children (Entries.erase (Entries.erase m head) children) := by
  obtain ⟨hd, hvalues⟩ := Value.keysDistinct_map.1 hm
  have hrest := hd.erase head
  refine {
    head_free := fun hmem => ?_
    children_free := Entries.not_mem_names_erase hrest children
    keys_distinct := Value.keysDistinct_map.2 ⟨hrest.erase children, fun e he => ?_⟩ }
  · exact Entries.not_mem_names_erase hd head (Entries.names_erase_subset _ _ hmem)
  · exact hvalues e ((Entries.erase_sublist _ _).subset ((Entries.erase_sublist _ _).subset he))

end Level

/-! ## Sound columns, pages and documents -/

/-- A column of sound widgets whose properties leave its names free. -/
structure Column.Sound (c : Column) : Prop where
  widgets : ∀ w ∈ c.widgets, w.Sound
  properties : LevelFree "size" "widgets" c.properties

/-- A page of sound columns whose properties leave its names free. -/
structure Page.Sound (p : Page) : Prop where
  columns : ∀ c ∈ p.columns, c.Sound
  properties : LevelFree "name" "columns" p.properties

/-- A document of sound pages whose settings leave the name of the pages free. -/
structure Document.Sound (d : Document) : Prop where
  pages : ∀ p ∈ d.pages, p.Sound
  pages_free : "pages" ∉ Entries.names d.settings
  keys_distinct : (Value.map d.settings).KeysDistinct

theorem Column.sound_of_size (size : ColumnSize) : Column.Sound { size := size } where
  widgets := by simp
  properties := levelFree_nil

theorem Page.sound_of_name (name : String) : Page.Sound { name := name } where
  columns := by simp
  properties := levelFree_nil

theorem Document.sound_empty : Document.Sound {} where
  pages := by simp
  pages_free := by simp
  keys_distinct := by simp [Value.keysDistinct_map, Entries.distinct_nil]

/-! ## Values of sound documents -/

theorem Column.Sound.toValue_eq {c : Column} (h : c.Sound) :
    c.toValue = .map (levelEntries "size" (.str c.size.word) c.properties "widgets"
      (c.widgets.map Widget.toValue)) := by
  rw [Column.toValue, h.properties.put_putAll (by decide)]

theorem Page.Sound.toValue_eq {p : Page} (h : p.Sound) :
    p.toValue = .map (levelEntries "name" (.str p.name) p.properties "columns"
      (p.columns.map Column.toValue)) := by
  rw [Page.toValue, h.properties.put_putAll (by decide)]

theorem Document.Sound.toValue_eq {d : Document} (h : d.Sound) :
    d.toValue = .map (d.settings ++ [("pages", .seq (d.pages.map Page.toValue))]) := by
  rw [Document.toValue,
    Entries.put_of_get?_none ((Entries.get?_eq_none_iff _ _).2 h.pages_free)]

theorem Column.Sound.keysDistinct_toValue {c : Column} (h : c.Sound) :
    c.toValue.KeysDistinct := by
  rw [h.toValue_eq]
  refine h.properties.keysDistinct_levelEntries (by decide) ?_ fun v hv => ?_
  · trivial
  obtain ⟨w, hw, rfl⟩ := List.mem_map.1 hv
  exact (h.widgets w hw).keysDistinct_toValue

theorem Page.Sound.keysDistinct_toValue {p : Page} (h : p.Sound) :
    p.toValue.KeysDistinct := by
  rw [h.toValue_eq]
  refine h.properties.keysDistinct_levelEntries (by decide) ?_ fun v hv => ?_
  · trivial
  obtain ⟨c, hc, rfl⟩ := List.mem_map.1 hv
  exact (h.columns c hc).keysDistinct_toValue

/-- The value of a sound document has no repeated keys. -/
theorem Document.Sound.keysDistinct_toValue {d : Document} (h : d.Sound) :
    d.toValue.KeysDistinct := by
  obtain ⟨hdistinct, hvalues⟩ := Value.keysDistinct_map.1 h.keys_distinct
  rw [Document.toValue, Value.keysDistinct_map]
  refine ⟨hdistinct.put _ _, fun e he => ?_⟩
  rcases Entries.mem_put he with he | rfl
  · exact hvalues e he
  · refine Value.keysDistinct_seq.2 fun v hv => ?_
    obtain ⟨p, hp, rfl⟩ := List.mem_map.1 hv
    exact (h.pages p hp).keysDistinct_toValue

/-! ## Reading the value of a sound document -/

/-- The mappings of values that are all mappings. -/
theorem mappings_map_map {α : Type} (xs : List α) (f : α → Mapping) :
    Value.mappings (xs.map fun x => .map (f x)) = xs.map f := by
  induction xs with
  | nil =>
      rfl
  | cons x xs ih =>
      rw [List.map_cons, List.map_cons, ← ih]
      rfl

/-- Reading back what is written of each element. -/
theorem filterMap_map_of_leftInverse {α β : Type} {xs : List α} {write : α → β}
    {read : β → Option α} (h : ∀ x ∈ xs, read (write x) = some x) :
    (xs.map write).filterMap read = xs := by
  induction xs with
  | nil =>
      rfl
  | cons x xs ih =>
      have hx := h x List.mem_cons_self
      have hxs := ih fun y hy => h y (List.mem_cons_of_mem x hy)
      simp [hx, hxs]

theorem mapM_map_of_leftInverse {α β ε : Type} {xs : List α} {write : α → β}
    {read : β → Except ε α} (h : ∀ x ∈ xs, read (write x) = .ok x) :
    (xs.map write).mapM read = .ok xs := by
  induction xs with
  | nil =>
      rfl
  | cons x xs ih =>
      have hx := h x List.mem_cons_self
      have hxs := ih fun y hy => h y (List.mem_cons_of_mem x hy)
      rw [List.map_cons, List.mapM_cons, hx, hxs]
      rfl

theorem ColumnSize.read_word (s : ColumnSize) : ColumnSize.read s.word = .ok s := by
  cases s <;> rfl

theorem Column.Sound.ofMapping_levelEntries {c : Column} (h : c.Sound) :
    Column.ofMapping (levelEntries "size" (.str c.size.word) c.properties "widgets"
      (c.widgets.map Widget.toValue)) = .ok c := by
  have hwidgets : c.widgets.map Widget.toValue =
      c.widgets.map fun w => Value.map (w.fields ++ w.options) :=
    List.map_congr_left fun w hw => (h.widgets w hw).toValue_eq
  have hitems := h.properties.get?_levelEntries_children (by decide) (.str c.size.word)
    (c.widgets.map Widget.toValue)
  have hread : ((c.widgets.map fun w => w.fields ++ w.options).filterMap Widget.ofMapping?) =
      c.widgets :=
    filterMap_map_of_leftInverse fun w hw => (h.widgets w hw).ofMapping?_toValue
  rw [Column.ofMapping, get?_levelEntries_head, h.properties.erase_levelEntries,
    Mapping.itemsAt, hitems, hwidgets]
  simp only [mappings_map_map, hread, ColumnSize.ofValue, ColumnSize.read_word]
  rfl

theorem Page.Sound.ofMapping_levelEntries {p : Page} (h : p.Sound) :
    Page.ofMapping (levelEntries "name" (.str p.name) p.properties "columns"
      (p.columns.map Column.toValue)) = .ok p := by
  have hcolumns : p.columns.map Column.toValue = p.columns.map fun c =>
      Value.map (levelEntries "size" (.str c.size.word) c.properties "widgets"
        (c.widgets.map Widget.toValue)) :=
    List.map_congr_left fun c hc => (h.columns c hc).toValue_eq
  have hitems := h.properties.get?_levelEntries_children (by decide) (.str p.name)
    (p.columns.map Column.toValue)
  have hread := mapM_map_of_leftInverse fun c hc => (h.columns c hc).ofMapping_levelEntries
  rw [Page.ofMapping, get?_levelEntries_head, h.properties.erase_levelEntries,
    Mapping.itemsAt, hitems, hcolumns]
  simp only [mappings_map_map, hread]
  rfl

/-- The value of a sound document stands for the document. -/
theorem Document.Sound.ofValue_toValue {d : Document} (h : d.Sound) :
    Document.ofValue d.toValue = .ok d := by
  have hnone := (Entries.get?_eq_none_iff _ _).2 h.pages_free
  have hpages : d.pages.map Page.toValue = d.pages.map fun p =>
      Value.map (levelEntries "name" (.str p.name) p.properties "columns"
        (p.columns.map Column.toValue)) :=
    List.map_congr_left fun p hp => (h.pages p hp).toValue_eq
  have hread := mapM_map_of_leftInverse fun p hp => (h.pages p hp).ofMapping_levelEntries
  rw [h.toValue_eq, Document.ofValue, Entries.get?_append_of_none hnone,
    Entries.erase_append_of_not_mem h.pages_free, hpages]
  simp only [Entries.get?, Entries.erase, if_true, mappings_map_map, hread]
  simp [bind, Except.bind, pure, Except.pure]

end Dashboard
