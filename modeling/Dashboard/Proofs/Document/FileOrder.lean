import Dashboard.Proofs.Document.Sound
import Dashboard.Proofs.Yaml.Keys

/-!
# Loading a well-formed file changes only the order of entries

A level of a file is laid out with some entries in front and some at the end.
A file is well-formed when every level has its fields and lists and these have
the form the document gives them.  Loading such a file succeeds, and the value
of the document is the tree of the file with the entries of each level put in
that order: `parse_eq_fileOrder`.  Nothing is added, dropped or changed, and
the entries without a meaning keep their order at every depth.
-/

namespace Dashboard

namespace Entries

variable {α : Type}

/-- The entries of the listed names that are there, in the order of the list. -/
def pick (m : Entries α) (names : List String) : Entries α :=
  names.filterMap fun name => (get? m name).map fun v => (name, v)

/-- The entries with those of the names `first` in front and those of the names
`last` at the end. -/
def arranged (first last : List String) (m : Entries α) : Entries α :=
  pick m first ++ m.filter (fun e => !(first ++ last).contains e.1) ++ pick m last

theorem mem_pick {m : Entries α} (hd : Distinct m) {names : List String} {e : String × α} :
    e ∈ pick m names ↔ e ∈ m ∧ e.1 ∈ names := by
  obtain ⟨k, v⟩ := e
  simp only [pick, List.mem_filterMap, Option.map_eq_some_iff, Prod.mk.injEq]
  constructor
  · rintro ⟨name, hname, w, hw, rfl, rfl⟩
    exact ⟨mem_of_get? hw, hname⟩
  · rintro ⟨hmem, hname⟩
    exact ⟨k, hname, v, get?_of_mem hd hmem, rfl, rfl⟩

theorem names_pick (m : Entries α) (names : List String) :
    Entries.names (pick m names) = names.filter fun name => has m name := by
  induction names with
  | nil =>
      rfl
  | cons name names ih =>
      cases hg : get? m name <;> simpa [pick, has, hg, Entries.names] using ih

theorem distinct_pick (m : Entries α) {names : List String} (h : names.Nodup) :
    Distinct (pick m names) := by
  rw [Distinct, names_pick]
  exact h.filter _

/-- Arranging entries only changes their order. -/
theorem arranged_perm {first last : List String} (hnames : (first ++ last).Nodup)
    {m : Entries α} (hd : Distinct m) : (arranged first last m).Perm m := by
  obtain ⟨hfirst, hlast, hapart⟩ := List.nodup_append.1 hnames
  rw [List.perm_ext_iff_of_nodup ?_ hd.nodup]
  · intro e
    simp only [arranged, List.mem_append, mem_pick hd, List.mem_filter]
    by_cases h1 : e.1 ∈ first <;> by_cases h2 : e.1 ∈ last <;> simp [h1, h2]
  · rw [arranged, List.nodup_append, List.nodup_append]
    refine ⟨⟨(distinct_pick m hfirst).nodup, hd.nodup.filter _, ?_⟩,
      (distinct_pick m hlast).nodup, ?_⟩
    · rintro e he f hf rfl
      have hin := ((mem_pick hd).1 he).2
      simp [hin] at hf
    · rintro e he f hf rfl
      have hin := ((mem_pick hd).1 hf).2
      rcases List.mem_append.1 he with he | he
      · exact hapart _ ((mem_pick hd).1 he).2 _ hin rfl
      · simp [hin] at he

end Entries

namespace Value

/-- Change the items of a list. -/
def mapItems (f : Value → Value) : Value → Value
  | .seq items => .seq (items.map f)
  | v => v

/-- A mapping with some entries in front and some at the end. -/
def inOrder (first last : List String) : Value → Value
  | .map m => .map (Entries.arranged first last m)
  | v => v

/-- A mapping with changed items in the list under a key. -/
def withItems (key : String) (f : Value → Value) : Value → Value
  | .map m => .map (m.map fun e => (e.1, if e.1 = key then e.2.mapItems f else e.2))
  | v => v

/-- A widget in the order of the file: type and title first. -/
def widgetOrder : Value → Value :=
  inOrder ["type", "title"] []

/-- A column in the order of the file: the size first and the widgets last. -/
def columnOrder (v : Value) : Value :=
  inOrder ["size"] ["widgets"] (withItems "widgets" widgetOrder v)

/-- A page in the order of the file: the name first and the columns last. -/
def pageOrder (v : Value) : Value :=
  inOrder ["name"] ["columns"] (withItems "columns" columnOrder v)

/-- A whole file in order: the pages last. -/
def fileOrder (v : Value) : Value :=
  inOrder [] ["pages"] (withItems "pages" pageOrder v)

/-- Values that differ only in the order of the entries of mappings, anywhere
inside. -/
inductive Reordered : Value → Value → Prop
  | refl (v : Value) : Reordered v v
  | trans {u v w : Value} : Reordered u v → Reordered v w → Reordered u w
  | entries {m n : List (String × Value)} : m.Perm n → Reordered (.map m) (.map n)
  | item {v w : Value} (before after : List Value) :
      Reordered v w → Reordered (.seq (before ++ v :: after)) (.seq (before ++ w :: after))
  | value {v w : Value} (k : String) (before after : List (String × Value)) :
      Reordered v w →
        Reordered (.map (before ++ (k, v) :: after)) (.map (before ++ (k, w) :: after))

theorem Reordered.items {f : Value → Value} {items : List Value}
    (h : ∀ v ∈ items, Reordered v (f v)) (before : List Value) :
    Reordered (.seq (before ++ items)) (.seq (before ++ items.map f)) := by
  induction items generalizing before with
  | nil =>
      exact .refl _
  | cons v items ih =>
      have hrest := ih (fun w hw => h w (List.mem_cons_of_mem v hw)) (before ++ [f v])
      simp only [List.append_assoc, List.cons_append, List.nil_append] at hrest
      exact .trans (.item before items (h v List.mem_cons_self)) hrest

theorem Reordered.values {f : String × Value → Value} {m : List (String × Value)}
    (h : ∀ e ∈ m, Reordered e.2 (f e)) (before : List (String × Value)) :
    Reordered (.map (before ++ m)) (.map (before ++ m.map fun e => (e.1, f e))) := by
  induction m generalizing before with
  | nil =>
      exact .refl _
  | cons e m ih =>
      obtain ⟨k, v⟩ := e
      have hrest := ih (fun e he => h e (List.mem_cons_of_mem _ he)) (before ++ [(k, f (k, v))])
      simp only [List.append_assoc, List.cons_append, List.nil_append] at hrest
      exact .trans (.value k before m (h (k, v) List.mem_cons_self)) hrest

theorem Reordered.mapItems {f : Value → Value} {v : Value} (hv : v.KeysDistinct)
    (h : ∀ w, w.KeysDistinct → Reordered w (f w)) : Reordered v (v.mapItems f) := by
  cases v with
  | seq items =>
      exact Reordered.items (fun w hw => h w (keysDistinct_seq.1 hv w hw)) []
  | _ => exact .refl _

/-- Laying out a level reorders its entries and what its items reorder. -/
theorem Reordered.level {first last : List String} (hnames : (first ++ last).Nodup)
    (key : String) {f : Value → Value} (h : ∀ w, w.KeysDistinct → Reordered w (f w))
    {v : Value} (hv : v.KeysDistinct) :
    Reordered v (inOrder first last (withItems key f v)) := by
  cases v with
  | map m =>
      obtain ⟨hd, hvalues⟩ := keysDistinct_map.1 hv
      refine .trans (Reordered.values (m := m) (fun e he => ?_) [])
        (.entries (Entries.arranged_perm hnames ?_).symm)
      · by_cases hk : e.1 = key
        · simpa [hk] using Reordered.mapItems (hvalues e he) h
        · simpa [hk] using Reordered.refl e.2
      · simpa [Entries.Distinct, Entries.names, Function.comp_def] using hd
  | _ => exact .refl _

/-- The order of the file is an order of the same entries. -/
theorem reordered_fileOrder {v : Value} (hv : v.KeysDistinct) : Reordered v v.fileOrder := by
  have hwidget : ∀ w : Value, w.KeysDistinct → Reordered w w.widgetOrder := by
    intro w hw
    cases w with
    | map m =>
        exact .entries (Entries.arranged_perm (by decide) (keysDistinct_map.1 hw).1).symm
    | _ => exact .refl _
  have hcolumn : ∀ w : Value, w.KeysDistinct → Reordered w w.columnOrder :=
    fun w hw => Reordered.level (by decide) "widgets" hwidget hw
  have hpage : ∀ w : Value, w.KeysDistinct → Reordered w w.pageOrder :=
    fun w hw => Reordered.level (by decide) "columns" hcolumn hw
  exact Reordered.level (by decide) "pages" hpage hv

/-! ## Well-formed files -/

/-- A widget as it is written: a type and at most one title, both kept as they
are. -/
def IsWidget (v : Value) : Prop :=
  ∃ m, v = .map m ∧
    (∃ type, Entries.get? m "type" = some (.str type) ∧ Text.Kept type) ∧
    ∀ w, Entries.get? m "title" = some w → ∃ title, w = .str title ∧ Text.Kept title

/-- A column as it is written: one of the two sizes, and a list of widgets. -/
def IsColumn (v : Value) : Prop :=
  ∃ m items, v = .map m ∧
    (∃ size : ColumnSize, Entries.get? m "size" = some (.str size.word)) ∧
    Entries.get? m "widgets" = some (.seq items) ∧ ∀ w ∈ items, IsWidget w

/-- A page as it is written: a text for a name, and a list of columns. -/
def IsPage (v : Value) : Prop :=
  ∃ m items, v = .map m ∧
    (∃ name, Entries.get? m "name" = some (.str name)) ∧
    Entries.get? m "columns" = some (.seq items) ∧ ∀ c ∈ items, IsColumn c

/-- A file as it is written: a list of pages. -/
def IsFile (v : Value) : Prop :=
  ∃ m items, v = .map m ∧
    Entries.get? m "pages" = some (.seq items) ∧ ∀ p ∈ items, IsPage p

end Value

section Level

variable {head children : String} {m : Mapping} {field : Value} {items : List Value}

/-- Changing the items of a list leaves the other entries alone. -/
theorem filter_withItems {names : List String} (h : children ∈ names) (f : Value → Value) :
    (m.map fun e => (e.1, if e.1 = children then e.2.mapItems f else e.2)).filter
        (fun e => !names.contains e.1) =
      m.filter fun e => !names.contains e.1 := by
  have hsame : ∀ e ∈ m.filter (fun e => !names.contains e.1),
      ((e.1, if e.1 = children then e.2.mapItems f else e.2) : String × Value) = e := by
    intro e he
    have hne : e.1 ≠ children := by
      rintro hc
      simp [hc, h] at he
    simp [hne]
  rw [List.filter_map]
  change List.map _ (m.filter fun e => !names.contains e.1) = _
  rw [List.map_congr_left hsame, List.map_id']

theorem pick_withItems (f : Value → Value) {name : String} {v : Value}
    (h : Entries.get? m name = some v) :
    Entries.pick (m.map fun e => (e.1, if e.1 = children then e.2.mapItems f else e.2)) [name] =
      [(name, if name = children then v.mapItems f else v)] := by
  simp [Entries.pick, Entries.get?_map, h]

/-- A level in the order of the file: the field, the entries without a meaning,
the list with its items in order. -/
theorem inOrder_withItems (hd : Entries.Distinct m) (hne : head ≠ children)
    (hfield : Entries.get? m head = some field)
    (hitems : Entries.get? m children = some (.seq items)) (f : Value → Value) :
    Value.inOrder [head] [children] (Value.withItems children f (.map m)) =
      .map (levelEntries head field (Entries.erase (Entries.erase m head) children) children
        (items.map f)) := by
  rw [Value.withItems, Value.inOrder, Entries.arranged, filter_withItems (by simp),
    pick_withItems f hfield, pick_withItems f hitems, Entries.erase_erase_eq_filter hd]
  simp [levelEntries, Value.mapItems, hne]

end Level

/-! ## Loading level by level -/

/-- Values that are all mappings are the values of their mappings. -/
theorem map_mappings {items : List Value} (h : ∀ v ∈ items, ∃ m, v = .map m) :
    (Value.mappings items).map Value.map = items := by
  induction items with
  | nil =>
      rfl
  | cons v items ih =>
      obtain ⟨m, rfl⟩ := h v List.mem_cons_self
      have hrest := ih fun w hw => h w (List.mem_cons_of_mem _ hw)
      simpa [Value.mappings] using hrest

/-- Elements that can be read one by one can be read together, and what is
written of them is what is expected of each. -/
theorem exists_mapM_of_forall {α : Type} {read : Mapping → Except Error α} (write : α → Value)
    (expected : Value → Value) {ms : List Mapping}
    (h : ∀ m ∈ ms, ∃ a, read m = .ok a ∧ write a = expected (.map m)) :
    ∃ as, ms.mapM read = .ok as ∧ as.map write = (ms.map Value.map).map expected := by
  induction ms with
  | nil =>
      exact ⟨[], rfl, rfl⟩
  | cons m ms ih =>
      obtain ⟨a, ha, hwrite⟩ := h m List.mem_cons_self
      obtain ⟨as, has, hrest⟩ := ih fun n hn => h n (List.mem_cons_of_mem m hn)
      refine ⟨a :: as, ?_, by simp [hwrite, hrest]⟩
      rw [List.mapM_cons, ha, has]
      rfl

theorem map_filterMap_of_forall {read : Mapping → Option Widget} (expected : Value → Value)
    {ms : List Mapping}
    (h : ∀ m ∈ ms, ∃ w, read m = some w ∧ w.toValue = expected (.map m)) :
    (ms.filterMap read).map Widget.toValue = (ms.map Value.map).map expected := by
  induction ms with
  | nil =>
      rfl
  | cons m ms ih =>
      obtain ⟨w, hw, hwrite⟩ := h m List.mem_cons_self
      have hrest := ih fun n hn => h n (List.mem_cons_of_mem m hn)
      simp [hw, hwrite, hrest]

/-- A widget as it is written is read, and its value has its fields first. -/
theorem exists_widget_of_isWidget {m : Mapping} (h : (Value.map m).IsWidget)
    (hm : (Value.map m).KeysDistinct) :
    ∃ w, Widget.ofMapping? m = some w ∧ w.toValue = (Value.map m).widgetOrder := by
  obtain ⟨m, ⟨rfl⟩, ⟨type, htype, hkept⟩, htitle⟩ := h
  have hd := (Value.keysDistinct_map.1 hm).1
  have hfilter := Entries.erase_erase_eq_filter hd "type" "title"
  have hrest : Entries.get? (Entries.erase m "type") "title" = Entries.get? m "title" :=
    Entries.get?_erase_of_ne m (by decide)
  cases hg : Entries.get? m "title" with
  | none =>
      have hread : Widget.ofMapping? m =
          some { type := type, options := Entries.erase (Entries.erase m "type") "title" } := by
        simp [Widget.ofMapping?, htype, Widget.ofType_of_kept hkept, hrest, hg,
          Widget.setTitle, Widget.keptTitle]
      refine ⟨_, hread, ?_⟩
      rw [(Widget.sound_ofMapping? hm hread).toValue_eq]
      simp [Widget.fields, Value.widgetOrder, Value.inOrder, Entries.arranged, Entries.pick,
        htype, hg, hfilter]
  | some v =>
      obtain ⟨title, rfl, hkeptTitle⟩ := htitle v hg
      have hsame : Widget.keptTitle (some title) = some title := by
        refine Widget.keptTitle_eq_self fun t ht => ?_
        cases ht
        exact hkeptTitle
      have hread : Widget.ofMapping? m =
          some { type := type, title := some title
                 options := Entries.erase (Entries.erase m "type") "title" } := by
        simp [Widget.ofMapping?, htype, Widget.ofType_of_kept hkept, hrest, hg,
          Widget.setTitle, Value.scalarText?, hsame]
      refine ⟨_, hread, ?_⟩
      rw [(Widget.sound_ofMapping? hm hread).toValue_eq]
      simp [Widget.fields, Value.widgetOrder, Value.inOrder, Entries.arranged, Entries.pick,
        htype, hg, hfilter]

/-- The items of a list in a mapping with distinct keys have distinct keys. -/
theorem keysDistinct_of_mem_items {m : Mapping} (hm : (Value.map m).KeysDistinct)
    {name : String} {items : List Value} (h : Entries.get? m name = some (.seq items)) {v : Value}
    (hv : v ∈ items) : v.KeysDistinct :=
  Value.keysDistinct_seq.1 ((Value.keysDistinct_map.1 hm).2 _ (Entries.mem_of_get? h)) v hv

/-- A column as it is written is read, and its value is in the order of the file. -/
theorem exists_column_of_isColumn {m : Mapping} (h : (Value.map m).IsColumn)
    (hm : (Value.map m).KeysDistinct) :
    ∃ c, Column.ofMapping m = .ok c ∧ c.toValue = (Value.map m).columnOrder := by
  obtain ⟨m, items, ⟨rfl⟩, ⟨size, hsize⟩, hitems, hwidgets⟩ := h
  have hmaps : (Value.mappings items).map Value.map = items :=
    map_mappings fun w hw => (hwidgets w hw).imp fun _ hm => hm.1
  have hread := map_filterMap_of_forall Value.widgetOrder fun n
      (hn : n ∈ Value.mappings items) =>
    exists_widget_of_isWidget (hwidgets _ (mem_of_mem_mappings hn))
      (keysDistinct_of_mem_items hm hitems (mem_of_mem_mappings hn))
  refine ⟨{ size, widgets := (Value.mappings items).filterMap Widget.ofMapping?
            properties := Entries.erase (Entries.erase m "size") "widgets" }, ?_, ?_⟩
  · rw [Column.ofMapping, hsize, Mapping.itemsAt, hitems]
    simp only [ColumnSize.ofValue, ColumnSize.read_word]
    rfl
  · rw [Value.columnOrder, inOrder_withItems (Value.keysDistinct_map.1 hm).1 (by decide) hsize
      hitems, Column.toValue, (levelFree_erase hm).put_putAll (by decide), hread, hmaps]

/-- A page as it is written is read, and its value is in the order of the file. -/
theorem exists_page_of_isPage {m : Mapping} (h : (Value.map m).IsPage)
    (hm : (Value.map m).KeysDistinct) :
    ∃ p, Page.ofMapping m = .ok p ∧ p.toValue = (Value.map m).pageOrder := by
  obtain ⟨m, items, ⟨rfl⟩, ⟨name, hname⟩, hitems, hcolumns⟩ := h
  have hmaps : (Value.mappings items).map Value.map = items :=
    map_mappings fun c hc => (hcolumns c hc).imp fun _ ⟨_, hm⟩ => hm.1
  obtain ⟨columns, hread, hwrite⟩ := exists_mapM_of_forall Column.toValue
    Value.columnOrder fun n (hn : n ∈ Value.mappings items) =>
      exists_column_of_isColumn (hcolumns _ (mem_of_mem_mappings hn))
      (keysDistinct_of_mem_items hm hitems (mem_of_mem_mappings hn))
  refine ⟨{ name, columns, properties := Entries.erase (Entries.erase m "name") "columns" },
    ?_, ?_⟩
  · rw [Page.ofMapping, hname, Mapping.itemsAt, hitems]
    simp only [hread]
    rfl
  · rw [Value.pageOrder, inOrder_withItems (Value.keysDistinct_map.1 hm).1 (by decide) hname
      hitems, Page.toValue, (levelFree_erase hm).put_putAll (by decide), hwrite, hmaps]

/-- A well-formed file is read, and the value of the document is the file with
the entries of each level in order. -/
theorem exists_document_of_isFile {v : Value} (h : v.IsFile) (hv : v.KeysDistinct) :
    ∃ d, Document.ofValue v = .ok d ∧ d.toValue = v.fileOrder := by
  obtain ⟨m, items, rfl, hitems, hpages⟩ := h
  have hd := (Value.keysDistinct_map.1 hv).1
  have hmaps : (Value.mappings items).map Value.map = items :=
    map_mappings fun p hp => (hpages p hp).imp fun _ ⟨_, hm⟩ => hm.1
  obtain ⟨pages, hread, hwrite⟩ := exists_mapM_of_forall Page.toValue
    Value.pageOrder fun n (hn : n ∈ Value.mappings items) =>
      exists_page_of_isPage (hpages _ (mem_of_mem_mappings hn))
      (keysDistinct_of_mem_items hv hitems (mem_of_mem_mappings hn))
  refine ⟨{ pages, settings := Entries.erase m "pages" }, ?_, ?_⟩
  · rw [Document.ofValue, hitems]
    simp only [hread]
    rfl
  · have hfree := Entries.not_mem_names_erase hd "pages"
    have hnone := (Entries.get?_eq_none_iff _ _).2 hfree
    rw [Document.toValue, Entries.put_of_get?_none hnone, Value.fileOrder, Value.withItems,
      Value.inOrder, Entries.arranged, filter_withItems (by simp), pick_withItems _ hitems,
      Entries.erase_eq_filter hd, hwrite, hmaps]
    simp only [Entries.pick, Value.mapItems, if_true, List.filterMap_nil, List.nil_append]
    congr 2
    refine List.filter_congr fun e _ => ?_
    by_cases he : e.1 = "pages" <;> simp [he]

/-- Loading a well-formed file succeeds and changes only the order of entries:
the value of the document is the tree of the file with the fields of each level
in front and the lists at the end. -/
theorem parse_eq_fileOrder {text : String} {v : Value} (htree : Yaml.tree? text = some v)
    (hfile : v.IsFile) :
    ∃ d, Document.parse text = .ok d ∧ d.toValue = v.fileOrder ∧ v.Reordered d.toValue := by
  have hyaml := Yaml.ofYaml?_of_tree? htree
  have hdistinct := Value.keysDistinct_of_ofYaml? hyaml
  obtain ⟨d, hread, hvalue⟩ := exists_document_of_isFile hfile hdistinct
  refine ⟨d, ?_, hvalue, ?_⟩
  · rw [Document.parse, hyaml]
    exact hread
  · rw [hvalue]
    exact Value.reordered_fileOrder hdistinct

/-- Fields behind lists and among other keys come to the front. -/
theorem parse_eq_fileOrder_of_mixed_order :
    let text := "pages:\n- slug: a\n  columns:\n  - widgets:\n    - limit: 5\n      title: News\n" ++
      "      type: rss\n    size: full\n  name: Home\nserver: 1\n"
    ∃ v : Value, Yaml.tree? text = some v ∧ v.IsFile ∧
      ∃ d, Document.parse text = .ok d ∧ d.toValue = v.fileOrder ∧ v.Reordered d.toValue := by
  intro text
  let widget : Mapping := [("limit", .int 5), ("title", .str "News"), ("type", .str "rss")]
  let column : Mapping := [("widgets", .seq [.map widget]), ("size", .str "full")]
  let page : Mapping :=
    [("slug", .str "a"), ("columns", .seq [.map column]), ("name", .str "Home")]
  let file : Mapping := [("pages", .seq [.map page]), ("server", .int 1)]
  have htree : Yaml.tree? text = some (.map file) := by decide +kernel
  have hwidget : (Value.map widget).IsWidget :=
    ⟨widget, rfl, ⟨"rss", rfl, by decide⟩, fun v hv => ⟨"News", by cases hv; rfl, by decide⟩⟩
  have hcolumn : (Value.map column).IsColumn :=
    ⟨column, [.map widget], rfl, ⟨.full, rfl⟩, rfl, by simpa using hwidget⟩
  have hpage : (Value.map page).IsPage :=
    ⟨page, [.map column], rfl, ⟨"Home", rfl⟩, rfl, by simpa using hcolumn⟩
  have hfile : (Value.map file).IsFile := ⟨file, [.map page], rfl, rfl, by simpa using hpage⟩
  exact ⟨.map file, htree, hfile, parse_eq_fileOrder htree hfile⟩

end Dashboard
