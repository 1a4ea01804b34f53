import Dashboard.Proofs.Document.Sound
import Dashboard.Proofs.Except
import Dashboard.Proofs.Yaml.Depth

/-!
# Documents that were loaded

A document that was read is sound, because the mappings of a text have distinct
keys.  The lists and mappings that a document has of its own make its value
hardly deeper than the text: only a text with fewer than six levels can grow.
-/

namespace Dashboard

section Mappings

variable {m : Mapping}
variable {items : List Value}

/-- The items under a key are the items of its list. -/
theorem exists_of_mem_itemsAt
    {key : String}
    {v : Value}
    (h : v ∈ m.itemsAt key) :
    ∃ items, (key, .seq items) ∈ m ∧ v ∈ items := by
  rw [Mapping.itemsAt] at h
  split at h
  · next items hget =>
      exact ⟨items, Entries.mem_of_get? hget, h⟩
  · exact absurd h List.not_mem_nil

theorem keysDistinct_of_mem_mappings
    {key : String}
    {m' : Mapping}
    (hm : (Value.map m).KeysDistinct)
    (h : m' ∈ Value.mappings (m.itemsAt key)) :
    (Value.map m').KeysDistinct := by
  obtain ⟨items, hitems, hmem⟩ := exists_of_mem_itemsAt (mem_of_mem_mappings h)
  exact Value.keysDistinct_seq.1 ((Value.keysDistinct_map.1 hm).2 _ hitems) _ hmem

/-- The mappings of a list under a key are two levels further in. -/
theorem depth_le_of_mem_mappings
    {key : String}
    {m' : Mapping}
    {n : Nat}
    (hm : (Value.map m).depth ≤ n)
    (h : m' ∈ Value.mappings (m.itemsAt key)) :
    (Value.map m').depth + 2 ≤ n := by
  obtain ⟨items, hitems, hmem⟩ := exists_of_mem_itemsAt (mem_of_mem_mappings h)
  have hlist := Value.depthEntries_le_iff.1 (Nat.le_refl (Value.depthEntries m)) _ hitems
  have hitem := Value.depthItems_le_iff.1 (Nat.le_refl (Value.depthItems items)) _ hmem
  rw [Value.depth] at hm
  simp only [Value.depth] at hlist hitem ⊢
  omega

end Mappings

section Sound

theorem Column.sound_ofMapping
    {m : Mapping}
    {c : Column}
    (hm : (Value.map m).KeysDistinct)
    (h : Column.ofMapping m = .ok c) :
    c.Sound := by
  simp only [Column.ofMapping, bind_eq_ok, pure_eq_ok] at h
  obtain ⟨size, -, rfl⟩ := h
  refine ⟨fun w hw => ?_, levelFree_erase hm⟩
  obtain ⟨m', hm', hw⟩ := List.mem_filterMap.1 hw
  exact Widget.sound_ofMapping? (keysDistinct_of_mem_mappings hm hm') hw

theorem Page.sound_ofMapping
    {m : Mapping}
    {p : Page}
    (hm : (Value.map m).KeysDistinct)
    (h : Page.ofMapping m = .ok p) :
    p.Sound := by
  simp only [Page.ofMapping, bind_eq_ok, pure_eq_ok] at h
  obtain ⟨columns, hcolumns, rfl⟩ := h
  refine ⟨fun c hc => ?_, levelFree_erase hm⟩
  obtain ⟨m', hm', hc⟩ := mem_of_mapM_eq_ok hcolumns c hc
  exact Column.sound_ofMapping (keysDistinct_of_mem_mappings hm hm') hc

/-- The mapping that a document was read from, and its pages. -/
theorem Document.exists_of_ofValue
    {v : Value}
    {d : Document}
    (h : Document.ofValue v = .ok d) :
    ∃ m : Mapping, v = .map m ∧ (Value.mappings (m.itemsAt "pages")).mapM Page.ofMapping =
      .ok d.pages ∧ d.settings = Entries.erase m "pages" := by
  cases v with
  | map m =>
      rw [Document.ofValue] at h
      split at h
      · next items hget =>
          simp only [bind_eq_ok, pure_eq_ok] at h
          obtain ⟨pages, hpages, rfl⟩ := h
          refine ⟨m, rfl, ?_, rfl⟩
          rw [Mapping.itemsAt, hget]
          exact hpages
      · cases h
  | null | bool b | int n | float x | str s | seq vs =>
      cases h

/-- A document that was read from a value with distinct keys is sound. -/
theorem Document.sound_ofValue
    {v : Value}
    {d : Document}
    (hv : v.KeysDistinct)
    (h : Document.ofValue v = .ok d) :
    d.Sound := by
  obtain ⟨m, rfl, hpages, hsettings⟩ := Document.exists_of_ofValue h
  obtain ⟨hdistinct, hvalues⟩ := Value.keysDistinct_map.1 hv
  refine ⟨fun p hp => ?_, ?_, ?_⟩
  · obtain ⟨m', hm', hp⟩ := mem_of_mapM_eq_ok hpages p hp
    exact Page.sound_ofMapping (keysDistinct_of_mem_mappings hv hm') hp
  · rw [hsettings]
    exact Entries.not_mem_names_erase hdistinct "pages"
  · rw [hsettings]
    exact Value.keysDistinct_map.2 ⟨hdistinct.erase "pages",
      fun e he => hvalues e ((Entries.erase_sublist m "pages").subset he)⟩

theorem Document.parse_eq_of_ofYaml?
    {text : String}
    {v : Value}
    (h : Value.ofYaml? text = some v) :
    Document.parse text = Document.ofValue v := by
  rw [Document.parse, h]

/-- The value that a document was parsed from. -/
theorem Document.exists_of_parse
    {text : String}
    {d : Document}
    (h : Document.parse text = .ok d) :
    ∃ v, Value.ofYaml? text = some v ∧ Document.ofValue v = .ok d := by
  rw [Document.parse] at h
  split at h
  · next v hv =>
      exact ⟨v, hv, h⟩
  · cases h

/-- A document that was parsed is sound. -/
theorem Document.sound_parse
    {text : String}
    {d : Document}
    (h : Document.parse text = .ok d) :
    d.Sound := by
  obtain ⟨v, hv, hd⟩ := Document.exists_of_parse h
  exact Document.sound_ofValue (Value.keysDistinct_of_ofYaml? hv) hd

end Sound

section Depth

variable {n : Nat}

theorem depthEntries_append_le
    {m m' : Mapping}
    (h : Value.depthEntries m ≤ n)
    (h' : Value.depthEntries m' ≤ n) :
    Value.depthEntries (m ++ m') ≤ n := by
  rw [Value.depthEntries_le_iff] at h h' ⊢
  intro e he
  rcases List.mem_append.1 he with he | he
  · exact h e he
  · exact h' e he

theorem depthEntries_erase_le
    {m : Mapping}
    (h : Value.depthEntries m ≤ n)
    (key : String) :
    Value.depthEntries (Entries.erase m key) ≤ n := by
  rw [Value.depthEntries_le_iff] at h ⊢
  exact fun e he => h e ((Entries.erase_sublist m key).subset he)

/-- A level is one deeper than its properties, and two deeper than its
children. -/
theorem depth_levelEntries_le
    {head children : String}
    {field : Value}
    {properties : Mapping}
    {items : List Value}
    (hfield : field.depth = 0)
    (hproperties : Value.depthEntries properties ≤ n + 1)
    (hitems : Value.depthItems items ≤ n) :
    (Value.map (levelEntries head field properties children items)).depth ≤ n + 2 := by
  rw [Value.depth, levelEntries]
  refine Nat.succ_le_succ (depthEntries_append_le ?_ ?_)
  · rw [Value.depthEntries, hfield, Nat.max_le]
    exact ⟨Nat.zero_le _, hproperties⟩
  · rw [Value.depthEntries, Value.depthEntries, Value.depth, Nat.max_le]
    exact ⟨Nat.succ_le_succ hitems, Nat.zero_le _⟩

theorem Widget.depth_ofMapping?_le
    {m : Mapping}
    {w : Widget}
    (hkeys : (Value.map m).KeysDistinct)
    (hm : (Value.map m).depth ≤ n)
    (h : Widget.ofMapping? m = some w) :
    w.toValue.depth ≤ n := by
  have hsound := Widget.sound_ofMapping? hkeys h
  rw [Value.depth] at hm
  have hoptions : Value.depthEntries w.options ≤ n - 1 := by
    have hentries : Value.depthEntries m ≤ n - 1 := by
      omega
    simp only [Widget.ofMapping?] at h
    split at h
    · split at h
      · cases h
        exact depthEntries_erase_le (depthEntries_erase_le hentries _) _
      · cases h
    · cases h
  have hfields : Value.depthEntries w.fields ≤ n - 1 := by
    rw [Value.depthEntries_le_iff]
    intro e he
    cases htitle : w.title with
    | none =>
        simp only [Widget.fields, htitle, Option.toList_none, List.map_nil,
          List.mem_singleton] at he
        subst he
        exact Nat.zero_le _
    | some t =>
        simp only [Widget.fields, htitle, Option.toList_some, List.map_cons, List.map_nil,
          List.mem_cons, List.not_mem_nil, or_false] at he
        rcases he with rfl | rfl
        · exact Nat.zero_le _
        · exact Nat.zero_le _
  have happend := depthEntries_append_le hfields hoptions
  rw [hsound.toValue_eq, Value.depth]
  omega

theorem Column.depth_ofMapping_le
    {m : Mapping}
    {c : Column}
    (hkeys : (Value.map m).KeysDistinct)
    (hm : (Value.map m).depth ≤ n + 2)
    (h : Column.ofMapping m = .ok c) :
    c.toValue.depth ≤ n + 2 := by
  have hsound := Column.sound_ofMapping hkeys h
  simp only [Column.ofMapping, bind_eq_ok, pure_eq_ok] at h
  obtain ⟨size, -, rfl⟩ := h
  rw [hsound.toValue_eq]
  refine depth_levelEntries_le rfl ?_ (Value.depthItems_le_iff.2 fun v hv => ?_)
  · rw [Value.depth] at hm
    exact depthEntries_erase_le (depthEntries_erase_le (Nat.le_of_succ_le_succ hm) _) _
  · obtain ⟨w, hw, rfl⟩ := List.mem_map.1 hv
    obtain ⟨m', hm', hw⟩ := List.mem_filterMap.1 hw
    exact Widget.depth_ofMapping?_le (keysDistinct_of_mem_mappings hkeys hm')
      (Nat.le_of_succ_le_succ (Nat.le_of_succ_le_succ (depth_le_of_mem_mappings hm hm'))) hw

theorem Page.depth_ofMapping_le
    {m : Mapping}
    {p : Page}
    (hkeys : (Value.map m).KeysDistinct)
    (hm : (Value.map m).depth ≤ n + 4)
    (h : Page.ofMapping m = .ok p) :
    p.toValue.depth ≤ n + 4 := by
  have hsound := Page.sound_ofMapping hkeys h
  simp only [Page.ofMapping, bind_eq_ok, pure_eq_ok] at h
  obtain ⟨columns, hcolumns, rfl⟩ := h
  rw [hsound.toValue_eq]
  refine depth_levelEntries_le rfl ?_ (Value.depthItems_le_iff.2 fun v hv => ?_)
  · rw [Value.depth] at hm
    exact depthEntries_erase_le (depthEntries_erase_le (Nat.le_of_succ_le_succ hm) _) _
  · obtain ⟨c, hc, rfl⟩ := List.mem_map.1 hv
    obtain ⟨m', hm', hc⟩ := mem_of_mapM_eq_ok hcolumns c hc
    exact Column.depth_ofMapping_le (keysDistinct_of_mem_mappings hkeys hm')
      (Nat.le_of_succ_le_succ (Nat.le_of_succ_le_succ (depth_le_of_mem_mappings hm hm'))) hc

/-- Loading makes nothing deeper than six levels deeper than it was. -/
theorem Document.depth_ofValue_le
    {v : Value}
    {d : Document}
    (hkeys : v.KeysDistinct)
    (hv : v.depth ≤ n + 6)
    (h : Document.ofValue v = .ok d) :
    d.toValue.depth ≤ n + 6 := by
  have hsound := Document.sound_ofValue hkeys h
  obtain ⟨m, rfl, hpages, hsettings⟩ := Document.exists_of_ofValue h
  have hitems : Value.depthItems (d.pages.map Page.toValue) ≤ n + 4 := by
    refine Value.depthItems_le_iff.2 fun u hu => ?_
    obtain ⟨p, hp, rfl⟩ := List.mem_map.1 hu
    obtain ⟨m', hm', hp⟩ := mem_of_mapM_eq_ok hpages p hp
    exact Page.depth_ofMapping_le (keysDistinct_of_mem_mappings hkeys hm')
      (Nat.le_of_succ_le_succ (Nat.le_of_succ_le_succ (depth_le_of_mem_mappings hv hm'))) hp
  rw [hsound.toValue_eq, Value.depth]
  refine Nat.succ_le_succ (depthEntries_append_le ?_ ?_)
  · rw [Value.depth] at hv
    rw [hsettings]
    exact depthEntries_erase_le (Nat.le_of_succ_le_succ hv) "pages"
  · rw [Value.depthEntries, Value.depthEntries, Value.depth, Nat.max_le]
    exact ⟨Nat.succ_le_succ hitems, Nat.zero_le _⟩

/-- A document that was parsed can be read again: its value is not too deep. -/
theorem Document.depth_parse_le
    {text : String}
    {d : Document}
    (h : Document.parse text = .ok d) :
    d.toValue.depth ≤ Yaml.Node.maxDepth := by
  obtain ⟨v, hv, hd⟩ := Document.exists_of_parse h
  have hdepth : v.depth ≤ 122 + 6 :=
    depth_le_of_ofYaml? hv
  exact Document.depth_ofValue_le (Value.keysDistinct_of_ofYaml? hv) hdepth hd

end Depth

end Dashboard
