import Dashboard.Proofs.Json.Sound
import Dashboard.Proofs.Reference.ReadBack

/-!
# Reference data is stable after one read

Data that was read from any text is read back from what is written of it, and
written the same way again.  Reading has left out what cannot be read, and what it
has kept is in a form that writing and reading keep.
-/

namespace Dashboard.Reference

open Json

/-! ## Examples that have been read -/

theorem exists_of_docOf?
    {u : Value}
    {d : WidgetDoc}
    (h : docOf? u = some d) :
    ∃ m : Mapping, u = .map m ∧
      d.example? = (Entries.get? m "example").filter fun v => v != .null := by
  cases u with
  | map m =>
      refine ⟨m, rfl, ?_⟩
      obtain ⟨-, -, hfields⟩ := bind_eq_ok.1 (toOption_eq_some.1 h)
      obtain ⟨type, -, hdoc⟩ := bind_eq_ok.1 hfields
      rw [← pure_eq_ok.1 hdoc]
  | null | bool b | int n | float x | str s | seq vs =>
      cases h

theorem wellRead_of_mem_itemsAt
    {root : Mapping}
    {key : String}
    {n : Nat}
    {u : Value}
    (hroot : WellRead (n + 2) (.map root))
    (h : u ∈ root.itemsAt key) :
    WellRead n u := by
  rw [Mapping.itemsAt] at h
  split at h
  · next items hitems =>
      exact (hroot.of_map _ (Entries.mem_of_get? hitems)).of_seq u h
  · cases h

/-- An example that was read has what every value that was read has, and it is not
null. -/
theorem wellRead_of_example
    {text : String}
    {d : WidgetDoc}
    {v : Value}
    (hd : d ∈ (ofJson text).docs)
    (hv : d.example? = some v) :
    WellRead 124 v ∧ v ≠ .null := by
  rw [ofJson] at hd
  split at hd
  · next root hread =>
      obtain ⟨u, hu, hdoc⟩ := List.mem_filterMap.1 hd
      obtain ⟨m, rfl, hexample⟩ := exists_of_docOf? hdoc
      rw [hexample] at hv
      obtain ⟨hget, hnull⟩ := Option.filter_eq_some_iff.1 hv
      have hroot : WellRead 127 (.map root) := wellRead_of_read hread
      have hm : WellRead 125 (.map m) := wellRead_of_mem_itemsAt hroot hu
      exact ⟨hm.of_map _ (Entries.mem_of_get? hget), by simpa using hnull⟩
  · cases hd

/-! ## Data that has been read -/

/-- Documentation is in JSON what it is, exactly if its example is and is not null. -/
theorem inJson_doc_eq_self_iff (d : WidgetDoc) :
    d.inJson = d ↔ ∀ v, d.example? = some v → v.FloatsFinite ∧ v ≠ .null := by
  obtain ⟨name, type, markdown, example?⟩ := d
  cases example? with
  | none =>
      simp [WidgetDoc.inJson]
  | some v =>
      simp [WidgetDoc.inJson, ← Value.inJson_eq_self_iff, Option.filter_eq_some_iff]

theorem inJson_docs_eq_iff (r : Reference) :
    r.inJson.docs = r.docs ↔ r.AllExamples fun v => v.FloatsFinite ∧ v ≠ .null := by
  have hmap : r.docs.map WidgetDoc.inJson = r.docs.map id ↔ ∀ d ∈ r.docs, d.inJson = d :=
    List.map_inj_left
  rw [List.map_id] at hmap
  exact hmap.trans (forall₂_congr fun d _ => inJson_doc_eq_self_iff d)

/-- Data that was read is read back from what is written of it, and written the same
way again.  The numbers of double precision in it are read back from their own texts. -/
theorem stable_after_one_read
    (text : String)
    (hfloats : (ofJson text).AllExamples fun v => v.AllFloats ReadsBack) :
    (ofJson (ofJson text).toJson).docs = (ofJson text).docs ∧
      (ofJson (ofJson text).toJson).templates = (ofJson text).templates ∧
      (ofJson (ofJson text).toJson).toJson = (ofJson text).toJson := by
  have hkeys : (ofJson text).AllExamples Value.KeysDistinct :=
    fun d hd v hv => (wellRead_of_example hd hv).1.keysDistinct
  have hdepth : (ofJson text).toValue.depth ≤ maxDepth :=
    depth_toValue_le_iff.2 fun d hd v hv => (wellRead_of_example hd hv).1.depth_le
  have himp : ∀ x, ReadsBack x → FiniteReadsBack x := fun x hx _ => hx
  have hread : (ofJson text).AllExamples fun v => v.AllFloats FiniteReadsBack :=
    fun d hd v hv => Value.AllFloats.imp himp v (hfloats d hd v hv)
  have hkept : (ofJson text).AllExamples fun v => v.FloatsFinite ∧ v ≠ .null :=
    fun d hd v hv => ⟨(wellRead_of_example hd hv).1.floatsFinite, (wellRead_of_example hd hv).2⟩
  have hdocs := (inJson_docs_eq_iff _).2 hkept
  rw [ofJson_toJson hkeys hread, if_pos hdepth]
  refine ⟨hdocs, rfl, ?_⟩
  rw [toJson, toValue, hdocs]
  rfl

/-- A file with a bare type, a documented one, an entry without a type, and a page
whose fields are in a list. -/
def clockText : String :=
  "\x7b\"widgets\": [\"custom\", \x7b\"name\": \"Weather\"\x7d, " ++
    "\x7b\"type\": \"clock\", \"example\": \x7b\"size\": 2.5\x7d\x7d], " ++
    "\"templates\": [[\"Home\", null, null, \"pages: []\"]]\x7d"

/-- What the file says. -/
def clockData : Reference where
  docs := [{ type := "clock", example? := some (.map [("size", .float (Double.ofRatio 5 2))]) }]
  templates := [{ name := "Home", yaml := "pages: []" }]
  bareTypes := ["custom"]

theorem clockText_stable :
    ofJson clockText = clockData ∧
      (ofJson clockData.toJson).docs = clockData.docs ∧
      (ofJson clockData.toJson).templates = clockData.templates ∧
      (ofJson clockData.toJson).toJson = clockData.toJson := by
  have hdata : ofJson clockText = clockData := by decide +kernel
  have hsize : ReadsBack (Double.ofRatio 5 2) := toOption_eq_some.1 (by decide +kernel)
  have hfloats : (ofJson clockText).AllExamples fun v => v.AllFloats ReadsBack := by
    rw [hdata]
    intro d hd v hv
    cases List.mem_singleton.1 hd
    cases hv
    exact ⟨hsize, True.intro⟩
  have hstable := stable_after_one_read clockText hfloats
  rw [hdata] at hstable
  exact ⟨hdata, hstable⟩

end Dashboard.Reference
