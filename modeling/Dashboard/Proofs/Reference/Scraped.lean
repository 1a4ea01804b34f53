import Dashboard.Docs
import Dashboard.Proofs.Files.Written
import Dashboard.Proofs.Reference.Stable
import Dashboard.Reference.Events

/-!
# Reference data from the documentation

What the editor reads is what was taken from the documentation and written, exactly
if JSON can hold every example: its numbers are finite, and with the three
containers around it, it is not nested deeper than JSON is read.
-/

namespace Dashboard

open Json

/-! ## Examples in the documentation -/

namespace Value

variable {type : String}
variable {w : Value}

mutual

/-- A widget that is found is a mapping, and has distinct keys if all has. -/
theorem exists_of_findWidget?
    (v : Value)
    (hkeys : v.KeysDistinct)
    (h : v.findWidget? type = some w) :
    w.KeysDistinct ∧ ∃ m, w = .map m := by
  match v with
  | .null | .bool _ | .int _ | .float _ | .str _ =>
      rw [findWidget?] at h
      · cases h
      all_goals
        intro _ heq
        cases heq
  | .seq items =>
      rw [findWidget?] at h
      exact exists_of_findInItems? items hkeys h
  | .map entries =>
      rw [findWidget?] at h
      split at h
      · split at h
        · cases h
          exact ⟨hkeys, entries, rfl⟩
        · exact exists_of_findInEntries? entries hkeys.2 h
      · exact exists_of_findInEntries? entries hkeys.2 h

theorem exists_of_findInItems?
    (vs : List Value)
    (hkeys : KeysDistinctItems vs)
    (h : findInItems? type vs = some w) :
    w.KeysDistinct ∧ ∃ m, w = .map m := by
  match vs with
  | [] =>
      cases h
  | v :: vs =>
      rw [findInItems?] at h
      split at h
      · next found hfound =>
          cases h
          exact exists_of_findWidget? v hkeys.1 hfound
      · exact exists_of_findInItems? vs hkeys.2 h

theorem exists_of_findInEntries?
    (m : List (String × Value))
    (hkeys : KeysDistinctEntries m)
    (h : findInEntries? type m = some w) :
    w.KeysDistinct ∧ ∃ m, w = .map m := by
  match m with
  | [] =>
      cases h
  | (k, v) :: m =>
      rw [findInEntries?] at h
      split at h
      · next found hfound =>
          cases h
          exact exists_of_findWidget? v hkeys.1 hfound
      · exact exists_of_findInEntries? m hkeys.2 h

end

end Value

namespace Markdown

variable {d : WidgetDoc}

theorem mem_of_mem_firstOfType
    {seen : List String}
    {docs : List WidgetDoc}
    (h : d ∈ firstOfType seen docs) :
    d ∈ docs := by
  induction docs generalizing seen with
  | nil =>
      cases h
  | cons e docs ih =>
      rw [firstOfType] at h
      split at h
      · exact List.mem_cons_of_mem e (ih h)
      · rcases List.mem_cons.1 h with rfl | h
        · exact List.mem_cons_self
        · exact List.mem_cons_of_mem e (ih h)

theorem mem_insertByType
    {e : WidgetDoc}
    {docs : List WidgetDoc}
    (h : d ∈ insertByType e docs) :
    d = e ∨ d ∈ docs := by
  induction docs with
  | nil =>
      exact .inl (List.mem_singleton.1 h)
  | cons f docs ih =>
      rw [insertByType] at h
      split at h
      · rcases List.mem_cons.1 h with rfl | h
        · exact .inr List.mem_cons_self
        · exact (ih h).imp_right (List.mem_cons_of_mem f)
      · exact List.mem_cons.1 h

theorem mem_of_mem_sortByType
    {docs : List WidgetDoc}
    (h : d ∈ sortByType docs) :
    d ∈ docs := by
  induction docs with
  | nil =>
      cases h
  | cons e docs ih =>
      rcases mem_insertByType h with rfl | h
      · exact List.mem_cons_self
      · exact List.mem_cons_of_mem e (ih h)

/-- An example in the documentation is a mapping with distinct keys. -/
theorem example_of_mem_widgets
    {text : String}
    {v : Value}
    (hd : d ∈ widgets text)
    (hv : d.example? = some v) :
    v.KeysDistinct ∧ ∃ m, v = .map m := by
  rw [widgets] at hd
  split at hd
  · cases hd
  · next chapter _ =>
      obtain ⟨s, -, hdoc⟩ :=
        List.mem_filterMap.1 (mem_of_mem_firstOfType (mem_of_mem_sortByType hd))
      obtain ⟨type, -, hdoc⟩ := Option.bind_eq_some_iff.1 hdoc
      cases hdoc
      obtain ⟨content, -, hv⟩ := Option.bind_eq_some_iff.1 hv
      obtain ⟨data, -, hv⟩ := Option.bind_eq_some_iff.1 hv
      exact Value.exists_of_findWidget? _ (Value.keysDistinct_ofDatum data) hv

end Markdown

/-- Two data give the same widgets and pages, and the same answer to every question. -/
structure Reference.Agrees (r s : Reference) : Prop where
  docs : r.docs = s.docs
  templates : r.templates = s.templates
  types : r.types = s.types
  doc : ∀ type, r.doc? type = s.doc? type
  knows : ∀ type, r.knows type = s.knows type
  template : ∀ name, r.template? name = s.template? name

namespace Docs

variable {fs fs' : Files}
variable {path : String}
variable {config pages : Option String}

/-- An example that was taken from the documentation has distinct keys and is not
null. -/
theorem example_of_mem_scrape
    {d : WidgetDoc}
    {v : Value}
    (hd : d ∈ (scrape config pages).docs)
    (hv : d.example? = some v) :
    v.KeysDistinct ∧ v ≠ .null := by
  cases config with
  | none =>
      cases hd
  | some text =>
      obtain ⟨hkeys, m, rfl⟩ := Markdown.example_of_mem_widgets hd hv
      exact ⟨hkeys, by intro h; cases h⟩

/-- What is loaded from a file that was written is what is read back of the data. -/
theorem load_of_writeReference
    {r : Reference}
    (h : writeReference fs path r = .ok fs') :
    Reference.load fs' path = Reference.ofJson r.toJson := by
  rw [Reference.load, Files.read_of_write (mapError_eq_ok.1 h)]

/-- What is loaded agrees with what was taken from the documentation, exactly if every
example has only finite numbers and is, with the three containers around it, not nested
deeper than JSON is read.  The finite numbers are read back from their own texts. -/
theorem load_scraped_agrees_iff
    (hwrite : writeReference fs path (scrape config pages) = .ok fs')
    (hfloats : (scrape config pages).AllExamples fun v => v.AllFloats FiniteReadsBack) :
    (Reference.load fs' path).Agrees (scrape config pages) ↔
      (scrape config pages).AllExamples fun v => v.FloatsFinite ∧ v.depth + 3 ≤ maxDepth := by
  have hkeys : (scrape config pages).AllExamples Value.KeysDistinct :=
    fun d hd v hv => (example_of_mem_scrape hd hv).1
  have hdepth : (scrape config pages).toValue.depth ≤ maxDepth ↔
      (scrape config pages).AllExamples fun v => v.depth + 3 ≤ maxDepth := by
    have hmax : maxDepth = 124 + 3 := rfl
    simp only [hmax, Nat.add_le_add_iff_right]
    exact Reference.depth_toValue_le_iff
  rw [load_of_writeReference hwrite, Reference.ofJson_toJson hkeys hfloats]
  constructor
  · intro hagrees d hd v hv
    have hdocs := hagrees.docs
    by_cases hshallow : (scrape config pages).toValue.depth ≤ maxDepth
    · rw [if_pos hshallow, Reference.inJson_docs_eq_iff] at hdocs
      exact ⟨(hdocs d hd v hv).1, hdepth.1 hshallow d hd v hv⟩
    · rw [if_neg hshallow] at hdocs
      rw [← hdocs] at hd
      cases hd
  · intro hall
    have hshallow := hdepth.2 fun d hd v hv => (hall d hd v hv).2
    have hdocs := (Reference.inJson_docs_eq_iff _).2 fun d hd v hv =>
      ⟨(hall d hd v hv).1, (example_of_mem_scrape hd hv).2⟩
    -- neither side has types without documentation
    have hsame : (scrape config pages).inJson = scrape config pages := by
      calc
        (scrape config pages).inJson =
            { docs := (scrape config pages).inJson.docs
              templates := (scrape config pages).templates } := rfl
        _ = scrape config pages := by
            rw [hdocs]
            rfl
    rw [if_pos hshallow, hsame]
    exact ⟨rfl, rfl, rfl, fun _ => rfl, fun _ => rfl, fun _ => rfl⟩

/-! ## A clock with a number -/

/-- The text of a section with an example. -/
def clockText (limit : String) : String :=
  "- type: clock\n\n```yaml\n- type: clock\n  limit: " ++ limit ++ "\n```"

/-- A document with the section. -/
def clockDoc (limit : String) : String :=
  "## Widgets\n\n### Clock\n" ++ clockText limit ++ "\n"

/-- The example with a number. -/
def clockExample (x : Double) : Value :=
  .map [("type", .str "clock"), ("limit", .float x)]

/-- What the document says, where the example has this number. -/
def clockData (limit : String) (x : Double) : Reference where
  docs := [{
    name := "Clock"
    type := "clock"
    markdown := clockText limit
    example? := some (clockExample x) }]

/-- The files when only reference data has been written. -/
def onlyWritten (r : Reference) : Files :=
  ⟨[([outputFile], .text r.toJson)]⟩

theorem allExamples_clockData
    {P : Value → Prop}
    {limit : String}
    {x : Double}
    (h : P (clockExample x)) :
    (clockData limit x).AllExamples P := by
  intro d hd v hv
  cases List.mem_singleton.1 hd
  cases hv
  exact h

theorem writeReference_empty (r : Reference) :
    writeReference {} outputFile r = .ok (onlyWritten r) :=
  rfl

theorem finite_clock_agrees :
    scrape (some (clockDoc "2.5")) none = clockData "2.5" (Double.ofRatio 5 2) ∧
      writeReference {} outputFile (scrape (some (clockDoc "2.5")) none) =
        .ok (onlyWritten (scrape (some (clockDoc "2.5")) none)) ∧
      (Reference.load (onlyWritten (scrape (some (clockDoc "2.5")) none)) outputFile).Agrees
        (scrape (some (clockDoc "2.5")) none) := by
  have hscrape : scrape (some (clockDoc "2.5")) none = clockData "2.5" (Double.ofRatio 5 2) := by
    decide +kernel
  have hback : ReadsBack (Double.ofRatio 5 2) := toOption_eq_some.1 (by decide +kernel)
  have hfinite : (Double.ofRatio 5 2).isFinite = true := by decide +kernel
  have hwrite := writeReference_empty (scrape (some (clockDoc "2.5")) none)
  refine ⟨hscrape, hwrite, (load_scraped_agrees_iff hwrite ?_).2 ?_⟩
  · rw [hscrape]
    exact allExamples_clockData ⟨True.intro, fun _ => hback, True.intro⟩
  · rw [hscrape]
    exact allExamples_clockData ⟨⟨True.intro, hfinite, True.intro⟩, by decide⟩

/-- In JSON the number of the example is null, and so the example is another one. -/
theorem nan_clock_does_not_agree :
    scrape (some (clockDoc ".nan")) none = clockData ".nan" .nan ∧
      writeReference {} outputFile (scrape (some (clockDoc ".nan")) none) =
        .ok (onlyWritten (scrape (some (clockDoc ".nan")) none)) ∧
      ¬(Reference.load (onlyWritten (scrape (some (clockDoc ".nan")) none)) outputFile).Agrees
        (scrape (some (clockDoc ".nan")) none) := by
  have hscrape : scrape (some (clockDoc ".nan")) none = clockData ".nan" .nan := by decide +kernel
  have hwrite := writeReference_empty (scrape (some (clockDoc ".nan")) none)
  refine ⟨hscrape, hwrite, fun hagrees => ?_⟩
  have hkeys : (clockData ".nan" .nan).AllExamples Value.KeysDistinct :=
    allExamples_clockData (by decide)
  have hnan : FiniteReadsBack .nan := by
    intro hfinite
    cases hfinite
  have hfloats : (clockData ".nan" .nan).AllExamples fun v => v.AllFloats FiniteReadsBack :=
    allExamples_clockData ⟨True.intro, hnan, True.intro⟩
  have hdocs := hagrees.docs
  rw [load_of_writeReference hwrite, hscrape, Reference.ofJson_toJson hkeys hfloats,
    if_pos (by decide)] at hdocs
  exact absurd hdocs (by decide +kernel)

end Docs

end Dashboard
